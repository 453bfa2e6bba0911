import DdosDetector.Account

/-!
What `calc_delta` divides. A rule of a thread counts what main has lent it and the packets
that it has received since; a rule of main counts what its snapshot counts, the packets
harvested since, and what has come back of the loans. The rate is thus the rule's own
traffic where the rule still stands where it was saved and nothing has come back.
-/
namespace DdosDetector
namespace Daemon
variable {platform : Platform} {a : Label} {s s' : Daemon} {h : Ledger}

/-! ### Threads count what they have received -/

/-- A relation of a rule to what it was lent and to packets, which counting a packet and
    handing over to main keep. -/
structure Counting (P : BaseRule → (Counter → UInt64) → Seen → Prop) : Prop where
  counted : ∀ {F : Type} (r : Rule F) (lent : Counter → UInt64) (seen : Seen) (d_addr len : UInt32),
    P r.toBaseRule lent seen → P (RulesList.count r d_addr len).toBaseRule lent (seen ++ [(d_addr,len)])
  drained : ∀ {F : Type} (r r' : Rule F), P (r.add r').2.toBaseRule 0 []

/-- The rules of the threads are related to what they have not yet handed to main. -/
def InStep (P : BaseRule → (Counter → UInt64) → Seen → Prop) (s : Daemon) (h : Ledger) : Prop :=
  ∀ (j : Nat) (c : RulesCollection), s.threads[j]? = some c → ∀ (p : Proto) (k : Nat) (r : Rule (Fields p)),
    (c.list p).rules_[k]? = some r → P r.toBaseRule (h.lent j p k) (h.pending j p k)

section
variable {P : BaseRule → (Counter → UInt64) → Seen → Prop} {h' : Ledger}

private theorem inStep_same (in_step : InStep P s h) (threads : s'.threads = s.threads) (lent : h'.lent = h.lent)
    (pending : h'.pending = h.pending) : InStep P s' h' := by
  intro j c found p k r here
  rw [lent,pending]
  exact in_step j c (threads ▸ found) p k r here

/-- One list of one thread changes, and what is noted for it. -/
private theorem inStep_set (in_step : InStep P s h) {i : Nat} {p : Proto} {c c' : RulesCollection}
    (thread : s.threads[i]? = some c) (threads : s'.threads = s.threads.set i c')
    (others : ∀ q, q ≠ p → c'.list q = c.list q)
    (elsewhere : ∀ j q, ¬ (j = i ∧ q = p) → h'.lent j q = h.lent j q ∧ h'.pending j q = h.pending j q)
    (changed : ∀ (k : Nat) (r : Rule (Fields p)), (c'.list p).rules_[k]? = some r →
      P r.toBaseRule (h'.lent i p k) (h'.pending i p k)) : InStep P s' h' := by
  intro j d found q k r here
  have inside : j < s.threads.length := by
    have bound := (List.getElem?_eq_some_iff.mp found).1
    rwa [threads,List.length_set] at bound
  obtain ⟨d',found',⟨rfl,rfl,rfl⟩ | ⟨other,rfl⟩⟩ := getElem?_set_found c' thread (List.getElem?_eq_getElem inside)
  · obtain rfl := Option.some.inj (found'.symm.trans (threads ▸ found))
    by_cases same : q = p
    · subst same
      exact changed k r here
    · obtain ⟨lent,pending⟩ := elsewhere i q fun at_list => same at_list.2
      rw [lent,pending]
      rw [others q same] at here
      exact in_step i _ (List.getElem?_eq_getElem inside) q k r here
  · obtain rfl := Option.some.inj (found'.symm.trans (threads ▸ found))
    obtain ⟨lent,pending⟩ := elsewhere j q fun at_list => other at_list.1.symm
    rw [lent,pending]
    exact in_step j _ (List.getElem?_eq_getElem inside) q k r here

theorem inStep_step (counting : Counting P) (moved : Stepped platform s a s')
    (copies : (∀ i p, s.pc ≠ .copy i p) ∨ ∀ r : BaseRule, P r (fun c => c.read r) []) (in_step : InStep P s h) :
    InStep P s' (Ledger.note platform a s h) := by
  cases moved with
  | @packet i p packet c thread =>
    have noted : Ledger.note platform (.packet i p packet) s h = h.received i p (c.list p).rules_ packet := by
      simp [Ledger.note,thread]
    rw [noted]
    refine inStep_set in_step thread rfl (fun q other => RulesCollection.list_set_list_ne c _ other)
      (fun j q other => ⟨rfl,?_⟩) fun k r' found => ?_
    · funext k
      simp only [Ledger.received]
      exact if_neg fun here => other ⟨here.1,here.2.1⟩
    · rw [RulesCollection.list_set_list,RulesList.rules_check_list,Option.map_eq_some_iff] at found
      obtain ⟨r,here,rfl⟩ := found
      have before := in_step i c thread p k r here
      simp only [Ledger.received,true_and]
      split_ifs with counts
      · exact counting.counted r _ _ packet.d_addr packet.len before
      · exact before
  | @console p e =>
    refine inStep_same in_step rfl ?_ ?_
    all_goals
      simp only [Ledger.note]
      split <;> rfl
  | missing | reload idle => exact in_step
  | @load now s' loaded =>
    have threads : s'.threads = s.threads := by cases loaded <;> rfl
    refine inStep_same in_step threads ?_ ?_
    all_goals
      simp only [Ledger.note]
      split <;> rfl
  | @watch now clock s' watched =>
    cases watched with
    | @copied i p c here thread =>
      have lends := copies.resolve_left fun never => never i p here
      have noted : Ledger.note platform (.watch now clock) s h =
          h.copied i p fun k c => (s.main.list p).count_at c k := by
        simp [Ledger.note,here]
      rw [noted]
      refine inStep_set in_step thread rfl (fun q other => RulesCollection.list_assign_list_ne _ _ now other)
        (fun j q other => by simp [Ledger.copied,other]) fun k r found => ?_
      rw [RulesCollection.list_assign_list,RulesList.rules_assign] at found
      simp only [Ledger.copied,and_self,↓reduceIte,RulesList.count_at_some found]
      exact lends r.toBaseRule
    | @merged i p c l l' here thread sum =>
      rw [Ledger.note_merged here thread sum]
      refine inStep_set in_step thread rfl (fun q other => RulesCollection.list_set_list_ne c _ other)
        (fun j q other => by simp [Ledger.merged,Ledger.copied,other]) fun k r found => ?_
      rw [RulesCollection.list_set_list] at found
      simp only [Ledger.merged,Ledger.copied,and_self,↓reduceIte]
      rcases RulesList.rules_merge sum k with ⟨_,_,_,none⟩ | ⟨r₁,r₂,_,_,_,drained⟩
      · cases none.symm.trans found
      · obtain rfl := Option.some.inj (drained.symm.trans found)
        exact counting.drained r₁ r₂
    | @failed i p c error here thread thrown =>
      rw [Ledger.note_failed here thread thrown]
      exact inStep_same in_step rfl rfl rfl
    | equal here | differ here | stamped here | rated here | saved here | opened here | closed here | reread here
    | checked here =>
      exact inStep_same in_step rfl (by simp [Ledger.note,here,Ledger.saved]) (by simp [Ledger.note,here,Ledger.saved])

end

/-- The counters of the rule are what it was lent and those of the packets. -/
def Accounted (r : BaseRule) (lent : Counter → UInt64) (seen : Seen) : Prop := ∀ c : Counter, c.read r = lent c + tally c seen

theorem counting_accounted : Counting Accounted where
  counted r lent seen d_addr len accounted c := by
    rw [tally_snoc,← UInt64.add_assoc,← accounted c]
    cases c <;> rfl
  drained _ _ c := by cases c <;> rfl

theorem accounted_copy (r : BaseRule) : Accounted r (fun c => c.read r) [] := fun c => by simp

theorem accounted_start (s : Daemon) : InStep Accounted s (Ledger.start s.threads) := by
  intro j c found p k r here counter
  simp [Ledger.start,found,RulesList.count_at_some here]

/-! ### Main and its snapshot -/

/-- A rule of main that was saved has the counts of the snapshot, what has been harvested
    since, and what has been returned since. -/
def BalanceAt (s : Daemon) (h : Ledger) (p : Proto) : Prop :=
  ∀ (k j : Nat), k < (s.main.list p).rules_.length → h.saved_at p k = some j →
    (s.main.list p).entered[k]? = (s.prev.list p).entered[j]? ∧
      ∀ c, (s.main.list p).count_at c k =
        (s.prev.list p).count_at c j + tally c (h.harvested p k) + h.returned p k c

def Balance (s : Daemon) (h : Ledger) : Prop := ∀ p, BalanceAt s h p

section
variable {h' : Ledger} {p : Proto}

/-- What is noted for main's list since it was saved. -/
private def noted (h : Ledger) (p : Proto) := (h.harvested p,h.returned p,h.saved_at p)

private theorem balance_same (before : BalanceAt s h p)
    (entered : (s'.main.list p).entered = (s.main.list p).entered)
    (counts : ∀ c k, (s'.main.list p).count_at c k = (s.main.list p).count_at c k)
    (prev : s'.prev.list p = s.prev.list p) (same : noted h' p = noted h p) : BalanceAt s' h' p := by
  obtain ⟨harvested,returned,saved_at⟩ : h'.harvested p = h.harvested p ∧ h'.returned p = h.returned p ∧
      h'.saved_at p = h.saved_at p := by simpa [noted] using same
  intro k j inside origin
  rw [saved_at] at origin
  rw [entered,prev,harvested,returned]
  simp only [counts]
  exact before k j (RulesList.entered_length entered ▸ inside) origin

/-- A write keeps the balance of the rules that it moves. -/
private theorem balance_written {origin : Nat → Option Nat} (before : BalanceAt s h p)
    (moves : ∀ k i, origin k = some i → (s'.main.list p).rules_[k]? = (s.main.list p).rules_[i]?)
    (prev : s'.prev = s.prev) : BalanceAt s' (h.written p origin) p := by
  intro k j inside saved_at
  simp only [Ledger.written,Ledger.at_list_same] at saved_at ⊢
  obtain ⟨i,from_i,saved_at⟩ := Option.bind_eq_some_iff.mp saved_at
  have moved := moves k i from_i
  have old_inside : i < (s.main.list p).rules_.length := by
    rw [List.getElem?_eq_getElem inside] at moved
    exact (List.getElem?_eq_some_iff.mp moved.symm).1
  obtain ⟨entered,counts⟩ := before i j old_inside saved_at
  refine ⟨?_,fun c => ?_⟩
  · rw [prev,← entered,RulesList.entered,RulesList.entered,List.getElem?_map,List.getElem?_map,moved]
  · rw [prev,from_i,RulesList.count_at,moved]
    exact counts c

/-- A merge adds to main and to the harvest alike. -/
private theorem balance_merged (in_step : InStep Accounted s h) (before : BalanceAt s h p) {i : Nat}
    {thread : RulesCollection} (found : s.threads[i]? = some thread) {l l' : RulesList (Fields p)}
    (sum : (s.main.list p).merge (thread.list p) = .ok (l,l')) (main : s'.main.list p = l) (prev : s'.prev = s.prev) :
    BalanceAt s' (h.merged i p) p := by
  intro k j inside saved_at
  have same := (RulesList.entered_merge sum).1
  have here : k < (s.main.list p).rules_.length := by
    rw [main] at inside
    exact RulesList.entered_length same ▸ inside
  obtain ⟨entered,counts⟩ := before k j here saved_at
  refine ⟨by rw [main,same,prev,entered],?_⟩
  intro c
  have there : k < (thread.list p).rules_.length := (RulesList.merge_spec sum).1 ▸ here
  have received := in_step i thread found p k _ (List.getElem?_eq_getElem there) c
  rw [main,prev,(RulesList.count_at_merge sum c k).1,counts c,RulesList.count_at_some (List.getElem?_eq_getElem there),
    received]
  simp only [Ledger.merged,Ledger.at_list_same,tally_append]
  ac_rfl

private theorem balance_saved (main : s'.main = s.main) (prev : (s'.prev.list p).rules_ = (s.main.list p).rules_) :
    BalanceAt s' (h.saved p) p := by
  intro k j inside saved_at
  simp only [Ledger.saved,Ledger.at_list_same,Option.some.injEq] at saved_at ⊢
  subst saved_at
  exact ⟨by rw [main,RulesList.entered,RulesList.entered,prev],fun c => by simp [main,RulesList.count_at,prev]⟩

end

/-- A snapshot that holds the rules and counts of main is in balance from the start. -/
theorem balance_even (even : ∀ p, (s.prev.list p).rules_ = (s.main.list p).rules_) (threads : List RulesCollection) :
    Balance s (Ledger.start threads) := by
  intro p k j inside saved_at
  obtain rfl := Option.some.inj saved_at
  simp [RulesList.entered,RulesList.count_at,even p,Ledger.start]

theorem balance_step (moved : Stepped platform s a s') (in_step : InStep Accounted s h) (balance : Balance s h) :
    Balance s' (Ledger.note platform a s h) := by
  intro p
  have before := balance p
  cases moved with
  | packet thread => exact balance_same before rfl (fun _ _ => rfl) rfl (by simp [Ledger.note,thread,Ledger.received,noted])
  | @console q e =>
    cases applied : e.apply platform (s.main.list q) with
    | error error =>
      have kept : s.main.console platform q e = s.main := by simp [RulesCollection.console,applied]
      exact balance_same before (by simp [kept]) (by simp [kept]) rfl (by simp [Ledger.note,applied])
    | ok l =>
      have kept : s.main.console platform q e = s.main.set_list q l := by simp [RulesCollection.console,applied]
      simp only [Ledger.note,applied]
      by_cases same : p = q
      · subst same
        refine balance_written before ?_ rfl
        intro k i origin
        rw [kept,RulesCollection.list_set_list]
        exact (Edit.apply_spec applied).2.2.2 k i origin
      · have other : (s.main.console platform q e).list p = s.main.list p := by
          rw [kept,RulesCollection.list_set_list_ne _ _ same]
        exact balance_same before (by simp [other]) (by simp [other]) rfl
          (by simp [noted,Ledger.written,Ledger.at_list_ne _ _ same])
  | missing | reload idle => exact before
  | load loaded =>
    cases loaded with
    | @assigned q buff here =>
      simp only [Ledger.note,here]
      by_cases same : p = q
      · subst same
        exact balance_written before (fun k i origin => by cases origin) rfl
      · have other := RulesCollection.list_set_list_ne s.main ((s.main.list q).assign (buff.list q)) same
        exact balance_same before (by simp [other]) (by simp [other]) rfl
          (by simp [noted,Ledger.written,Ledger.at_list_ne _ _ same])
    | changed here => exact balance_same before (by simp) (by simp) rfl (by simp [Ledger.note,here])
    | copied here | filled here | failed here =>
      exact balance_same before rfl (fun _ _ => rfl) rfl (by simp [Ledger.note,here])
  | @watch now clock s' watched =>
    have entered : (s'.main.list p).entered = (s.main.list p).entered := main_frame (.watch watched) id
    cases watched with
    | @merged i q thread l l' here found sum =>
      rw [Ledger.note_merged here found sum]
      by_cases same : p = q
      · subst same
        exact balance_merged in_step before found sum (by simp) rfl
      · have other := RulesCollection.list_set_list_ne s.main l same
        exact balance_same before entered (by simp [other]) rfl
          (by simp [noted,Ledger.merged,Ledger.copied,Ledger.at_list_ne _ _ same])
    | @failed i q thread error here found thrown =>
      rw [Ledger.note_failed here found thrown]
      exact balance_same before rfl (fun _ _ => rfl) rfl rfl
    | @saved q here =>
      simp only [Ledger.note,here]
      by_cases same : p = q
      · subst same
        exact balance_saved rfl (by simp)
      · exact balance_same before rfl (fun _ _ => rfl) (RulesCollection.list_assign_list_ne _ _ _ same)
          (by simp [noted,Ledger.saved,Ledger.at_list_ne _ _ same])
    | stamped here =>
      exact balance_same before entered (fun c k => count_set_list (by simp) p) rfl (by simp [Ledger.note,here])
    | rated here =>
      exact balance_same before entered (fun c k => count_set_list (RulesList.count_at_calc_delta platform _ _ c k) p)
        rfl (by simp [Ledger.note,here,noted])
    | checked here =>
      exact balance_same before entered
        (fun c k => count_set_list (RulesList.count_at_check_triggers platform _ _ c k) p) rfl
        (by simp [Ledger.note,here,noted])
    | equal here | differ here | copied here | opened here | closed here | reread here =>
      exact balance_same before rfl (fun _ _ => rfl) rfl (by simp [Ledger.note,here,noted,Ledger.copied])

theorem start_even (main : RulesCollection) (threads : List RulesCollection) (begun : time_point) (p : Proto) :
    ((start main threads begun).prev.list p).rules_ = ((start main threads begun).main.list p).rules_ := by
  cases p <;> rfl

/-- The ledger accounts for every counter. -/
structure Balanced (s : Daemon) (h : Ledger) : Prop where
  threads : InStep Accounted s h
  main : Balance s h

theorem balanced_step (moved : Stepped platform s a s') (balanced : Balanced s h) :
    Balanced s' (Ledger.note platform a s h) where
  threads := inStep_step counting_accounted moved (.inr accounted_copy) balanced.threads
  main := balance_step moved balanced.threads balanced.main

/-! ### Whose packets they are -/

/-- Numbers tell the rules of the list apart, the rules of the threads that have the number
    of a rule are copies of it, and what the rule has been given is what it owns and has
    taken, without what it gave away. -/
structure CreditedAt (s : Daemon) (h : Account) (p : Proto) : Prop where
  named : ∀ k < (s.main.list p).rules_.length, h.rule p k < h.next p
  distinct : ∀ k < (s.main.list p).rules_.length, ∀ k' < (s.main.list p).rules_.length,
    h.rule p k = h.rule p k' → k = k'
  copies : ∀ i k number, h.copy i p k = some number → number < h.next p
  unused : ∀ number, h.next p ≤ number → h.own p number = [] ∧ h.given p number = []
  credit : ∀ k < (s.main.list p).rules_.length, ∀ c,
    tally c (h.own p (h.rule p k)) + tally c (h.taken p k) =
      tally c (h.harvested p k) + tally c (h.given p (h.rule p k))
  faithful : ∀ i thread, s.threads[i]? = some thread → ∀ j, ∀ k < (s.main.list p).rules_.length,
    h.copy i p j = some (h.rule p k) → (thread.list p).entered[j]? = (s.main.list p).entered[k]?

/-- The threads' lists had the rules that they have. -/
def SameThreads (s s' : Daemon) (p : Proto) : Prop := ∀ (i : Nat) (thread : RulesCollection), s'.threads[i]? = some thread →
  ∃ old, s.threads[i]? = some old ∧ (thread.list p).entered = (old.list p).entered

theorem same_threads (moved : Stepped platform s a s') {p : Proto} (kept : ∀ i, ¬ Copies s a i p) : SameThreads s s' p := by
  intro i thread found
  have inside : i < s.threads.length := threads_length moved ▸ (List.getElem?_eq_some_iff.mp found).1
  obtain ⟨after,there,same⟩ := thread_frame moved (List.getElem?_eq_getElem inside)
  obtain rfl := Option.some.inj (there.symm.trans found)
  exact ⟨_,List.getElem?_eq_getElem inside,same p (kept i)⟩

section
variable {h h' : Account} {p : Proto}

/-- What is accounted for one list. -/
private def accounted (h : Account) (p : Proto) :=
  (h.rule p,fun i => h.copy i p,h.next p,h.own p,h.given p,h.taken p,h.harvested p)

private theorem credited_same (before : CreditedAt s h p)
    (entered : (s'.main.list p).entered = (s.main.list p).entered)
    (threads : SameThreads s s' p)
    (same : accounted h' p = accounted h p) : CreditedAt s' h' p := by
  simp only [accounted,Prod.mk.injEq] at same
  obtain ⟨rule,copy,next,own,given,taken,harvested⟩ := same
  have copy_at (i k : Nat) : h'.copy i p k = h.copy i p k := congrFun (congrFun copy i) k
  have size := RulesList.entered_length entered
  refine ⟨?_,?_,?_,?_,?_,?_⟩
  · rw [size,rule,next]
    exact before.named
  · rw [size,rule]
    exact before.distinct
  · intro i k number
    rw [copy_at,next]
    exact before.copies i k number
  · rw [next,own,given]
    exact before.unused
  · rw [size,rule,own,given,taken,harvested]
    exact before.credit
  · intro i thread found j k inside
    obtain ⟨old,there,same⟩ := threads i thread found
    rw [copy_at,rule,same,entered]
    exact before.faithful i old there j k (size ▸ inside)

/-- A write gives new numbers to the rules that come in, and moves what the others have. -/
private theorem credited_written {origin : Nat → Option Nat} (before : CreditedAt s h p)
    (moves : ∀ k i, origin k = some i → (s'.main.list p).rules_[k]? = (s.main.list p).rules_[i]?)
    (apart : ∀ j k i, origin j = some i → origin k = some i → j = k) (threads : s'.threads = s.threads) :
    CreditedAt s' (h.written p origin (s'.main.list p).rules_.length) p := by
  have came {k i : Nat} (from_i : origin k = some i) (inside : k < (s'.main.list p).rules_.length) :
      i < (s.main.list p).rules_.length := by
    have moved := moves k i from_i
    rw [List.getElem?_eq_getElem inside] at moved
    exact (List.getElem?_eq_some_iff.mp moved.symm).1
  have next : (h.written p origin (s'.main.list p).rules_.length).next p =
      h.next p + (s'.main.list p).rules_.length := by simp [Account.written]
  have old_rule {k i : Nat} (from_i : origin k = some i) :
      (h.written p origin (s'.main.list p).rules_.length).rule p k = h.rule p i := by
    simp [Account.written,from_i]
  have new_rule {k : Nat} (from_none : origin k = none) :
      (h.written p origin (s'.main.list p).rules_.length).rule p k = h.next p + k := by
    simp [Account.written,from_none]
  refine ⟨fun k inside => ?_,fun k inside k' inside' same => ?_,fun i k number copied => ?_,fun number past => ?_,
    fun k inside c => ?_,fun i thread found j k inside copied => ?_⟩
  · rw [next]
    cases from_i : origin k with
    | none => rw [new_rule from_i]; omega
    | some i =>
      rw [old_rule from_i]
      exact Nat.lt_add_right _ (before.named i (came from_i inside))
  · cases from_i : origin k with
    | none =>
      cases from_i' : origin k' with
      | none =>
        rw [new_rule from_i,new_rule from_i'] at same
        omega
      | some i' =>
        rw [new_rule from_i,old_rule from_i'] at same
        have given := before.named i' (came from_i' inside')
        omega
    | some i =>
      have given := before.named i (came from_i inside)
      cases from_i' : origin k' with
      | none =>
        rw [old_rule from_i,new_rule from_i'] at same
        omega
      | some i' =>
        rw [old_rule from_i,old_rule from_i'] at same
        obtain rfl := before.distinct i (came from_i inside) i' (came from_i' inside') same
        exact apart k k' i from_i from_i'
  · rw [next]
    exact Nat.lt_add_right _ (before.copies i k number copied)
  · rw [next] at past
    exact before.unused number (by omega)
  · cases from_i : origin k with
    | none =>
      obtain ⟨own,given⟩ := before.unused (h.next p + k) (by omega)
      rw [new_rule from_i]
      simp [Account.written,Ledger.written,from_i,own,given]
    | some i =>
      rw [old_rule from_i]
      simpa [Account.written,Ledger.written,from_i] using before.credit i (came from_i inside) c
  · cases from_i : origin k with
    | none =>
      have number := before.copies i j _ (copied.trans (congrArg some (new_rule from_i)))
      omega
    | some m =>
      have same := before.faithful i thread (threads ▸ found) j m (came from_i inside)
        (copied.trans (congrArg some (old_rule from_i)))
      rw [same,RulesList.entered,RulesList.entered,List.getElem?_map,List.getElem?_map,moves k m from_i]

/-- Nothing changes for the lists beside the one that is written. -/
private theorem credited_set_list {q : Proto} {l : RulesList (Fields q)} {origin : Nat → Option Nat}
    (before : CreditedAt s h p) (main : s'.main = s.main.set_list q l) (threads : s'.threads = s.threads)
    (moves : ∀ k i, origin k = some i → l.rules_[k]? = (s.main.list q).rules_[i]?)
    (apart : ∀ j k i, origin j = some i → origin k = some i → j = k) :
    CreditedAt s' (h.written q origin l.rules_.length) p := by
  by_cases same : p = q
  · subst same
    have list : s'.main.list p = l := by rw [main,RulesCollection.list_set_list]
    rw [← list] at moves ⊢
    exact credited_written before moves apart threads
  · have other : s'.main.list p = s.main.list p := by rw [main,RulesCollection.list_set_list_ne _ _ same]
    exact credited_same before (by rw [other]) (fun _ thread found => ⟨thread,threads ▸ found,rfl⟩)
      (by simp [accounted,Account.written,Ledger.written,Ledger.at_list_ne _ _ same,same])

/-- A copied list has the numbers of main. -/
private theorem credited_copied (before : CreditedAt s h p) {i : Nat} {now : time_point} {thread : RulesCollection}
    (found : s.threads[i]? = some thread) (main : s'.main = s.main)
    (threads : s'.threads = s.threads.set i (thread.assign_list s.main p now))
    (same : accounted h' p = accounted (h.copied i p (s.main.list p).rules_.length) p) : CreditedAt s' h' p := by
  simp only [accounted,Prod.mk.injEq] at same
  obtain ⟨rule,copy,next,own,given,taken,harvested⟩ := same
  have copy_at (j k : Nat) : h'.copy j p k =
      if j = i then if k < (s.main.list p).rules_.length then some (h.rule p k) else none else h.copy j p k := by
    simpa [Account.copied] using congrFun (congrFun copy j) k
  refine ⟨?_,?_,fun j k number => ?_,?_,?_,fun j thread' there k m inside => ?_⟩
  · rw [main,rule,next]
    exact before.named
  · rw [main,rule]
    exact before.distinct
  · rw [copy_at,next]
    split_ifs with here inside
    · intro numbered
      exact Option.some.inj numbered ▸ before.named k inside
    · exact fun none => by cases none
    · exact before.copies j k number
  · rw [next,own,given]
    exact before.unused
  · rw [main,rule,own,given,taken,harvested]
    exact before.credit
  · rw [main] at inside ⊢
    rw [copy_at,rule]
    rw [threads] at there
    by_cases at_i : j = i
    · subst at_i
      rw [List.getElem?_set_self (List.getElem?_eq_some_iff.mp found).1,Option.some.injEq] at there
      subst there
      simp only [↓reduceIte]
      split_ifs with short
      · intro numbered
        obtain rfl := before.distinct k short m inside (Option.some.inj numbered)
        rw [RulesCollection.list_assign_list,RulesList.entered_assign]
      · exact fun none => by cases none
    · rw [List.getElem?_set_ne (Ne.symm at_i)] at there
      rw [if_neg at_i]
      exact before.faithful j thread' there k m inside

/-- Rules of the thread that are entered as main's may have their numbers. -/
private theorem credited_found (before : CreditedAt s h p) {i : Nat} {alike : Nat → Bool} {thread : RulesCollection}
    (found : s.threads[i]? = some thread)
    (same : ∀ k, alike k = true → k < (s.main.list p).rules_.length ∧
      (thread.list p).entered[k]? = (s.main.list p).entered[k]?) : CreditedAt s (h.found i p alike) p := by
  refine ⟨before.named,before.distinct,fun j k number => ?_,before.unused,before.credit,fun j other there k m inside => ?_⟩
  · simp only [Account.found,true_and]
    split_ifs with here
    · intro numbered
      exact Option.some.inj numbered ▸ before.named k (same k here.2).1
    · exact before.copies j k number
  · simp only [Account.found,true_and]
    split_ifs with here
    · intro numbered
      obtain ⟨rfl,chosen⟩ := here
      obtain rfl := Option.some.inj (found.symm.trans there)
      obtain rfl := before.distinct k (same k chosen).1 m inside (Option.some.inj numbered)
      exact (same k chosen).2
    · exact before.faithful j other there k m inside

private theorem sums_exchange {a b c d x y z w : UInt64} (first : a + b = c + d) (second : x + y = z + w) :
    a + x + (b + y) = c + w + (d + z) := by
  calc a + x + (b + y) = (a + b) + (x + y) := by ac_rfl
    _ = (c + d) + (z + w) := by rw [first,second]
    _ = c + w + (d + z) := by ac_rfl

/-- A merge credits each rule with what its copy has counted, wherever it is added. -/
private theorem credited_merged (before : CreditedAt s h p) (i : Nat)
    (entered : (s'.main.list p).entered = (s.main.list p).entered)
    (threads : SameThreads s s' p) :
    CreditedAt s' (h.merged i p (s.main.list p).rules_.length) p := by
  have size := RulesList.entered_length entered
  refine ⟨?_,?_,before.copies,fun number past => ?_,fun k inside c => ?_,fun j thread found m k inside => ?_⟩
  · rw [size]
    exact before.named
  · rw [size]
    exact before.distinct
  · obtain ⟨own,given⟩ := before.unused number past
    have none_there (k : Nat) : h.copy i p k ≠ some number := fun copied =>
      absurd (before.copies i k number copied) (not_lt.mpr past)
    simp [Account.merged,Account.gathered,own,given,none_there]
  · rw [size] at inside
    have gathered := Account.tally_gathered c (h.pending i p) (fun j => h.copy i p j = some (h.rule p k))
      (fun j => h.copy i p j = some (h.rule p k) ∧ h.rule p j ≠ h.rule p k)
      List.nodup_range (List.mem_range.mpr inside) (fun j member other => ?_) (by simp)
    · have old := before.credit k inside c
      simp only [Account.merged,Account.gathered,Ledger.merged,Ledger.copied,Ledger.at_list_same,tally_append]
      simp only [decide_eq_true_eq] at gathered
      exact sums_exchange old gathered
    · have apart : h.rule p j ≠ h.rule p k := fun same =>
        other (before.distinct j (List.mem_range.mp member) k inside same)
      simp [apart]
  · obtain ⟨old,there,same⟩ := threads j thread found
    rw [same,entered]
    exact before.faithful j old there m k (size ▸ inside)

private theorem credited_saved (before : CreditedAt s h p) (main : s'.main = s.main) (threads : s'.threads = s.threads) :
    CreditedAt s' (h.saved p) p := by
  refine ⟨main ▸ before.named,main ▸ before.distinct,before.copies,fun number past => ?_,fun k inside c => ?_,
    fun i thread found j k inside => ?_⟩
  · simp [Account.saved]
  · simp [Account.saved,Ledger.saved]
  · rw [main] at inside ⊢
    exact before.faithful i thread (threads ▸ found) j k inside

end

theorem credited_start (main : RulesCollection) (threads : List RulesCollection) (begun : time_point) (p : Proto) :
    CreditedAt (start main threads begun) (Account.start main threads) p where
  named _ inside := inside
  distinct _ _ _ _ same := same
  copies _ _ _ none := by cases none
  unused _ _ := ⟨rfl,rfl⟩
  credit _ _ _ := rfl
  faithful _ _ _ _ _ _ none := by cases none

/-- Each step keeps the account right. -/
theorem credited_step {h : Account} (moved : Stepped platform s a s') (credited : ∀ p, CreditedAt s h p) (p : Proto) :
    CreditedAt s' (Account.note platform a s h) p := by
  have before := credited p
  have threads : (∀ i, ¬ Copies s a i p) → SameThreads s s' p := same_threads moved
  cases moved with
  | packet thread =>
    exact credited_same before rfl (threads fun _ => id)
      (by simp [accounted,Account.note,Ledger.note,thread,Ledger.received])
  | @console q e =>
    have threads := threads fun _ => id
    cases applied : e.apply platform (s.main.list q) with
    | error error =>
      have kept : s.main.console platform q e = s.main := by simp [RulesCollection.console,applied]
      exact credited_same before (by simp [kept]) threads (by simp [accounted,Account.note,Ledger.note,applied])
    | ok l =>
      have edited : s.main.console platform q e = s.main.set_list q l := by simp [RulesCollection.console,applied]
      have noted : Account.note platform (.console q e) s h =
          h.written q (e.origin (s.main.list q).rules_.length) l.rules_.length := by simp only [Account.note,applied]
      rw [noted]
      exact credited_set_list before edited rfl (Edit.apply_spec applied).2.2.2 fun _ _ _ => Edit.origin_injective
  | missing | reload idle => exact credited_same before rfl (threads fun _ => id) rfl
  | @load now s' loaded =>
    have threads := threads fun _ => id
    cases loaded with
    | @assigned q buff here =>
      have noted : Account.note platform (.load now) s h =
          h.written q (fun _ => none) ((s.main.list q).assign (buff.list q)).rules_.length := by
        simp only [Account.note,here]
        rfl
      rw [noted]
      exact credited_set_list before rfl rfl (fun _ _ none => by cases none) fun _ _ _ none => by cases none
    | changed here => exact credited_same before (by simp) threads (by simp [accounted,Account.note,Ledger.note,here])
    | copied here | filled here | failed here =>
      exact credited_same before rfl threads (by simp [accounted,Account.note,Ledger.note,here])
  | @watch now clock s' watched =>
    have entered : (s'.main.list p).entered = (s.main.list p).entered := main_frame (.watch watched) id
    cases watched with
    | @copied i q thread here found =>
      by_cases same : p = q
      · subst same
        exact credited_copied before found rfl rfl (by simp [accounted,Account.note,here,Ledger.note,Account.copied,Ledger.copied])
      · refine credited_same before rfl (threads fun j at_p => ?_)
          (by simp [accounted,Account.note,here,Ledger.note,Account.copied,Ledger.copied,same])
        exact same (Pc.copy.inj (at_p.symm.trans here)).2
    | @merged i q thread l l' here found sum =>
      have kept : SameThreads s _ p := threads fun j at_p => by cases at_p.symm.trans here
      rw [Account.note_merged here found sum]
      by_cases same : p = q
      · subst same
        exact credited_merged (credited_found before found fun k => RulesList.entered_of_alike_at) i entered kept
      · exact credited_same before entered kept
          (by simp [accounted,Account.merged,Account.found,Ledger.merged,Ledger.copied,Ledger.at_list_ne _ _ same,same])
    | @failed i q thread error here found thrown =>
      have kept : SameThreads s _ p := threads fun j at_p => by cases at_p.symm.trans here
      exact credited_same before rfl kept
        (by simp [accounted,Account.note,here,found,RulesList.sizes_of_merge_error thrown,Ledger.note])
    | @saved q here =>
      by_cases same : p = q
      · subst same
        have noted : Account.note platform (.watch now clock) s h = h.saved p := by simp [Account.note,here]
        rw [noted]
        exact credited_saved before rfl rfl
      · exact credited_same before rfl (threads fun j at_p => by cases at_p.symm.trans here)
          (by simp [accounted,Account.note,here,Account.saved,Ledger.saved,Ledger.at_list_ne _ _ same])
    | @equal i q thread here found _ | @differ i q thread here found _ =>
      have kept : SameThreads s _ p := threads fun j at_p => by cases at_p.symm.trans here
      by_cases same : p = q
      · subst same
        have alike := credited_found before found fun k => RulesList.entered_of_alike_at
        exact credited_same alike rfl kept (by simp [accounted,Account.note,here,found,Ledger.note,Account.found])
      · exact credited_same before rfl kept (by simp [accounted,Account.note,here,found,Ledger.note,Account.found,same])
    | stamped here | rated here | opened here | closed here | reread here | checked here =>
      exact credited_same before entered (threads fun j at_p => by cases at_p.symm.trans here)
        (by simp [accounted,Account.note,here,Ledger.note])

/-- The account is right: its ledger accounts for every counter, and it credits every
    packet to its rule. -/
structure Right (s : Daemon) (h : Account) : Prop where
  balanced : Balanced s h.toLedger
  credited : ∀ p, CreditedAt s h p

theorem right_step {h : Account} (moved : Stepped platform s a s') (right : Right s h) :
    Right s' (Account.note platform a s h) where
  balanced := by
    rw [Account.toLedger_note]
    exact balanced_step moved right.balanced
  credited := credited_step moved right.credited

/-! ### The rates -/

/-- In the list that is about to be rated, the position holds the rule that it held in the
    snapshot, and each counter has grown by what copies of the rule have counted of what has
    been harvested since. -/
def OwnTraffic (s : Daemon) (h : Account) (p : Proto) (k : Nat) : Prop :=
  h.saved_at p k = some k ∧
    ∀ c, (s.main.list p).count_at c k - (s.prev.list p).count_at c k = tally c (h.own p (h.rule p k))

/-- No edit or reload has moved or replaced the rule since the snapshot; and what merges
    have since added to it besides its own packets, counts that main had lent or packets of
    other rules, are as many as its own that they have added to other rules. -/
def Settled (h : Account) (p : Proto) (k : Nat) : Prop :=
  h.saved_at p k = some k ∧ ∀ c, h.returned p k c + tally c (h.taken p k) = tally c (h.given p (h.rule p k))

/-- The labels of a full iteration of the sample daemon that does not check triggers, and
    of the part of one before `calc_delta`. -/
def until_delta : List Label := List.replicate 9 (tick 1)
def iteration : List Label := List.replicate 17 (tick 1)

theorem sample_run {labels : List Label} {sh : Daemon × Account}
    (reached : Runs.runFrom (Runs.recorded (step documented) (Account.note documented))
      (sample_daemon,Account.start sample_daemon.main sample_daemon.threads) labels = some sh) :
    Runs.Run (Runs.recorded (step documented) (Account.note documented)) (fun _ _ => True)
      (sample_daemon,Account.start sample_daemon.main sample_daemon.threads) labels sh :=
  .of_runFrom_free (fun _ _ _ => trivial) reached

end Daemon
end DdosDetector
