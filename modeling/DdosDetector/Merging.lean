import DdosDetector.Provenance

/-!
What the watcher merges. Between the comparison of a thread's list with main's, or
the copy, and the merge of the two lists, any number of steps of others may fall. As
long as none of them gives main's list other rules, the lists still compare equal when
they are merged.
-/
namespace DdosDetector
namespace Daemon
variable {platform : Platform} {a : Label} {s s' : Daemon}

/-- The list of thread `j` has been compared with main's, or copied from it, and is
    still to be merged. -/
def Held : Pc → Nat → Proto → Prop
  | .compare i p, j, q => j = i ∧ q.index < p.index
  | .copy i p, j, q => j = i ∧ q.index < p.index
  | .stamp i p, j, q => j = i ∧ p.index ≤ q.index
  | .merge i p, j, q => j = i ∧ p.index ≤ q.index
  | _, _, _ => False

/-- The step gives main no other rules in a list that is held: the console edits no
    such list, and a reload assigns rules that equal the thread's. -/
def Undisturbed (platform : Platform) (s : Daemon) : Label → Prop
  | .console p e => ∀ j, Held s.pc j p → ∃ error, e.apply platform (s.main.list p) = .error error
  | .load _ => ∀ p buff, s.loader = .assigning p buff → ∀ j, Held s.pc j p →
      ∀ c, s.threads[j]? = some c → (c.list p).eq (buff.list p) = true
  | _ => True

/-- The lists that are held compare equal to main's. -/
def HeldEqual (s : Daemon) : Prop :=
  ∀ j q, Held s.pc j q → ∃ c, s.threads[j]? = some c ∧ (c.list q).eq (s.main.list q) = true

theorem held_compared {i j : Nat} {p q : Proto} (held : Held (compared i p) j q) :
    j = i ∧ (q.index < p.index ∨ q = p) := by
  cases p <;> cases q <;> simp_all [compared,Proto.next,Held,Proto.index]

theorem held_copied {i j : Nat} {p q : Proto} (held : Held (copied i p) j q) :
    j = i ∧ (q.index < p.index ∨ q = p) := by
  cases p <;> cases q <;> simp_all [copied,Proto.next,Held,Proto.index]

theorem not_held_visit (s : Daemon) (i j : Nat) (q : Proto) : ¬ Held (s.visit i) j q := by
  unfold visit
  split_ifs <;> simp [Held,Proto.index]

theorem held_merged {i j : Nat} {p q : Proto} (held : Held (s.merged i p) j q) : j = i ∧ p.index ≤ q.index := by
  unfold merged at held
  cases next : p.next with
  | none =>
    simp only [next] at held
    exact absurd held (not_held_visit s _ j q)
  | some p' =>
    simp only [next,Held] at held
    have := Proto.next_some next
    omega

/-- A list that is held after a step was held before it, has just been compared or
    has just been copied. -/
theorem held_before (moved : Stepped platform s a s') {j : Nat} {q : Proto} (held : Held s'.pc j q) :
    Held s.pc j q ∨
      (s.pc = .compare j q ∧ ¬ Writes platform s a q ∧
        ∃ c, s.threads[j]? = some c ∧ (c.list q).eq (s.main.list q) = true) ∨
      (Copies s a j q ∧ ¬ Writes platform s a q ∧ ∃ c, s.threads[j]? = some c) := by
  cases moved with
  | load loaded => cases loaded <;> exact .inl held
  | watch watched =>
    cases watched with
    | equal here thread same =>
      obtain ⟨rfl,before | rfl⟩ := held_compared held
      · exact .inl (by simp [here,Held,before])
      · exact .inr (.inl ⟨here,id,_,thread,same⟩)
    | differ here thread different => simp [Held,Proto.index] at held
    | copied here thread =>
      obtain ⟨rfl,before | rfl⟩ := held_copied held
      · exact .inl (by simp [here,Held,before])
      · exact .inr (.inr ⟨here,id,_,thread⟩)
    | stamped here => exact .inl (by simpa [here,Held] using held)
    | merged here thread sum => exact .inl (by simpa [here,Held] using held_merged held)
    | failed here thread thrown => exact held.elim
    | @rated p here => cases p <;> exact held.elim
    | @saved p here => cases p <;> exact held.elim
    | opened here same => exact held.elim
    | closed here changed => exact held.elim
    | reread here => exact absurd held (not_held_visit s 0 j q)
    | @checked p jobs events here =>
      cases p with
      | TCP => exact held.elim
      | UDP => exact held.elim
      | ICMP => exact absurd held (not_held_visit s 0 j q)
  | _ => exact .inl held

/-- A list of main that is written gets the rules of the buffer, unless it is edited. -/
theorem written {q : Proto} (moved : Stepped platform s a s') (writes : Writes platform s a q) :
    (∃ e : Edit (Fields q), a = .console q e ∧ ∃ l, e.apply platform (s.main.list q) = .ok l) ∨
      ∃ now buff, a = .load now ∧ s.loader = .assigning q buff ∧ (s'.main.list q).entered = (buff.list q).entered := by
  cases moved with
  | console =>
    obtain ⟨rfl,edited⟩ := writes
    exact .inl ⟨_,rfl,edited⟩
  | load loaded =>
    obtain ⟨buff,at_q⟩ := writes
    cases loaded with
    | assigned here =>
      obtain ⟨rfl,rfl⟩ := Loader.assigning.inj (here.symm.trans at_q)
      exact .inr ⟨_,_,rfl,at_q,by simp⟩
    | copied here | filled here | failed here | changed here => cases here.symm.trans at_q
  | _ => exact writes.elim

/-- One undisturbed step keeps the lists that are held equal to main's. -/
theorem heldEqual_step (moved : Stepped platform s a s') (quiet : Undisturbed platform s a) (equal : HeldEqual s) :
    HeldEqual s' := by
  intro j q held
  rcases held_before moved held with before | ⟨here,unwritten,c,found,same⟩ | ⟨copies,unwritten,c,found⟩
  · obtain ⟨c,found,same⟩ := equal j q before
    obtain ⟨c',found',kept⟩ := thread_frame moved found
    have not_copied : ¬ Copies s a j q := not_copies fun copying => by simp [copying,Held] at before
    refine ⟨c',found',?_⟩
    by_cases writes : Writes platform s a q
    · rcases written moved writes with ⟨e,rfl,l,edited⟩ | ⟨now,buff,rfl,at_q,assigned⟩
      · obtain ⟨error,failed⟩ := quiet j before
        rw [edited] at failed
        cases failed
      · rw [RulesList.eq_congr (kept q not_copied) assigned]
        exact quiet q buff at_q j before c found
    · rw [RulesList.eq_congr (kept q not_copied) (main_frame moved writes)]
      exact same
  · obtain ⟨c',found',kept⟩ := thread_frame moved found
    refine ⟨c',found',?_⟩
    rw [RulesList.eq_congr (kept q (not_copies (by simp [here]))) (main_frame moved unwritten)]
    exact same
  · obtain ⟨c',found',_⟩ := thread_frame moved found
    refine ⟨c',found',RulesList.eq_of_entered ?_⟩
    rw [thread_copied moved copies found',main_frame moved unwritten]

/-- Lists that compare equal hold the same rules where comparing tells their rules
    apart. -/
theorem entered_of_eq {F H : Type} [ProtoRule F H] {E : Rule F → Prop} {l m : RulesList F} (same : l.eq m = true)
    (left : ∀ r ∈ l.rules_, E r.entered) (right : ∀ r ∈ m.rules_, E r.entered)
    (told : ∀ r r', E r → E r' → ProtoRule.eq r r' = true → r = r') : l.entered = m.entered := by
  obtain ⟨size,equal⟩ := RulesList.eq_iff_getElem?.mp same
  refine List.ext_getElem (by simpa [RulesList.entered] using size) ?_
  intro k inside inside'
  have here : k < l.rules_.length := by simpa [RulesList.entered] using inside
  have there : k < m.rules_.length := size ▸ here
  simp only [RulesList.entered,List.getElem_map]
  refine told _ _ (left _ (List.getElem_mem here)) (right _ (List.getElem_mem there)) ?_
  rw [ProtoRule.eq_entered]
  exact equal k _ _ (List.getElem?_eq_getElem here) (List.getElem?_eq_getElem there)

/-- The watcher runs and holds what it can merge. -/
structure Merges (E : (p : Proto) → Rule (Fields p) → Prop) (s : Daemon) : Prop where
  alive : s.pc ≠ .terminated
  equal : HeldEqual s
  made : MadeOf E s

theorem merges_step {E : (p : Proto) → Rule (Fields p) → Prop} (moved : Stepped platform s a s')
    (quiet : Undisturbed platform s a) (enters : Enters E platform s a) (merges : Merges E s) : Merges E s' := by
  obtain ⟨alive,equal,made⟩ := merges
  refine ⟨running_step moved alive fun i p c here thread => ?_,heldEqual_step moved quiet equal,
    madeOf_step moved enters made⟩
  obtain ⟨c',found,same⟩ := equal i p (by simp [here,Held])
  obtain rfl := Option.some.inj (thread.symm.trans found)
  exact (RulesList.length_of_eq same).symm

/-- In every run that does not disturb the lists that are held, the watcher never
    dies of a merge, and whatever it merges compares equal: each counter of the
    thread is added to the counter at the same position of main. Where the rules
    that are ever entered differ under `operator==` if they differ at all, both
    lists hold the very same rules. -/
theorem merges_same_rules (platform : Platform) (E : (p : Proto) → Rule (Fields p) → Prop) {init s : Daemon}
    {labels : List Label} (start : init.pc = init.visit 0) (made : MadeOf E init)
    (run : Runs.Run (step platform) (fun s a => Undisturbed platform s a ∧ Enters E platform s a) init labels s) :
    s.pc ≠ .terminated ∧ ∀ i p, s.pc = .merge i p → ∃ c l l', s.threads[i]? = some c ∧
      (s.main.list p).merge (c.list p) = .ok (l,l') ∧ (c.list p).eq (s.main.list p) = true ∧
      (∀ counter k, l.count_at counter k = (s.main.list p).count_at counter k + (c.list p).count_at counter k) ∧
      ((∀ q r r', E q r → E q r' → ProtoRule.eq r r' = true → r = r') →
        (c.list p).entered = (s.main.list p).entered) := by
  have first : Merges E init :=
    ⟨start ▸ visit_running init 0,fun j q held => absurd (start ▸ held) (not_held_visit init 0 j q),made⟩
  obtain ⟨alive,equal,made⟩ : Merges E s :=
    run.invariant first fun s a s' merges allowed taken => merges_step (stepped taken) allowed.1 allowed.2 merges
  refine ⟨alive,?_⟩
  intro i p here
  obtain ⟨c,found,same⟩ := equal i p (by simp [here,Held])
  obtain ⟨⟨l,l'⟩,merged⟩ := (RulesList.merge_ok_iff _ _).mpr (RulesList.length_of_eq same).symm
  refine ⟨c,l,l',found,merged,same,fun counter k => (RulesList.count_at_merge merged counter k).1,fun told => ?_⟩
  exact entered_of_eq same (made.threads i c found p) (made.main p) (told p)

/-- An edit between the comparison of a list and its merge: the merge throws, and
    nothing catches it. -/
theorem merge_throws : ∃ labels s,
    Runs.Run (step documented) (fun _ _ => True) sample_daemon labels s ∧ s.pc = .terminated := by
  have reached : (Runs.runFrom (step documented) sample_daemon [tick 1,
      .console .TCP (.add_rule (TcpRule.new sample_words)),tick 1,tick 1,tick 1,tick 1]).map Daemon.pc =
        some .terminated := rfl
  obtain ⟨s,run,ended⟩ := Option.map_eq_some_iff.mp reached
  exact ⟨_,s,.of_runFrom_free (fun _ _ _ => trivial) run,ended⟩

theorem sample_madeOf : MadeOf (fun _ _ => True) sample_daemon where
  main _ _ _ := trivial
  threads _ _ _ _ _ _ := trivial
  buff _ _ _ _ _ _ := trivial

/-- The first merge of a run without edits. -/
theorem merges_same_rules_first : ∃ s : Daemon, s.pc = .merge 0 .TCP ∧ ∃ c l l', s.threads[0]? = some c ∧
    (s.main.list .TCP).merge (c.list .TCP) = .ok (l,l') ∧ (c.list .TCP).eq (s.main.list .TCP) = true := by
  have reached : (Runs.runFrom (step documented) sample_daemon [tick 1,tick 1,tick 1,tick 1]).map Daemon.pc =
      some (.merge 0 .TCP) := rfl
  obtain ⟨s,run,here⟩ := Option.map_eq_some_iff.mp reached
  have allowed : ∀ a ∈ [tick 1,tick 1,tick 1,tick 1], ∀ s,
      Undisturbed documented s a ∧ Enters (fun _ _ => True) documented s a := by
    intro a member s
    obtain rfl : a = tick 1 := by simpa using member
    exact ⟨trivial,trivial⟩
  have guarded := Runs.Run.of_runFrom_free allowed run
  obtain ⟨_,merges⟩ := merges_same_rules documented (fun _ _ => True) rfl sample_madeOf guarded
  obtain ⟨c,l,l',found,merged,same,_⟩ := merges 0 .TCP here
  exact ⟨s,here,c,l,l',found,merged,same⟩

end Daemon
end DdosDetector
