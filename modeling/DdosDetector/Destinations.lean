import DdosDetector.Rates
import DdosDetector.Sharding

/-!
The destinations behind an alarm. Without edits and reloads the destinations of every
rule, of a thread and of main, count the packets in the ledger; what main has harvested
since the snapshot it has harvested since the last check; and so a rule whose counters
have grown knows the address that received most.
-/
namespace DdosDetector
namespace Daemon
variable {platform : Platform} {a : Label} {s s' : Daemon} {h : Ledger}

/-! ### Destinations of the threads -/

/-- The destinations of the rule are those of the packets. -/
def Addressed (r : BaseRule) (_lent : Counter → UInt64) (seen : Seen) : Prop :=
  Tally.Counts r.dst_top.map_ seen.destinations

theorem counting_addressed : Counting Addressed where
  counted r lent seen d_addr len addressed := by
    have counts := Tally.counts_increase addressed d_addr
    rw [Addressed,Seen.destinations,List.map_append]
    exact counts
  drained _ _ := Tally.counts_empty

/-! ### Destinations of main -/

/-- The destinations of the list's rules are those of the packets harvested since they
    were last cleared. -/
def TopAt (s : Daemon) (h : Ledger) (p : Proto) : Prop :=
  ∀ (k : Nat) (r : Rule (Fields p)), (s.main.list p).rules_[k]? = some r → Tally.Counts r.dst_top.map_ (h.top p k).destinations

def Topped (s : Daemon) (h : Ledger) : Prop := ∀ p, TopAt s h p

section
variable {h' : Ledger} {p : Proto}

private theorem top_same (before : TopAt s h p) (main : s'.main.list p = s.main.list p) (top : h'.top p = h.top p) :
    TopAt s' h' p := by
  intro k r found
  rw [top]
  exact before k r (main ▸ found)

private theorem top_merged (in_step : InStep Addressed s h) (before : TopAt s h p) {i : Nat} {thread : RulesCollection}
    (found : s.threads[i]? = some thread) {l l' : RulesList (Fields p)}
    (sum : (s.main.list p).merge (thread.list p) = .ok (l,l')) (main : s'.main.list p = l) :
    TopAt s' (h.merged i p) p := by
  intro k r here
  rw [main] at here
  rcases RulesList.rules_merge sum k with ⟨_,_,none,_⟩ | ⟨r₁,r₂,left,right,both,_⟩
  · cases none.symm.trans here
  · obtain rfl := Option.some.inj (both.symm.trans here)
    have counts := Tally.counts_merge (before k r₁ left) (in_step i thread found p k r₂ right)
    simpa [Ledger.merged,Seen.destinations,Rule.add,CountersList.add] using counts

end

theorem topped_step (moved : Stepped platform s a s') (receives : Receives a) (in_step : InStep Addressed s h)
    (topped : Topped s h) : Topped s' (Ledger.note platform a s h) := by
  intro p
  have before := topped p
  cases moved with
  | packet thread => exact top_same before rfl (by simp [Ledger.note,thread,Ledger.received])
  | @watch now clock s' watched =>
    cases watched with
    | @stamped i q here =>
      have kept : (Ledger.note platform (.watch now clock) s h).top = h.top := by simp [Ledger.note,here]
      by_cases same : p = q
      · subst same
        intro k r found
        rw [RulesCollection.list_set_list,RulesList.rules_touch] at found
        exact kept ▸ before k r found
      · exact top_same before (RulesCollection.list_set_list_ne _ _ same) (by rw [kept])
    | @merged i q thread l l' here found sum =>
      rw [Ledger.note_merged here found sum]
      by_cases same : p = q
      · subst same
        exact top_merged in_step before found sum (by simp)
      · exact top_same before (RulesCollection.list_set_list_ne _ _ same) (Ledger.at_list_ne _ _ same)
    | @failed i q thread error here found thrown =>
      rw [Ledger.note_failed here found thrown]
      exact top_same before rfl rfl
    | @rated q here =>
      have kept : (Ledger.note platform (.watch now clock) s h).top = h.top := by simp [Ledger.note,here]
      by_cases same : p = q
      · subst same
        intro k r found
        rw [RulesCollection.list_set_list] at found
        rw [kept]
        rcases RulesList.rules_calc_delta platform (s.main.list p) (s.prev.list p) k with untouched | ⟨r',old,left,_,rated⟩
        · exact before k r (untouched ▸ found)
        · obtain rfl := Option.some.inj (rated.symm.trans found)
          exact before k r' left
      · exact top_same before (RulesCollection.list_set_list_ne _ _ same) (by rw [kept])
    | @checked q jobs events here =>
      simp only [Ledger.note,here]
      by_cases same : p = q
      · subst same
        intro k r found
        rw [RulesCollection.list_set_list,RulesList.rules_check_triggers,Option.map_eq_some_iff] at found
        obtain ⟨r',_,rfl⟩ := found
        simp only [(RulesList.check_trigger_frame platform r' (clock k)).2.2.1,Ledger.at_list_same]
        exact Tally.counts_empty
      · exact top_same before (RulesCollection.list_set_list_ne _ _ same) (Ledger.at_list_ne _ _ same)
    | equal here | differ here | copied here | saved here | opened here | closed here | reread here =>
      exact top_same before rfl (by simp [Ledger.note,here,Ledger.copied,Ledger.saved])
  | console => exact receives.elim
  | missing => exact receives.elim
  | reload idle => exact receives.elim
  | load loaded => exact receives.elim

/-! ### What main lends -/

/-- Nothing has been lent or returned, and no rule has moved. -/
structure Unlent (h : Ledger) : Prop where
  lent : ∀ i p k c, h.lent i p k c = 0
  returned : ∀ p k c, h.returned p k c = 0
  in_place : ∀ p k, h.saved_at p k = some k

private theorem unlent_merged (unlent : Unlent h) (i : Nat) (p : Proto) : Unlent (h.merged i p) where
  lent j q k c := by
    simp only [Ledger.merged,Ledger.copied]
    split_ifs
    · rfl
    · exact unlent.lent j q k c
  returned q k c := by
    simp only [Ledger.merged,Ledger.at_list]
    split_ifs
    · simp [unlent.returned p k c,unlent.lent i p k c]
    · exact unlent.returned q k c
  in_place := unlent.in_place

private theorem unlent_saved (unlent : Unlent h) (p : Proto) : Unlent (h.saved p) where
  lent := unlent.lent
  returned q k c := by
    simp only [Ledger.saved,Ledger.at_list]
    split_ifs
    · rfl
    · exact unlent.returned q k c
  in_place q k := by
    simp only [Ledger.saved,Ledger.at_list]
    split_ifs
    · rfl
    · exact unlent.in_place q k

theorem unlent_note (receives : Receives a) (elsewhere : ∀ i p, s.pc ≠ .copy i p) (unlent : Unlent h) :
    Unlent (Ledger.note platform a s h) := by
  cases a with
  | packet i p packet =>
    simp only [Ledger.note]
    split
    · exact ⟨unlent.lent,unlent.returned,unlent.in_place⟩
    · exact unlent
  | watch now clock =>
    cases here : s.pc with
    | copy i p => exact absurd here (elsewhere i p)
    | merge i p =>
      simp only [Ledger.note,here]
      split
      · split_ifs
        · exact unlent_merged unlent i p
        · exact unlent
      · exact unlent
    | snapshot p => simpa only [Ledger.note,here] using unlent_saved unlent p
    | _ => simpa only [Ledger.note,here] using ⟨unlent.lent,unlent.returned,unlent.in_place⟩
  | console p e => exact receives.elim
  | reload file now => exact receives.elim
  | load now => exact receives.elim

/-! ### Growth between two checks -/

/-- What is harvested is still among the destinations, and a list that has grown by the
    last rating has some. -/
structure Growth (s : Daemon) (h : Ledger) : Prop where
  fresh : ∀ p k, Saved s.pc p → h.harvested p k = []
  seen : ∀ p k, h.harvested p k ≠ [] → h.top p k ≠ []
  known : ∀ p k c, Rated s.pc p → k < (s.main.list p).rules_.length → h.deltas p k c ≠ 0 → h.top p k ≠ []

section
variable {h' : Ledger}

private theorem growth_same (growth : Growth s h) (harvested : h'.harvested = h.harvested) (top : h'.top = h.top)
    (deltas : h'.deltas = h.deltas)
    (sizes : ∀ p, (s'.main.list p).rules_.length = (s.main.list p).rules_.length)
    (saved : ∀ p, Saved s'.pc p → Saved s.pc p) (rated : ∀ p, Rated s'.pc p → Rated s.pc p) : Growth s' h' := by
  refine ⟨fun p k later => ?_,fun p k => ?_,fun p k c later inside => ?_⟩
  · rw [harvested]
    exact growth.fresh p k (saved p later)
  · rw [harvested,top]
    exact growth.seen p k
  · rw [deltas,top]
    exact growth.known p k c (rated p later) (sizes p ▸ inside)

/-- Where the iteration has not yet come to the lists' rates, only the harvest matters. -/
private theorem growth_early (seen : ∀ p k, h'.harvested p k ≠ [] → h'.top p k ≠ []) (unsaved : ∀ p, ¬ Saved s'.pc p)
    (unrated : ∀ p, ¬ Rated s'.pc p) : Growth s' h' :=
  ⟨fun p _ later => absurd later (unsaved p),seen,fun p _ _ later => absurd later (unrated p)⟩

private theorem seen_merged (growth : Growth s h) (i : Nat) (p q : Proto) (k : Nat)
    (some_harvest : (h.merged i p).harvested q k ≠ []) : (h.merged i p).top q k ≠ [] := by
  simp only [Ledger.merged,Ledger.at_list] at some_harvest ⊢
  split_ifs at some_harvest ⊢ with same
  · rw [Ne,List.append_eq_nil_iff,not_and_or] at some_harvest ⊢
    exact some_harvest.imp_left (growth.seen p k)
  · exact growth.seen q k some_harvest

private theorem deltas_rated (balance : Balance s h) (unlent : Unlent h) (growth : Growth s h) {p : Proto} {k : Nat}
    (inside : k < (s.main.list p).rules_.length) {c : Counter}
    (grown : (s.main.list p).count_at c k - (s.prev.list p).count_at c k ≠ 0) : h.top p k ≠ [] := by
  refine growth.seen p k fun none => grown ?_
  rw [(balance p k k inside (unlent.in_place p k)).2 c,unlent.returned,none]
  simp

end

theorem growth_step (moved : Stepped platform s a s') (receives : Receives a) (balance : Balance s h)
    (unlent : Unlent h) (growth : Growth s h) : Growth s' (Ledger.note platform a s h) := by
  have sizes : ∀ p, (s'.main.list p).rules_.length = (s.main.list p).rules_.length :=
    fun p => RulesList.entered_length (main_frame moved (receives_unwritten receives p))
  cases moved with
  | packet thread =>
    exact growth_same growth (by simp [Ledger.note,thread,Ledger.received]) (by simp [Ledger.note,thread,Ledger.received])
      (by simp [Ledger.note,thread,Ledger.received]) sizes (fun _ => id) fun _ => id
  | @watch now clock s' watched =>
    cases watched with
    | @equal i p c here thread same =>
      refine growth_early (by simpa [Ledger.note,here] using growth.seen) (fun q => ?_) fun q => ?_
      all_goals cases p <;> exact id
    | @differ i p c here thread different =>
      exact growth_early (by simpa [Ledger.note,here] using growth.seen) (fun q => id) fun q => id
    | @copied i p c here thread =>
      refine growth_early (by simpa [Ledger.note,here,Ledger.copied] using growth.seen) (fun q => ?_) fun q => ?_
      all_goals cases p <;> exact id
    | stamped here => exact growth_early (by simpa [Ledger.note,here] using growth.seen) (fun q => id) fun q => id
    | @merged i p thread l l' here found sum =>
      rw [Ledger.note_merged here found sum]
      refine growth_early (seen_merged growth i p) (fun q => ?_) fun q => ?_
      · cases p with
        | TCP => exact id
        | UDP => exact id
        | ICMP => exact not_saved_visit s (i + 1) q
      · cases p with
        | TCP => exact id
        | UDP => exact id
        | ICMP => exact not_rated_visit s (i + 1) q
    | @failed i p thread error here found thrown =>
      rw [Ledger.note_failed here found thrown]
      exact growth_early growth.seen (fun q => id) fun q => id
    | @rated p here =>
      refine ⟨fun q k later => ?_,by simpa [Ledger.note,here] using growth.seen,fun q k c later inside grown => ?_⟩
      · cases p <;> cases q <;> simp [rated,Proto.next,Saved,Proto.index] at later
      · simp only [Ledger.note,here,Ledger.at_list] at grown ⊢
        split_ifs at grown with same
        · subst same
          exact deltas_rated balance unlent growth (sizes q ▸ inside) grown
        · rcases rated_rated later with before | at_p
          · exact growth.known q k c (here ▸ before) (sizes q ▸ inside) grown
          · exact absurd at_p same
    | @saved p here =>
      simp only [Ledger.note,here]
      refine ⟨fun q k later => ?_,fun q k => ?_,fun q k c later inside => ?_⟩
      · simp only [Ledger.saved,Ledger.at_list]
        split_ifs with same
        · rfl
        · exact growth.fresh q k (here ▸ (saved_saved later).resolve_right same)
      · simp only [Ledger.saved,Ledger.at_list]
        split_ifs with same
        · simp
        · exact growth.seen q k
      · exact growth.known q k c (by simp [here,Rated]) (sizes q ▸ inside)
    | opened here same =>
      exact growth_same growth (by simp [Ledger.note,here]) (by simp [Ledger.note,here]) (by simp [Ledger.note,here])
        sizes (fun q _ => by simp [here,Saved]) fun q _ => by simp [here,Rated]
    | closed here changed =>
      exact growth_same growth (by simp [Ledger.note,here]) (by simp [Ledger.note,here]) (by simp [Ledger.note,here])
        sizes (fun q _ => by simp [here,Saved]) fun q => False.elim
    | reread here =>
      exact growth_early (by simpa [Ledger.note,here] using growth.seen) (not_saved_visit s 0) (not_rated_visit s 0)
    | @checked p jobs events here =>
      simp only [Ledger.note,here]
      refine ⟨fun q k later => growth.fresh q k (by simp [here,Saved]),fun q k some_harvest => ?_,
        fun q k c later inside grown => ?_⟩
      · have fresh := growth.fresh q k (by simp [here,Saved])
        exact absurd fresh some_harvest
      · obtain ⟨before,other⟩ := rated_checked later
        simpa only [Ledger.at_list_ne _ _ other] using growth.known q k c (here ▸ before) (sizes q ▸ inside) grown
  | console => exact receives.elim
  | missing => exact receives.elim
  | reload idle => exact receives.elim
  | load loaded => exact receives.elim

/-! ### The attacked host -/

/-- What a run without edits keeps. -/
structure Watching (s : Daemon) (h : Ledger) : Prop where
  sync : InSync s
  no_copy : ∀ i p, s.pc ≠ .copy i p
  threads : InStep Addressed s h
  main : Topped s h

/-- What it keeps of the counters where the threads have counted nothing at the start. -/
structure Growing (s : Daemon) (h : Ledger) : Prop extends Watching s h where
  balanced : Balanced s h
  unlent : Unlent h
  growth : Growth s h

theorem watching_step (moved : Stepped platform s a s') (receives : Receives a) (watching : Watching s h) :
    Watching s' (Ledger.note platform a s h) where
  sync := inSync_step moved receives watching.sync watching.no_copy
  no_copy := not_copying_step moved (fun i p c _ thread => (watching.sync i c thread p).1) watching.no_copy
  threads := inStep_step counting_addressed moved (.inl watching.no_copy) watching.threads
  main := topped_step moved receives watching.threads watching.main

theorem growing_step (moved : Stepped platform s a s') (receives : Receives a) (growing : Growing s h) :
    Growing s' (Ledger.note platform a s h) where
  toWatching := watching_step moved receives growing.toWatching
  balanced := balanced_step moved growing.balanced
  unlent := unlent_note receives growing.no_copy growing.unlent
  growth := growth_step moved receives growing.balanced.main growing.unlent growing.growth

/-- No rule of the collection has a destination. -/
def Cleared (c : RulesCollection) : Prop := ∀ p, ∀ r ∈ (c.list p).rules_, r.dst_top.map_ = ∅

/-- No rule of the collection has counted anything. -/
def Uncounted (c : RulesCollection) : Prop := ∀ p counter k, (c.list p).count_at counter k = 0

theorem watching_start {init : Daemon} (start : init.pc = init.visit 0) (sync : InSync init)
    (main : Cleared init.main) (threads : ∀ c ∈ init.threads, Cleared c) :
    Watching init (Ledger.start init.threads) where
  sync := sync
  no_copy := start ▸ visit_not_copy init 0
  threads j c found p k r here := by
    rw [Addressed,threads c (List.mem_of_getElem? found) p r (List.mem_of_getElem? here)]
    exact Tally.counts_empty
  main p k r here := by
    rw [main p r (List.mem_of_getElem? here)]
    exact Tally.counts_empty

theorem growing_start {init : Daemon} (start : init.pc = init.visit 0)
    (watching : Watching init (Ledger.start init.threads))
    (even : ∀ p, (init.prev.list p).rules_ = (init.main.list p).rules_) (uncounted : ∀ c ∈ init.threads, Uncounted c) :
    Growing init (Ledger.start init.threads) where
  toWatching := watching
  balanced := ⟨accounted_start init,balance_even even init.threads⟩
  unlent := by
    refine ⟨fun i p k c => ?_,fun _ _ _ => rfl,fun _ _ => rfl⟩
    simp only [Ledger.start]
    cases found : init.threads[i]? with
    | none => rfl
    | some thread => exact uncounted thread (List.mem_of_getElem? found) p c k
  growth := growth_early (fun _ _ => id) (start ▸ not_saved_visit init 0) (start ▸ not_rated_visit init 0)

/-- In every run without edits and reloads from threads in sync, a snapshot that is even
    with main and empty destinations, whenever a list is about to be checked: each rule of
    main maps every address to the number of packets for it that the rule has counted in
    any thread and that have been harvested since the last check; if the threads had
    counted nothing at the start, a rule that has grown in this iteration knows a
    destination; and the destination reported is, as long as the numbers fit, the address
    with the largest, the smallest such address on ties. -/
theorem alarm_names_host (platform : Platform) {init s : Daemon} {h : Ledger} {labels : List Label}
    (start : init.pc = init.visit 0) (in_sync : InSync init)
    (even : ∀ p, (init.prev.list p).rules_ = (init.main.list p).rules_)
    (main_cleared : Cleared init.main) (threads_cleared : ∀ c ∈ init.threads, Cleared c)
    (run : Runs.Run (Runs.recorded (step platform) (Ledger.note platform)) (fun _ a => Receives a)
      (init,Ledger.start init.threads) labels (s,h))
    {p : Proto} (here : s.pc = .triggers p) {k : Nat} {r : Rule (Fields p)}
    (rule : (s.main.list p).rules_[k]? = some r) :
    (∀ d : UInt32, r.dst_top.map_.getD d 0 = UInt32.ofNat ((h.top p k).destinations.count d) ∧
      (d ∈ r.dst_top.map_ ↔ d ∈ (h.top p k).destinations)) ∧
    ((∀ c ∈ init.threads, Uncounted c) → (∃ c, h.deltas p k c ≠ 0) → 0 < r.dst_top.size) ∧
    ((∀ d : UInt32, (h.top p k).destinations.count d < 2^32) → 0 < r.dst_top.size →
      ∃ top ∈ (h.top p k).destinations, r.dst_top.get_max platform = platform.address_to_string top ∧
        ∀ d ∈ (h.top p k).destinations, (h.top p k).destinations.count d ≤ (h.top p k).destinations.count top ∧
          ((h.top p k).destinations.count d = (h.top p k).destinations.count top → d = top ∨ top < d)) := by
  have watching_first := watching_start start in_sync main_cleared threads_cleared
  have watching : Watching s h := run.invariant_recorded watching_first
    fun s h a s' watching receives taken => watching_step (stepped taken) receives watching
  have counts : Tally.Counts r.dst_top.map_ (h.top p k).destinations := watching.main p k r rule
  have size : 0 < r.dst_top.size ↔ (h.top p k).destinations ≠ [] := by
    rw [Nat.pos_iff_ne_zero]
    exact not_congr (Tally.counts_size counts)
  refine ⟨counts,fun uncounted ⟨c,grown⟩ => ?_,fun fits some_destination => ?_⟩
  · have growing : Growing s h := run.invariant_recorded (growing_start start watching_first even uncounted)
      fun s h a s' growing receives taken => growing_step (stepped taken) receives growing
    have inside := (List.getElem?_eq_some_iff.mp rule).1
    have seen := growing.growth.known p k c (by simp [here,Rated]) inside grown
    rw [size,Seen.destinations,Ne,List.map_eq_nil_iff]
    exact seen
  · obtain ⟨top,member,scanned,largest⟩ := Tally.scan_max_counts counts fits (size.mp some_destination) 0
    refine ⟨top,member,congrArg platform.address_to_string scanned,?_⟩
    intro d inside
    obtain ⟨most,first⟩ := largest d inside
    exact ⟨most,fun tie => (first tie).imp_right compareOfLessAndEq_eq_lt.mp⟩

theorem sample_cleared : Cleared (tcp_collection [sample_rule]) := by
  intro p r member
  cases p with
  | TCP => rw [List.mem_singleton.mp member]; rfl
  | UDP => cases member
  | ICMP => cases member

theorem sample_uncounted : Uncounted (tcp_collection [sample_rule]) := by
  intro p counter k
  cases p with
  | TCP => cases k <;> cases counter <;> rfl
  | UDP => rfl
  | ICMP => rfl

/-- The first checks of the sample daemon, after a packet in that iteration. -/
theorem alarm_names_host_first : ∃ labels s h r,
    Runs.Run (Runs.recorded (step documented) (Ledger.note documented)) (fun _ a => Receives a)
      (sample_daemon,Ledger.start sample_daemon.threads) labels (s,h) ∧
    s.pc = .triggers .TCP ∧ (s.main.list .TCP).rules_[0]? = some r ∧ h.deltas .TCP 0 .packets = 1 ∧
    0 < r.dst_top.size := by
  obtain ⟨s,h,r,reached,here,rule,grown⟩ : ∃ s h r,
      Runs.runFrom (Runs.recorded (step documented) (Ledger.note documented))
        (sample_daemon,Ledger.start sample_daemon.threads)
        (iteration ++ [.packet 0 .TCP sample_packet] ++ List.replicate 16 (tick 2)) = some (s,h) ∧
      s.pc = .triggers .TCP ∧ (s.main.list .TCP).rules_[0]? = some r ∧ h.deltas .TCP 0 .packets = 1 :=
    ⟨_,_,_,rfl,rfl,rfl,rfl⟩
  have allowed : ∀ a ∈ iteration ++ [.packet 0 .TCP sample_packet] ++ List.replicate 16 (tick 2),
      ∀ _ : Daemon × Ledger, Receives a := by
    intro a member _
    simp only [List.mem_append,iteration,List.mem_replicate,List.mem_singleton] at member
    obtain (⟨_,rfl⟩ | rfl) | ⟨_,rfl⟩ := member <;> trivial
  have run := Runs.Run.of_runFrom_free allowed reached
  have threads_cleared : ∀ c ∈ sample_daemon.threads, Cleared c :=
    fun c member => List.mem_singleton.mp member ▸ sample_cleared
  have uncounted : ∀ c ∈ sample_daemon.threads, Uncounted c :=
    fun c member => List.mem_singleton.mp member ▸ sample_uncounted
  have even := start_even (tcp_collection [sample_rule]) [tcp_collection [sample_rule]] 0
  have host := alarm_names_host documented rfl sample_inSync even sample_cleared threads_cleared run here rule
  exact ⟨_,s,h,r,run,here,rule,grown,host.2.1 uncounted ⟨.packets,by simp [grown]⟩⟩

end Daemon
end DdosDetector
