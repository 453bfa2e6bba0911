import DdosDetector.Equality
import DdosDetector.Iterations

/-!
How edits reach the receivers. While no rule of main is written, the watcher goes over
the threads and leaves no list behind that compares unequal to main's; within one whole
iteration every receiver has the rules of main, and keeps them.
-/
namespace DdosDetector

/-! ### Rules that compare equal only if they match the same packets -/

/-- A comparison that is on is not the one with zero, which compares equal to none. -/
def NumComparable.Telling {T : Type} [OfNat T 0] (c : NumComparable T) : Prop :=
  c.enable_ = true → ¬ (c.num_ = 0 ∧ c.type_ = 0)

/-- The criteria have no comparison with zero. -/
def Telling : (p : Proto) → Fields p → Prop
  | .TCP, f => f.seq.Telling ∧ f.ack_seq.Telling ∧ f.win.Telling ∧ f.len.Telling
  | .UDP, f => f.len.Telling
  | .ICMP, f => f.type.Telling ∧ f.code.Telling

theorem enabled_of_telling {T : Type} [DecidableEq T] [LT T] [DecidableLT T] [OfNat T 0] {c d : NumComparable T}
    (sound : c.Sound ∧ d.Sound) (telling : c.Telling ∧ d.Telling) (same : c.eq d = true) : c.enable_ = d.enable_ := by
  simp only [NumComparable.eq,Bool.and_eq_true,decide_eq_true_eq] at same
  obtain ⟨number,type⟩ := same
  cases on : c.enable_ with
  | true =>
    cases on' : d.enable_ with
    | true => rfl
    | false =>
      have zero := sound.2 on'
      exact absurd (by rw [number,type]; exact zero) (telling.1 on)
  | false =>
    cases on' : d.enable_ with
    | true =>
      have zero := sound.1 on
      exact absurd (by rw [← number,← type]; exact zero) (telling.2 on')
    | false => rfl

theorem enabled_comparisons_telling {p : Proto} {r r' : Rule (Fields p)} (sound : Sound p r ∧ Sound p r')
    (telling : Telling p r.l4 ∧ Telling p r'.l4) (same : ProtoRule.eq r r' = true) :
    enabled_comparisons p r = enabled_comparisons p r' := by
  obtain ⟨⟨_,fields⟩,_,fields'⟩ := sound
  cases p with
  | TCP =>
    obtain ⟨_,seq,ack_seq,win,len⟩ := fields
    obtain ⟨_,seq',ack_seq',win',len'⟩ := fields'
    obtain ⟨⟨seq_tells,ack_tells,win_tells,len_tells⟩,seq_tells',ack_tells',win_tells',len_tells'⟩ := telling
    have equal : TcpRule.eq r r' = true := same
    simp only [TcpRule.eq,Bool.and_eq_true] at equal
    obtain ⟨⟨⟨⟨⟨_,same_seq⟩,same_ack_seq⟩,same_win⟩,same_len⟩,_⟩ := equal
    simp only [enabled_comparisons,List.cons.injEq,and_true]
    exact ⟨enabled_of_telling ⟨seq,seq'⟩ ⟨seq_tells,seq_tells'⟩ same_seq,
      enabled_of_telling ⟨ack_seq,ack_seq'⟩ ⟨ack_tells,ack_tells'⟩ same_ack_seq,
      enabled_of_telling ⟨win,win'⟩ ⟨win_tells,win_tells'⟩ same_win,
      enabled_of_telling ⟨len,len'⟩ ⟨len_tells,len_tells'⟩ same_len⟩
  | UDP =>
    have equal : UdpRule.eq r r' = true := same
    simp only [UdpRule.eq,Bool.and_eq_true] at equal
    simp only [enabled_comparisons,List.cons.injEq,and_true]
    exact enabled_of_telling ⟨fields.2,fields'.2⟩ telling equal.2
  | ICMP =>
    obtain ⟨type,code⟩ := fields
    obtain ⟨type',code'⟩ := fields'
    obtain ⟨⟨type_tells,code_tells⟩,type_tells',code_tells'⟩ := telling
    have equal : IcmpRule.eq r r' = true := same
    simp only [IcmpRule.eq,Bool.and_eq_true] at equal
    obtain ⟨⟨_,same_type⟩,same_code⟩ := equal
    simp only [enabled_comparisons,List.cons.injEq,and_true]
    exact ⟨enabled_of_telling ⟨type,type'⟩ ⟨type_tells,type_tells'⟩ same_type,
      enabled_of_telling ⟨code,code'⟩ ⟨code_tells,code_tells'⟩ same_code⟩

namespace Daemon
variable {platform : Platform} {a : Label} {s s' : Daemon}

/-- The step writes no list of main. -/
def Quiet (platform : Platform) (s : Daemon) (a : Label) : Prop := ∀ q, ¬ Writes platform s a q

/-- The list of thread `j` compares equal to main's. -/
def Even (s : Daemon) (j : Nat) (p : Proto) : Prop :=
  ∀ c, s.threads[j]? = some c → (c.list p).eq (s.main.list p) = true

/-- In this iteration the watcher is done with comparing and copying the list of thread `j`. -/
def Behind : Pc → Nat → Proto → Prop
  | .compare i q, j, p => j < i ∨ j = i ∧ p.index < q.index
  | .copy i q, j, p => j < i ∨ j = i ∧ p.index < q.index
  | .stamp i _, j, _ => j ≤ i
  | .merge i _, j, _ => j ≤ i
  | _, _, _ => True

/-- Every list that the watcher is done with compares equal to main's. -/
def CaughtUp (s : Daemon) : Prop := ∀ j p, Behind s.pc j p → Even s j p

/-- Every list compares equal to main's. -/
def AllEven (s : Daemon) : Prop := ∀ j p, Even s j p

/-! ### One step -/

/-- While main is not written, a list that compares equal goes on to do so: it can only
    be copied from main. -/
theorem even_step (moved : Stepped platform s a s') (quiet : Quiet platform s a) {j : Nat} {p : Proto} (even : Even s j p) :
    Even s' j p := by
  intro c found
  have inside : j < s.threads.length := threads_length moved ▸ (List.getElem?_eq_some_iff.mp found).1
  have here := List.getElem?_eq_getElem inside
  by_cases copies : Copies s a j p
  · refine RulesList.eq_of_entered ?_
    rw [thread_copied moved copies found,main_frame moved (quiet p)]
  · obtain ⟨c',found',kept⟩ := thread_frame moved here
    obtain rfl := Option.some.inj (found'.symm.trans found)
    exact (RulesList.eq_congr (kept p copies) (main_frame moved (quiet p))).trans (even _ here)

theorem behind_compared {i j : Nat} {p q : Proto} (behind : Behind (compared i p) j q) :
    Behind (.compare i p) j q ∨ j = i ∧ q = p := by
  cases p <;> cases q <;> simp_all [compared,Proto.next,Behind,Proto.index] <;> omega

theorem behind_copied {i j : Nat} {p q : Proto} (behind : Behind (copied i p) j q) :
    Behind (.copy i p) j q ∨ j = i ∧ q = p := by
  cases p <;> cases q <;> simp_all [copied,Proto.next,Behind,Proto.index] <;> omega

theorem behind_visit {i j : Nat} {p : Proto} (inside : j < s.threads.length) (behind : Behind (s.visit i) j p) : j < i := by
  unfold visit at behind
  split_ifs at behind with more
  · simpa [Behind,Proto.index] using behind
  · omega

theorem behind_merged {i j : Nat} {p q : Proto} (inside : j < s.threads.length) (behind : Behind (s.merged i p) j q) :
    Behind (.merge i p) j q := by
  cases p with
  | TCP | UDP => exact behind
  | ICMP => exact Nat.le_of_lt_succ (behind_visit inside behind)

/-- The watcher is done with no list that does not compare equal. -/
theorem caught_step (moved : Stepped platform s a s') (quiet : Quiet platform s a) (caught : CaughtUp s) : CaughtUp s' := by
  have kept {j : Nat} {p : Proto} (behind : Behind s.pc j p) : Even s' j p := even_step moved quiet (caught j p behind)
  intro j p behind c found
  have inside : j < s.threads.length := threads_length moved ▸ (List.getElem?_eq_some_iff.mp found).1
  cases moved with
  | load loaded => cases loaded <;> exact kept behind c found
  | @watch now clock _ watched =>
    cases watched with
    | @equal i q _ here thread same =>
      rcases behind_compared behind with earlier | ⟨rfl,rfl⟩
      · exact kept (by rw [here]; exact earlier) c found
      · obtain rfl := Option.some.inj (thread.symm.trans found)
        exact same
    | @differ i q _ here =>
      refine kept ?_ c found
      rw [here]
      exact .inl (by simpa [Behind,Proto.index] using behind)
    | @copied i q _ here thread =>
      rcases behind_copied behind with earlier | ⟨rfl,rfl⟩
      · exact kept (by rw [here]; exact earlier) c found
      · have copies : Copies s (.watch now clock) j p := here
        have step : Stepped platform s (.watch now clock) _ := .watch (.copied here thread)
        exact RulesList.eq_of_entered (thread_copied step copies found)
    | stamped here => exact kept (by rw [here]; exact behind) c found
    | merged here thread sum => exact kept (by rw [here]; exact behind_merged inside behind) c found
    | @failed i q _ _ here thread thrown =>
      have behind_i : Behind s.pc i q := by
        rw [here]
        exact le_rfl
      exact absurd (RulesList.length_of_eq (caught i q behind_i _ thread)).symm (RulesList.sizes_of_merge_error thrown)
    | reread here => exact absurd (behind_visit inside behind) (Nat.not_lt_zero j)
    | @checked q _ _ here => exact kept (by rw [here]; trivial) c found
    | rated here | saved here | opened here | closed here => exact kept (by rw [here]; trivial) c found
  | _ => exact kept behind c found

/-- While the lists that the watcher is done with compare equal, no merge throws. -/
theorem caught_running (moved : Stepped platform s a s') (caught : CaughtUp s) (running : s.pc ≠ .terminated) :
    s'.pc ≠ .terminated := by
  refine running_step moved running fun i p c here thread => ?_
  have behind : Behind s.pc i p := by
    rw [here]
    exact le_rfl
  exact (RulesList.length_of_eq (caught i p behind c thread)).symm

/-- At the start of an iteration, the watcher is done with no list. -/
theorem caught_visit (start : s.pc = s.visit 0) : CaughtUp s := by
  intro j p behind c found
  have inside := (List.getElem?_eq_some_iff.mp found).1
  exact absurd (behind_visit inside (start ▸ behind)) (Nat.not_lt_zero j)

/-- At its end, it is done with all of them. -/
theorem allEven_finishes (caught : CaughtUp s) (ends : finishes s = true) : AllEven s := by
  intro j p
  refine caught j p ?_
  unfold finishes at ends
  cases here : s.pc <;> simp_all [Behind]

/-! ### Whole runs -/

/-- The watcher goes on, with no list behind it that does not compare equal. -/
structure Going (s : Daemon) : Prop where
  caught : CaughtUp s
  running : s.pc ≠ .terminated

theorem going_visit (start : s.pc = s.visit 0) : Going s := ⟨caught_visit start,start ▸ visit_running s 0⟩

theorem going_step (moved : Stepped platform s a s') (quiet : Quiet platform s a) (going : Going s) : Going s' :=
  ⟨caught_step moved quiet going.caught,caught_running moved going.caught going.running⟩

/-- What holds after some iterations have ended since the last edit. -/
structure Arrived (s : Daemon) (ended : Nat) : Prop where
  going : 1 ≤ ended → Going s
  all : 2 ≤ ended → AllEven s

theorem arrived_step {ended : Nat} (moved : Stepped platform s a s') (quiet : Quiet platform s a) (arrived : Arrived s ended) :
    Arrived s' (iterations a s ended) := by
  have goes_on (some_ended : 1 ≤ ended) : Going s' := going_step moved quiet (arrived.going some_ended)
  have stays (both_ended : 2 ≤ ended) : AllEven s' := fun j p => even_step moved quiet (arrived.all both_ended j p)
  by_cases ends : finishes s = true ∧ is_watch a = true
  · obtain ⟨last,watch⟩ := ends
    have one_more : iterations a s ended = ended + 1 := by
      cases a <;> simp_all [iterations,is_watch]
    have start : s'.pc = s'.visit 0 := by
      have size := threads_length moved
      cases moved with
      | watch watched =>
        have nearer := left_step watched
        rw [if_pos last] at nearer
        rw [nearer,visit,visit,size]
      | _ => cases watch
    rw [one_more]
    refine ⟨fun _ => going_visit start,fun both => ?_⟩
    exact fun j p => even_step moved quiet (allEven_finishes (arrived.going (by omega)).caught last j p)
  · have same : iterations a s ended = ended := by
      cases a <;> simp_all [iterations,is_watch]
    rw [same]
    exact ⟨goes_on,stays⟩

theorem arrived_run {init : Daemon} {labels : List Label} {ended ended' : Nat} (first : Arrived init ended)
    (run : Runs.Run (Runs.recorded (step platform) iterations) (fun sh a => Quiet platform sh.1 a) (init,ended) labels
      (s,ended')) : Arrived s ended' :=
  run.invariant_recorded first fun _ _ _ _ arrived quiet taken => arrived_step (stepped taken) quiet arrived

/-! ### What the receivers do then -/

/-- The rule, as entered, is parsed from text and has no comparison with zero. -/
def Plain (p : Proto) (r : Rule (Fields p)) : Prop := FromText p r ∧ Telling p r.l4

/-- The rules of main and of the threads are plain. -/
def AllPlain (s : Daemon) : Prop := s.main.MadeOf Plain ∧ ∀ (j : Nat) (c : RulesCollection), s.threads[j]? = some c → c.MadeOf Plain

theorem allPlain_step (moved : Stepped platform s a s') (quiet : Quiet platform s a) (plain : AllPlain s) : AllPlain s' := by
  refine ⟨madeOf_entered (fun p => main_frame moved (quiet p)) plain.1,fun j c found p => ?_⟩
  have inside : j < s.threads.length := threads_length moved ▸ (List.getElem?_eq_some_iff.mp found).1
  have here := List.getElem?_eq_getElem inside
  have made_of {l m : RulesList (Fields p)} (same : l.entered = m.entered) (made : ∀ r ∈ m.rules_, Plain p r.entered) :
      ∀ r ∈ l.rules_, Plain p r.entered := by
    intro r member
    have there : r.entered ∈ m.entered := same ▸ List.mem_map_of_mem member
    obtain ⟨old,old_member,equal⟩ := List.mem_map.mp there
    exact equal ▸ made old old_member
  by_cases copies : Copies s a j p
  · exact made_of (thread_copied moved copies found) (plain.1 p)
  · obtain ⟨c',found',kept⟩ := thread_frame moved here
    obtain rfl := Option.some.inj (found'.symm.trans found)
    exact made_of (kept p copies) (plain.2 j _ here p)

/-- Of plain rules, lists that compare equal match the same packets. -/
theorem inSync_of_allEven (plain : AllPlain s) (even : AllEven s) : InSync s := by
  intro j c found p
  have same := even j p c found
  obtain ⟨_,equal⟩ := RulesList.eq_iff_getElem?.mp same
  refine ⟨same,fun k r r' here there packet => ?_⟩
  have member := List.mem_of_getElem? here
  have member' := List.mem_of_getElem? there
  have sound : Sound p r ∧ Sound p r' :=
    ⟨sound_of_madeOf (fun p r member => (plain.2 j c found p r member).1) p r member,
      sound_of_madeOf (fun p r member => (plain.1 p r member).1) p r' member'⟩
  have telling : Telling p r.l4 ∧ Telling p r'.l4 := ⟨(plain.2 j c found p r member).2,(plain.1 p r' member').2⟩
  have matches_same := same_matches_of_enabled sound.1 sound.2 (equal k r r' here there)
    (enabled_comparisons_telling sound telling (equal k r r' here there))
  exact matches_same packet.l4header packet.s_addr packet.d_addr

/-- Main has the rules that it had. -/
def Unedited (init s : Daemon) : Prop := ∀ p, (s.main.list p).entered = (init.main.list p).entered

/-- While no rule of main is written, a whole iteration of the watcher brings all receivers
    in sync with it, and no merge throws. The one that was going on at the last edit, in
    which a merge can throw, need not. -/
theorem edits_arrive (platform : Platform) {init : Daemon} (plain : AllPlain init) (in_range : InRange init)
    {labels : List Label} {s : Daemon} (run : Runs.Run (step platform) (Quiet platform) init labels s) :
    (∀ p, (s.main.list p).entered = (init.main.list p).entered) ∧
    (init.pc = init.visit 0 → s.pc ≠ .terminated ∧
      (12 * init.threads.length + 10 ≤ labels.countP is_watch → InSync s)) ∧
    (2 * (12 * init.threads.length + 10) ≤ labels.countP is_watch → s.pc = .terminated ∨ InSync s) := by
  have plain_then : AllPlain s :=
    run.invariant plain fun _ _ _ plain quiet taken => allPlain_step (stepped taken) quiet plain
  refine ⟨?_,fun start => ?_,fun enough => ?_⟩
  · have unedited : Unedited init s := run.invariant (fun _ => rfl) fun _ _ _ same quiet taken p =>
      (main_frame (stepped taken) (quiet p)).trans (same p)
    exact unedited
  · have going : Going s := run.invariant (going_visit start) fun _ _ _ going quiet taken =>
      going_step (stepped taken) quiet going
    refine ⟨going.running,fun enough => ?_⟩
    have first : Arrived init 1 := ⟨fun _ => going_visit start,fun both => absurd both (by decide)⟩
    obtain ⟨ended,recorded_run⟩ := run.record iterations 1
    have arrived := arrived_run first recorded_run
    have bound := left_le in_range
    rcases iterations_ended (n := 0) recorded_run (by omega) with came | stopped
    · exact inSync_of_allEven plain_then (arrived.all came)
    · exact absurd stopped going.running
  · have first : Arrived init 0 := ⟨fun some_ended => absurd some_ended (by decide),fun both => absurd both (by decide)⟩
    obtain ⟨ended,recorded_run⟩ := run.record iterations 0
    have arrived := arrived_run first recorded_run
    have bound := left_le in_range
    rcases iterations_ended (n := 1) recorded_run (by omega) with came | stopped
    · exact .inr (inSync_of_allEven plain_then (arrived.all came))
    · exact .inl stopped

/-- A thread that has not got the second rule of main yet. -/
def late_thread : Daemon := start (tcp_collection [sample_rule,sample_rule]) [tcp_collection [sample_rule]] 0

theorem late_thread_plain : AllPlain late_thread := by
  have plain (r : TcpRule) (same : r = sample_rule) : Plain .TCP r.entered := by
    subst same
    have off {T : Type} [OfNat T 0] : (⟨0,false,0⟩ : NumComparable T).Telling := fun on => by cases on
    have telling : Telling .TCP sample_rule.l4 := And.intro off (And.intro off (And.intro off off))
    exact ⟨⟨sample_rule,sample_parsed,rfl⟩,telling⟩
  have made (rules : List TcpRule) (all : ∀ r ∈ rules, r = sample_rule) : (tcp_collection rules).MadeOf Plain := by
    intro p r member
    cases p with
    | TCP => exact plain r (all r member)
    | UDP => cases member
    | ICMP => cases member
  refine ⟨made _ (by simp),fun j c found => ?_⟩
  have member : c ∈ [tcp_collection [sample_rule]] := List.mem_of_getElem? found
  exact List.mem_singleton.mp member ▸ made _ (by simp)

theorem edits_arrive_late : ∃ labels s, Runs.Run (step documented) (Quiet documented) late_thread labels s ∧
    labels.countP is_watch = 22 ∧ (∀ p, (s.main.list p).entered = (late_thread.main.list p).entered) ∧
    (late_thread.pc = late_thread.visit 0 → s.pc ≠ .terminated ∧
      (12 * late_thread.threads.length + 10 ≤ labels.countP is_watch → InSync s)) ∧
    (2 * (12 * late_thread.threads.length + 10) ≤ labels.countP is_watch → s.pc = .terminated ∨ InSync s) := by
  obtain ⟨s,reached⟩ : ∃ s, Runs.runFrom (step documented) late_thread
      (.packet 0 .TCP sample_packet :: List.replicate 22 (tick 1)) = some s := ⟨_,rfl⟩
  have run : Runs.Run (step documented) (Quiet documented) late_thread
      (.packet 0 .TCP sample_packet :: List.replicate 22 (tick 1)) s := by
    refine Runs.Run.of_runFrom_free (fun a member s => ?_) reached
    refine receives_unwritten ?_
    rcases List.mem_cons.mp member with rfl | later
    · trivial
    · exact List.eq_of_mem_replicate later ▸ trivial
  exact ⟨_,s,run,rfl,edits_arrive documented late_thread_plain (fun i here => inRange_visit late_thread 0 i here) run⟩

end Daemon
end DdosDetector
