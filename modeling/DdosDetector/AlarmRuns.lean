import DdosDetector.Histories

/-!
The checks of each rule of main, followed through a run: an edit moves them with the
rule, a rule that is entered has none. Whatever threads, merges and rates do, the
clocks of a rule are what its own checks have made of them.
-/
namespace DdosDetector

/-- The time of the latest check, and the checks of each rule of main. -/
abbrev Checks := History Check

namespace Daemon

/-- What a step adds to the checks. -/
def note_checks (platform : Platform) : Label → Daemon → Checks → Checks :=
  History.note platform fun r t => r.checked t

theorem checking_tracked (platform : Platform) : History.Checking platform (fun r t => r.checked t) Tracked where
  fresh fresh _ := tracked_fresh fresh _
  later := tracked_later
  checked tracked later := tracked_check tracked later

/-- In every run from the start of the program, an alarm means a sustained excess
    exactly if its threshold has been looked at before: the initial clocks let the first
    look raise an alarm, and the byte threshold misses the checks at which the packet
    threshold raises one. -/
theorem alarm_sustained_iff (platform : Platform) {init s : Daemon} {h : Checks} {labels : List Label}
    (start : Unchecked init)
    (run : Runs.Run (Runs.recorded (step platform) (note_checks platform)) History.Forward
      (init,History.start init) labels (s,h))
    {p : Proto} {k : Nat} {r : Rule (Fields p)} (rule : (s.main.list p).rules_[k]? = some r) (t : Int) :
    ∃ checks, (h.of p)[k]? = some checks ∧
      ((r.pps_check t).1 = true → (PacketSustained r.toBaseRule checks t ↔ CheckedBefore r.toBaseRule checks t)) ∧
      ((r.pps_check t).1 = false → (r.bps_check t).1 = true →
        (ByteSustained r.toBaseRule checks t ↔ LookedBefore r.toBaseRule checks t)) := by
  obtain ⟨checks,kept,tracked⟩ := History.of_run (checking_tracked platform) start run rule
  exact ⟨checks,kept,packet_sustained_iff tracked,byte_sustained_iff tracked⟩

/-- A first iteration, in which the watcher only notices the rules of the start, a
    packet, and a second iteration up to the checks. -/
def first_alarm : List Label :=
  List.replicate 17 (tick 1) ++ [.packet 0 .TCP sample_packet] ++ List.replicate 16 (tick 1000)

theorem first_alarm_forward {α : Type} : ∀ a ∈ first_alarm, ∀ sh : Daemon × History α,
    History.in_order a sh = true → History.Forward sh a := by
  refine History.forward_in_order first_alarm fun a member => ?_
  simp only [first_alarm,List.mem_append,List.mem_replicate,List.mem_singleton] at member
  rcases member with (⟨_,rfl⟩ | rfl) | ⟨_,rfl⟩
  · exact .inl ⟨1,rfl⟩
  · exact .inr ⟨0,.TCP,sample_packet,rfl⟩
  · exact .inl ⟨1000,rfl⟩

/-- The first check of a rule of the start raises a packet alarm, although nothing was
    checked before. -/
theorem first_check_alarms : ∃ labels s h r,
    Runs.Run (Runs.recorded (step documented) (note_checks documented)) History.Forward
      (sample_daemon,History.start sample_daemon) labels (s,h) ∧ s.pc = .triggers .TCP ∧
      (s.main.list .TCP).rules_[0]? = some r ∧ (h.of .TCP)[0]? = some [] ∧ (r.pps_check 1000).1 = true ∧
      ¬ PacketSustained r.toBaseRule [] 1000 := by
  have reached : (Runs.runFrom (fun a sh =>
      if History.in_order a sh then Runs.recorded (step documented) (note_checks documented) a sh else none)
      (sample_daemon,History.start sample_daemon) first_alarm).map (fun sh => (sh.1.pc,(sh.2.of .TCP)[0]?,
        (sh.1.main.list .TCP).rules_[0]?.map fun r => (r.pps_check 1000).1)) =
      some (.triggers .TCP,some [],some true) := rfl
  obtain ⟨⟨s,h⟩,run,result⟩ := Option.map_eq_some_iff.mp reached
  simp only [Prod.mk.injEq,Option.map_eq_some_iff] at result
  obtain ⟨here,checks,r,rule,alarm⟩ := result
  refine ⟨first_alarm,s,h,r,.of_runFrom first_alarm_forward run,here,rule,checks,alarm,?_⟩
  rintro ⟨⟨c,member,_⟩,_⟩
  simp at member

/-- One thread, and two rules for the packets of `sample_packet`: one with a packet
    threshold, and one after it with a byte threshold. -/
def two_rules : List TcpRule :=
  [{ sample_rule with next_rule := true },{ sample_rule with pps_trigger := 0, bps_trigger := 100 }]
def two_rules_daemon : Daemon := start (tcp_collection two_rules) [tcp_collection two_rules] 0

/-- A check of both rules, a packet, and the next iteration up to the checks. -/
def second_alarm : List Label :=
  first_alarm ++ List.replicate 3 (tick 1000) ++ [.packet 0 .TCP sample_packet] ++ List.replicate 16 (tick 1020)

theorem two_rules_unchecked : Unchecked two_rules_daemon where
  fresh p r member := by
    cases p with
    | TCP =>
      rcases List.mem_cons.mp member with rfl | member
      · exact ⟨rfl,rfl⟩
      · rw [List.mem_singleton.mp member]
        exact ⟨rfl,rfl⟩
    | UDP => cases member
    | ICMP => cases member
  idle _ _ := by simp [two_rules_daemon,Daemon.start]

theorem second_alarm_forward {α : Type} : ∀ a ∈ second_alarm, ∀ sh : Daemon × History α,
    History.in_order a sh = true → History.Forward sh a := by
  intro a member
  simp only [second_alarm,List.mem_append,List.mem_replicate,List.mem_singleton] at member
  rcases member with ((first | ⟨_,rfl⟩) | rfl) | ⟨_,rfl⟩
  · exact first_alarm_forward a first
  · exact History.forward_in_order [tick 1000] (fun a member => .inl ⟨1000,List.mem_singleton.mp member⟩) _ (by simp)
  · exact fun _ _ => trivial
  · exact History.forward_in_order [tick 1020] (fun a member => .inl ⟨1020,List.mem_singleton.mp member⟩) _ (by simp)

/-- Both rules have been checked at 1000, and raise their alarms at 1020. -/
theorem alarm_sustained_sample : ∃ labels s h r r' checks checks',
    Runs.Run (Runs.recorded (step documented) (note_checks documented)) History.Forward
      (two_rules_daemon,History.start two_rules_daemon) labels (s,h) ∧ s.pc = .triggers .TCP ∧
    ((s.main.list .TCP).rules_[0]? = some r ∧ (h.of .TCP)[0]? = some checks ∧ (r.pps_check 1020).1 = true ∧
      PacketSustained r.toBaseRule checks 1020) ∧
    (s.main.list .TCP).rules_[1]? = some r' ∧ (h.of .TCP)[1]? = some checks' ∧ (r'.bps_check 1020).1 = true ∧
      ByteSustained r'.toBaseRule checks' 1020 := by
  have reached : (Runs.runFrom (fun a sh =>
      if History.in_order a sh then Runs.recorded (step documented) (note_checks documented) a sh else none)
      (two_rules_daemon,History.start two_rules_daemon) second_alarm).map (fun sh => (sh.1.pc,
        (sh.1.main.list .TCP).rules_[0]?.map (fun r => ((r.pps_check 1020).1,r.pps_trigger_period)),
        (sh.1.main.list .TCP).rules_[1]?.map (fun r => ((r.pps_check 1020).1,(r.bps_check 1020).1,r.bps_trigger_period)),
        (sh.2.of .TCP)[0]?,(sh.2.of .TCP)[1]?)) =
      some (.triggers .TCP,some (true,10),some (false,true,10),some [⟨1000,1001001,40040040,false⟩],
        some [⟨1000,1001001,40040040,true⟩]) := rfl
  obtain ⟨⟨s,h⟩,run,result⟩ := Option.map_eq_some_iff.mp reached
  simp only [Prod.mk.injEq,Option.map_eq_some_iff] at result
  obtain ⟨here,⟨r,rule,packets,period⟩,⟨r',rule',no_packets,bytes,period'⟩,kept,kept'⟩ := result
  have run := Runs.Run.of_runFrom second_alarm_forward run
  obtain ⟨checks,same,sustained,_⟩ := alarm_sustained_iff documented two_rules_unchecked run rule 1020
  obtain ⟨checks',same',_,sustained'⟩ := alarm_sustained_iff documented two_rules_unchecked run rule' 1020
  obtain rfl := Option.some.inj (same.symm.trans kept)
  obtain rfl := Option.some.inj (same'.symm.trans kept')
  refine ⟨_,s,h,r,r',_,_,run,here,⟨rule,kept,packets,(sustained packets).mpr ?_⟩,rule',kept',bytes,
    (sustained' no_packets bytes).mpr ?_⟩
  · exact ⟨_,List.mem_singleton_self _,.inl (by rw [period]; decide)⟩
  · refine ⟨⟨_,List.mem_singleton_self _,.inl ⟨rfl,by rw [period']; decide⟩⟩,fun c member skipped => ?_⟩
    rw [List.mem_singleton.mp member] at skipped
    cases skipped

end Daemon
end DdosDetector
