import DdosDetector.AlarmRuns
import DdosDetector.Pipeline
import DdosDetector.Thresholds

/-!
Excesses in the running program. What the checks of a rule of main find and answer is
kept beside the rule through the edits that move it; from its start these answers are
those of one machine, so that an excess that lasts gets its alarm, of which the check makes a job
and an event, whatever the receivers, the console, the loader and the rest of the watcher
do between the checks.
-/
namespace DdosDetector

/-! ### What the checks of a rule find and answer -/

/-- What a check finds, and the job and the event that it makes of it. -/
abbrev Answer := Look × Option (TriggerJob × Text)

def Rule.answer {F : Type} (platform : Platform) (r : Rule F) (cur_time : Int) : Answer :=
  (r.look cur_time,(RulesList.check_trigger platform r cur_time).2)

/-- The times of the checks do not go back, the answers are those of the thresholds from
    their start on, and `t` is what they have come to. -/
structure Answered (latest : Int) (t : TriggerState) (answers : List Answer) : Prop where
  begun : 0 ≤ latest
  times : ∀ e ∈ answers, e.1.time ≤ latest
  ordered : answers.Pairwise fun a b => a.1.time ≤ b.1.time
  traced : answers.map (fun e => (e.1,e.2.isSome)) = Debounce.trace TriggerState.looked t.started (answers.map Prod.fst)
  reached : Debounce.after TriggerState.looked t.started (answers.map Prod.fst) = t

theorem answered_fresh {r : BaseRule} (fresh : Fresh r) {latest : Int} (begun : 0 ≤ latest) :
    Answered latest r.trigger_state [] where
  begun := begun
  times _ member := absurd member List.not_mem_nil
  ordered := .nil
  traced := rfl
  reached := by
    obtain ⟨packets,bytes⟩ := fresh
    simp [Debounce.after,TriggerState.started,BaseRule.trigger_state,packets,bytes]

theorem answered_later {latest latest' : Int} {t : TriggerState} {answers : List Answer}
    (answered : Answered latest t answers) (later : latest ≤ latest') : Answered latest' t answers :=
  { answered with begun := answered.begun.trans later, times := fun e member => (answered.times e member).trans later }

theorem answer_isSome {F : Type} (platform : Platform) (r : Rule F) (t : Int) :
    (r.answer platform t).2.isSome = (r.is_triggered t).1 := by
  simp only [Rule.answer,RulesList.check_trigger]
  split_ifs with alarm <;> simp [alarm]

/-- Each check keeps its rule answered. -/
theorem answered_check {F : Type} (platform : Platform) {latest : Int} {r : Rule F} {answers : List Answer}
    (answered : Answered latest r.trigger_state answers) {t : Int} (later : latest ≤ t) :
    Answered t (RulesList.check_trigger platform r t).1.trigger_state (answers ++ [r.answer platform t]) := by
  have stepped := is_triggered_looked r.toBaseRule t
  have next : (RulesList.check_trigger platform r t).1.trigger_state = (r.is_triggered t).2.trigger_state := rfl
  have same : (r.is_triggered t).2.trigger_state.started = r.trigger_state.started := by
    rw [← TriggerState.started_looked r.trigger_state (r.look t),stepped]
  have looks : (answers ++ [r.answer platform t]).map Prod.fst = answers.map Prod.fst ++ [r.look t] := by
    rw [List.map_append]
    rfl
  rw [next]
  refine ⟨answered.begun.trans later,fun e member => ?_,?_,?_,?_⟩
  · rcases List.mem_append.mp member with old | new
    · exact (answered.times e old).trans later
    · rw [List.mem_singleton.mp new]
      exact le_refl t
  · refine List.pairwise_append.mpr ⟨answered.ordered,List.pairwise_singleton _ _,fun e old e' new => ?_⟩
    rw [List.mem_singleton.mp new]
    exact (answered.times e old).trans later
  · rw [same,looks,Debounce.trace_snoc,answered.reached,stepped,List.map_append,answered.traced,List.map_singleton,
      answer_isSome]
    rfl
  · rw [same,looks,Debounce.after_snoc,answered.reached,stepped]

/-! ### What the answers are worth -/

/-- Some check after `t0` and not after `t` has answered with an alarm. -/
def AnsweredIn (answers : List Answer) (t0 t : Int) : Prop :=
  ∃ e ∈ answers, t0 < e.1.time ∧ e.1.time ≤ t ∧ e.2.isSome = true

/-- An excess that every check finds for longer than the period gets an alarm. -/
def Heeded (answers : List Answer) (high : Look → Prop) (period : UInt32) : Prop :=
  ∀ t0 : Int, 0 ≤ t0 → ∀ upto ∈ answers, (period.toNat : Int) < upto.1.time - t0 →
    (∀ e ∈ answers, t0 < e.1.time → e.1.time ≤ upto.1.time → high e.1) → AnsweredIn answers t0 upto.1.time

/-- Any two alarms are more than the period apart. -/
def Spaced (answers : List Answer) (period : UInt32) : Prop :=
  answers.Pairwise fun a b => a.2.isSome = true → b.2.isSome = true → (period.toNat : Int) < b.1.time - a.1.time

section
variable {latest : Int} {t : TriggerState} {answers : List Answer} {clock : TriggerState → Int} {period : UInt32}

theorem heeded {high : Look → Prop} (answered : Answered latest t answers) (start : clock t.started = 0)
    (watches : Debounce.Watches TriggerState.looked Look.time clock (TriggerState.Alike t) (period.toNat : Int) high) :
    Heeded answers high period := by
  intro t0 begun upto member long lasting
  have alike : TriggerState.Alike t t.started := rfl
  have ordered : (answers.map Prod.fst).Pairwise fun a b => a.time ≤ b.time := List.pairwise_map.mpr answered.ordered
  have called : ∃ c ∈ answers.map Prod.fst, c.time = upto.1.time := ⟨_,List.mem_map_of_mem member,rfl⟩
  have sustained : ∀ c ∈ answers.map Prod.fst, t0 < c.time → c.time ≤ upto.1.time → high c := by
    intro c found after within
    obtain ⟨e,inside,rfl⟩ := List.mem_map.mp found
    exact lasting e inside after within
  obtain ⟨answer,found,after,within,alarm⟩ :=
    Debounce.alarm_within watches long alike (start.trans_le begun) ordered called (by omega) sustained
  rw [← answered.traced] at found
  obtain ⟨e,inside,rfl⟩ := List.mem_map.mp found
  exact ⟨e,inside,after,within,alarm⟩

theorem spaced (answered : Answered latest t answers)
    (waits : Debounce.Waits TriggerState.looked Look.time clock (TriggerState.Alike t) (period.toNat : Int)) :
    Spaced answers period := by
  have alike : TriggerState.Alike t t.started := rfl
  have ordered : (answers.map Prod.fst).Pairwise fun a b => a.time ≤ b.time := List.pairwise_map.mpr answered.ordered
  have apart := Debounce.alarms_apart waits alike ordered
  rw [← answered.traced] at apart
  exact List.pairwise_map.mp apart

end

/-! ### In every run -/

theorem checking_answers (platform : Platform) :
    History.Checking platform (fun r t => r.answer platform t) Answered where
  fresh fresh begun := answered_fresh fresh begun
  later answered later := answered_later answered later
  checked answered later := answered_check platform answered later

namespace Daemon
variable {platform : Platform} {a : Label} {s s' : Daemon} {h : History Answer}

/-- Each alarm that a check has answered with is among the jobs and the events made. -/
def Made (s : Daemon) (h : History Answer) : Prop := ∀ p, ∀ answers ∈ h.of p, ∀ e ∈ answers, ∀ job event,
  e.2 = some (job,event) → job ∈ s.task_list ∧ event ∈ s.influx

/-- A check of a list adds what it makes. -/
theorem jobs_checked {now : time_point} {clock : Nat → Int} {p : Proto} (here : s.pc = .triggers p)
    (taken : step platform (.watch now clock) s = some s') :
    s'.task_list = s.task_list ++ ((s.main.list p).check_triggers platform clock).2.map Prod.fst ∧
      s'.influx = s.influx ++ ((s.main.list p).check_triggers platform clock).2.map Prod.snd := by
  simp only [step,here,reduceCtorEq,↓reduceIte,watch,Option.some.injEq] at taken
  subst taken
  exact ⟨rfl,rfl⟩

theorem mem_check_triggers {F : Type} {l : RulesList F} {clock : Nat → Int} {k : Nat} {r : Rule F}
    {told : TriggerJob × Text} (rule : l.rules_[k]? = some r)
    (raised : (RulesList.check_trigger platform r (clock k)).2 = some told) : told ∈ (l.check_triggers platform clock).2 := by
  obtain ⟨inside,rfl⟩ := List.getElem?_eq_some_iff.mp rule
  refine List.mem_filterMap.mpr ⟨_,List.mem_mapIdx.mpr ⟨k,inside,rfl⟩,raised⟩

theorem made_step (taken : step platform a s = some s') (made : Made s h) :
    Made s' (History.note platform (fun r t => r.answer platform t) a s h) := by
  intro p answers kept e member job event told
  rcases History.mem_note kept member with ⟨before,old,inside⟩ | ⟨here,now,clock,k,r,rfl,rule,rfl⟩
  · obtain ⟨more,jobs,events,_⟩ := alarms_step taken
    obtain ⟨job_made,event_made⟩ := made p before old e inside job event told
    rw [jobs,events]
    exact ⟨List.mem_append_left _ job_made,List.mem_append_left _ event_made⟩
  · obtain ⟨jobs,events⟩ := jobs_checked here taken
    have made := mem_check_triggers rule told
    rw [jobs,events]
    exact ⟨List.mem_append_right _ (List.mem_map_of_mem made),List.mem_append_right _ (List.mem_map_of_mem made)⟩

/-- Two checks of both rules, at 1000 and at 1020. -/
def both_checked : List Label := second_alarm ++ [tick 1020]

theorem both_checked_forward : ∀ a ∈ both_checked, ∀ sh : Daemon × History Answer,
    History.in_order a sh = true → History.Forward sh a := by
  intro a member
  rcases List.mem_append.mp member with before | last
  · exact second_alarm_forward a before
  · rw [List.mem_singleton.mp last]
    exact History.forward_in_order [tick 1020] (fun a member => .inl ⟨1020,List.mem_singleton.mp member⟩) _ (by simp)

/-- What the checks of a rule have found, and whether they raised an alarm. -/
def outcomes (h : History Answer) (k : Nat) : Option (List (Int × UInt64 × UInt64 × Bool × Bool)) :=
  (h.of .TCP)[k]?.map fun answers => answers.map fun e => (e.1.time,e.1.pps,e.1.bps,e.1.known,e.2.isSome)

end Daemon
end DdosDetector
