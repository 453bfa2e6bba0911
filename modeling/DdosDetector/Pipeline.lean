import DdosDetector.Actions
import DdosDetector.Alarm
import DdosDetector.JobInfo
import DdosDetector.Simulations
import DdosDetector.TaskQueue

/-!
The way of an alarm: from the rule whose check raises it, over the job that the watcher
pushes and the event that it inserts after it, to what `task_runner` does with the job.
The watcher and `task_runner` run in threads of their own, with the receivers, the console
and the loader beside them. The check of a list tells its alarms in one step, since the
list is locked until all of them are told; the watcher then pushes their jobs and inserts
their events in turn, and goes on when nothing is left.
-/
namespace DdosDetector

/-! ### Alarms -/

/-- A check that raises an alarm: the rule as it is checked, and the time of the check. -/
structure Alarm where
  p : Proto
  rule : Rule (Fields p)
  cur_time : Int

namespace Alarm

def job (platform : Platform) (alarm : Alarm) : TriggerJob :=
  { toAction := alarm.rule.act, data_ := alarm.rule.get_job_info platform }
def event (platform : Platform) (alarm : Alarm) : Text := alarm.rule.get_trigger_influx platform

/-- The check raises the alarm. -/
def Triggered (alarm : Alarm) : Prop := (alarm.rule.is_triggered alarm.cur_time).1 = true

instance : DecidablePred Triggered := fun _ => inferInstanceAs (Decidable (_ = true))

end Alarm

theorem is_triggered_texts (platform : Platform) (r : BaseRule) (t : Int) :
    (r.is_triggered t).2.get_job_info platform = r.get_job_info platform ∧
      (r.is_triggered t).2.get_trigger_influx platform = r.get_trigger_influx platform := by
  unfold BaseRule.is_triggered
  split_ifs <;> exact ⟨rfl,rfl⟩

namespace RulesList
variable {p : Proto}

/-- The rules of the list that raise an alarm, with the times of their checks. -/
def raised (clock : Nat → Int) (l : RulesList (Fields p)) : List Alarm :=
  (l.rules_.mapIdx fun i r => (⟨p,r,clock i⟩ : Alarm)).filter fun alarm => alarm.Triggered

theorem filterMap_mapIdx_ite {α β γ : Type} (l : List α) (f : Nat → α → β) (P : β → Prop) [DecidablePred P] (g : β → γ) :
    (l.mapIdx fun i a => if P (f i a) then some (g (f i a)) else none).filterMap id =
      ((l.mapIdx f).filter fun b => P b).map g := by
  induction l generalizing f with
  | nil => rfl
  | cons a rest ih =>
    simp only [List.mapIdx_cons,List.filter_cons,decide_eq_true_eq]
    split_ifs with here
    · rw [List.filterMap_cons_some (by rfl : id (some (g (f 0 a))) = some (g (f 0 a))),List.map_cons]
      exact congrArg _ (ih fun i => f (i + 1))
    · rw [List.filterMap_cons_none (by rfl : id (none : Option γ) = none)]
      exact ih fun i => f (i + 1)

/-- `check_triggers` makes one job and one event of each alarm, in the order of the rules. -/
theorem check_triggers_raised (platform : Platform) (clock : Nat → Int) (l : RulesList (Fields p)) :
    (l.check_triggers platform clock).2 =
      (l.raised clock).map fun alarm => (alarm.job platform,alarm.event platform) := by
  have one (i : Nat) (r : Rule (Fields p)) : (check_trigger platform r (clock i)).2 =
      if (⟨p,r,clock i⟩ : Alarm).Triggered then
        some ((⟨p,r,clock i⟩ : Alarm).job platform,(⟨p,r,clock i⟩ : Alarm).event platform)
      else none := by
    obtain ⟨info,event⟩ := is_triggered_texts platform r.toBaseRule (clock i)
    simp only [check_trigger,info,event]
    rfl
  rw [raised,← filterMap_mapIdx_ite]
  have seconds : (l.rules_.mapIdx fun i r => (check_trigger platform r (clock i)).2) =
      (l.rules_.mapIdx fun i r => check_trigger platform r (clock i)).map Prod.snd := by
    simp only [List.mapIdx_eq_zipIdx_map,List.map_map]
    rfl
  simp only [check_triggers,← one,seconds]
  rw [List.filterMap_map]
  rfl

theorem mem_raised {clock : Nat → Int} {l : RulesList (Fields p)} {alarm : Alarm} (member : alarm ∈ l.raised clock) :
    alarm.Triggered ∧ ∃ r ∈ l.rules_, ∃ cur_time, alarm = ⟨p,r,cur_time⟩ := by
  obtain ⟨inside,triggered⟩ := List.mem_filter.mp member
  obtain ⟨i,below,rfl⟩ := List.mem_mapIdx.mp inside
  exact ⟨of_decide_eq_true triggered,_,List.getElem_mem below,_,rfl⟩

end RulesList

/-! ### Alarms of a run -/

namespace Daemon
variable {platform : Platform} {a : Label} {s s' : Daemon}

/-- Only the check of a list makes jobs and events. -/
theorem jobs_frame (moved : Stepped platform s a s') (elsewhere : ∀ p, s.pc ≠ .triggers p) :
    s'.task_list = s.task_list ∧ s'.influx = s.influx := by
  cases moved with
  | load loaded => cases loaded <;> exact ⟨rfl,rfl⟩
  | watch watched =>
    cases watched with
    | checked here => exact absurd here (elsewhere _)
    | _ => exact ⟨rfl,rfl⟩
  | _ => exact ⟨rfl,rfl⟩

/-- A step makes the jobs and the events of some alarms, raised by rules of main. -/
theorem alarms_step (taken : step platform a s = some s') : ∃ alarms : List Alarm,
    s'.task_list = s.task_list ++ alarms.map (Alarm.job platform) ∧
      s'.influx = s.influx ++ alarms.map (Alarm.event platform) ∧
      ∀ alarm ∈ alarms, alarm.Triggered ∧ alarm.rule ∈ (s.main.list alarm.p).rules_ := by
  have none_raised (elsewhere : s'.task_list = s.task_list ∧ s'.influx = s.influx) : ∃ alarms : List Alarm,
      s'.task_list = s.task_list ++ alarms.map (Alarm.job platform) ∧
        s'.influx = s.influx ++ alarms.map (Alarm.event platform) ∧
        ∀ alarm ∈ alarms, alarm.Triggered ∧ alarm.rule ∈ (s.main.list alarm.p).rules_ :=
    ⟨[],by simp [elsewhere.1],by simp [elsewhere.2],fun _ member => absurd member List.not_mem_nil⟩
  by_cases here : ∃ p, s.pc = .triggers p
  · obtain ⟨p,here⟩ := here
    cases stepped taken with
    | @watch now clock s' _ =>
      simp only [step,here,reduceCtorEq,↓reduceIte,watch,Option.some.injEq] at taken
      subst taken
      refine ⟨(s.main.list p).raised clock,?_,?_,?_⟩
      · simp [RulesList.check_triggers_raised,Function.comp_def]
      · simp [RulesList.check_triggers_raised,Function.comp_def]
      · intro alarm member
        obtain ⟨triggered,r,inside,cur_time,rfl⟩ := RulesList.mem_raised member
        exact ⟨triggered,inside⟩
    | load loaded => cases loaded <;> exact none_raised ⟨rfl,rfl⟩
    | _ => exact none_raised ⟨rfl,rfl⟩
  · exact none_raised (jobs_frame (stepped taken) fun p at_p => here ⟨p,at_p⟩)

/-- The rules in use have been parsed from text, and jobs and events so far are those of
    the same alarms, each raised by such a rule. -/
structure Traced (platform : Platform) (s : Daemon) : Prop where
  made : MadeOf FromText s
  alarms : ∃ alarms : List Alarm, s.task_list = alarms.map (Alarm.job platform) ∧
    s.influx = alarms.map (Alarm.event platform) ∧
    ∀ alarm ∈ alarms, alarm.Triggered ∧ FromText alarm.p alarm.rule.entered

theorem traced_step (taken : step platform a s = some s') (words : FromWords a) (traced : Traced platform s) :
    Traced platform s' := by
  obtain ⟨made,alarms,jobs,events,raised⟩ := traced
  obtain ⟨more,more_jobs,more_events,more_raised⟩ := alarms_step taken
  refine ⟨madeOf_step (stepped taken) (enters_fromText words) made,alarms ++ more,?_,?_,?_⟩
  · rw [more_jobs,jobs,List.map_append]
  · rw [more_events,events,List.map_append]
  · intro alarm member
    rcases List.mem_append.mp member with old | new
    · exact raised alarm old
    · obtain ⟨triggered,inside⟩ := more_raised alarm new
      exact ⟨triggered,made.main alarm.p alarm.rule inside⟩

end Daemon

/-! ### What an alarm tells -/

/-- The rate is above the threshold, and the threshold's clock is behind by more than the
    period. -/
def Exceeds (trigger : UInt32) (rate : UInt64) (last_not_triggered : Int) (period : UInt32) (cur_time : Int) : Prop :=
  0 < trigger ∧ trigger.toUInt64 < rate ∧ (period.toNat : Int) < cur_time - last_not_triggered

theorem exceeds_of_threshold {trigger : UInt32} {rate : UInt64} {last : Int} {period : UInt32} {t : Int} {known : Bool}
    (raised : (threshold trigger rate last period t known).1 = true) : Exceeds trigger rate last period t ∧ known = true := by
  obtain ⟨set,elapsed⟩ := threshold_alarm raised
  obtain ⟨above,long⟩ := Debounce.check_elapsed elapsed
  rw [threshold_eq set,Bool.and_eq_true] at raised
  exact ⟨⟨set,of_decide_eq_true above,lt_sub_comm.mp long⟩,raised.2⟩

/-- The rule of the alarm has been parsed from text, one of its rates is above its threshold
    with the clock behind by more than the period, and the job, of a known type, names the
    rule's type and comment and an address that received most. -/
structure Alarm.Told (platform : Platform) (alarm : Alarm) : Prop where
  from_text : Daemon.FromText alarm.p alarm.rule.entered
  exceeds :
    Exceeds alarm.rule.pps_trigger alarm.rule.pps alarm.rule.pps_last_not_triggered alarm.rule.pps_trigger_period
        alarm.cur_time ∨
      Exceeds alarm.rule.bps_trigger alarm.rule.bps alarm.rule.bps_last_not_triggered alarm.rule.bps_trigger_period
        alarm.cur_time
  type_ : (alarm.job platform).type_ ∈ [("log" : Text),"script","syslog"]
  data_ : 0 < alarm.rule.dst_top.size ∧ ∃ top, alarm.rule.dst_top.Top top ∧
    (alarm.job platform).data_ = rule_type alarm.p ++ '|' :: platform.address_to_string top ++
      (if alarm.rule.comment = [] then [] else '|' :: alarm.rule.comment)

theorem alarm_told {platform : Platform} {alarm : Alarm} (triggered : alarm.Triggered)
    (from_text : Daemon.FromText alarm.p alarm.rule.entered) : alarm.Told platform := by
  obtain ⟨parsed_rule,parsed,same⟩ := from_text
  obtain ⟨type,act⟩ := parsed_act parsed
  have same_type : alarm.rule.rule_type = parsed_rule.rule_type := (congrArg (fun r => r.rule_type) same).symm
  have same_act : alarm.rule.act = parsed_rule.act := (congrArg (fun r => r.act) same).symm
  have checks : (Exceeds alarm.rule.pps_trigger alarm.rule.pps alarm.rule.pps_last_not_triggered
        alarm.rule.pps_trigger_period alarm.cur_time ∨
      Exceeds alarm.rule.bps_trigger alarm.rule.bps alarm.rule.bps_last_not_triggered
        alarm.rule.bps_trigger_period alarm.cur_time) ∧ decide (alarm.rule.dst_top.size > 0) = true := by
    unfold Alarm.Triggered BaseRule.is_triggered at triggered
    split_ifs at triggered with packets
    · obtain ⟨exceeds,known⟩ := exceeds_of_threshold packets
      exact ⟨.inl exceeds,known⟩
    · obtain ⟨exceeds,known⟩ := exceeds_of_threshold triggered
      exact ⟨.inr exceeds,known⟩
  refine ⟨⟨parsed_rule,parsed,same⟩,checks.1,?_,of_decide_eq_true checks.2,_,get_max_top _,?_⟩
  · show alarm.rule.act.type_ ∈ _
    rw [same_act]
    exact act
  · show alarm.rule.get_job_info platform = _
    rw [BaseRule.get_job_info,same_type,type]
    rfl

/-- `run` carries out the job of every alarm. -/
theorem Alarm.Told.effective {platform : Platform} {alarm : Alarm} (told : alarm.Told platform) :
    action.Effective (alarm.job platform) := by
  refine ⟨told.type_,?_⟩
  obtain ⟨_,top,_,data⟩ := told.data_
  rw [data]
  simp

/-! ### The machine -/

/-- The daemon, the job queue with `task_runner`, the events that the watcher has inserted,
    and what the jobs have done so far. -/
structure Pipeline where
  daemon : Daemon
  tasks : TaskQueue.State TriggerJob
  written : List Text
  effects : List action.Effect

namespace Pipeline

/-- The steps of the daemon; a push and an insert by the watcher; those of `task_runner`,
    the end of a job with what the job found outside. -/
inductive Label
  | daemon (a : DdosDetector.Label)
  | push (job : TriggerJob)
  | insert (event : Text)
  | wait_for
  | timeout
  | pop
  | finish (around : action.Surroundings)
  | interrupt

/-- The jobs that have been pushed, and those that the watcher has yet to push. -/
def pushed (s : Pipeline) : List TriggerJob := s.tasks.popped ++ s.tasks.data_queue
def unpushed (s : Pipeline) : List TriggerJob := s.daemon.task_list.drop s.pushed.length

/-- The events that it has yet to insert. -/
def unwritten (s : Pipeline) : List Text := s.daemon.influx.drop s.written.length

/-- The step of the job queue, if it is one. -/
def Label.task : Label → Option (TaskQueue.Label TriggerJob)
  | .daemon _ => none
  | .push job => some (.push job)
  | .insert _ => none
  | .wait_for => some .wait_for
  | .timeout => some .timeout
  | .pop => some .pop
  | .finish _ => some .finish
  | .interrupt => some .interrupt

/-- The step of the daemon, if it is one. -/
def Label.daemon_step : Label → Option DdosDetector.Label
  | .daemon a => some a
  | _ => none

/-- The watcher goes on only once its jobs are in the queue and their events are inserted. -/
def Ready (s : Pipeline) : DdosDetector.Label → Prop
  | .watch _ _ => s.unpushed = [] ∧ s.unwritten = []
  | _ => True

instance (s : Pipeline) : DecidablePred s.Ready
  | .watch _ _ => inferInstanceAs (Decidable (_ ∧ _))
  | .packet _ _ _ | .console _ _ | .reload _ _ | .load _ => isTrue trivial

/-- One step of the program, which is over once the watcher has ended. A job is pushed when
    the event of the one before it has been inserted, an event inserted after its job. -/
def step (platform : Platform) (a : Label) (s : Pipeline) : Option Pipeline :=
  if s.daemon.pc = .terminated then none
  else
    match a with
    | .daemon a =>
      if s.Ready a then (Daemon.step platform a s.daemon).map fun daemon => { s with daemon := daemon } else none
    | .push job =>
      if s.pushed.length = s.written.length ∧ s.unpushed.head? = some job then
        (TaskQueue.step (.push job) s.tasks).map fun tasks => { s with tasks := tasks }
      else none
    | .insert event =>
      if s.written.length < s.pushed.length ∧ s.unwritten.head? = some event then
        some { s with written := s.written ++ [event] }
      else none
    | .finish around =>
      match s.tasks.consumer with
      | .running job => (TaskQueue.step .finish s.tasks).map fun tasks =>
          { s with tasks := tasks, effects := s.effects ++ action.run around job }
      | _ => none
    | .wait_for => (TaskQueue.step .wait_for s.tasks).map fun tasks => { s with tasks := tasks }
    | .timeout => (TaskQueue.step .timeout s.tasks).map fun tasks => { s with tasks := tasks }
    | .pop => (TaskQueue.step .pop s.tasks).map fun tasks => { s with tasks := tasks }
    | .interrupt => (TaskQueue.step .interrupt s.tasks).map fun tasks => { s with tasks := tasks }

def start (daemon : Daemon) : Pipeline := ⟨daemon,TaskQueue.start,[],[]⟩

/-- The steps of the program, by the part that takes them. -/
inductive Stepped (platform : Platform) (s : Pipeline) : Label → Pipeline → Prop
  | daemon {a : DdosDetector.Label} {daemon : Daemon} (ready : s.Ready a)
      (taken : Daemon.step platform a s.daemon = some daemon) : Stepped platform s (.daemon a) { s with daemon := daemon }
  | push {job : TriggerJob} {tasks : TaskQueue.State TriggerJob} (turn : s.pushed.length = s.written.length)
      (next : s.unpushed.head? = some job) (taken : TaskQueue.Stepped s.tasks (.push job) tasks) :
      Stepped platform s (.push job) { s with tasks := tasks }
  | insert {event : Text} (turn : s.written.length < s.pushed.length) (next : s.unwritten.head? = some event) :
      Stepped platform s (.insert event) { s with written := s.written ++ [event] }
  | finish {around : action.Surroundings} {job : TriggerJob} {tasks : TaskQueue.State TriggerJob}
      (here : s.tasks.consumer = .running job) (taken : TaskQueue.Stepped s.tasks .finish tasks) :
      Stepped platform s (.finish around) { s with tasks := tasks, effects := s.effects ++ action.run around job }
  | consumer {a : Label} {b : TaskQueue.Label TriggerJob} {tasks : TaskQueue.State TriggerJob} (view : a.task = some b)
      (other : b.pushed = none ∧ b ≠ .finish) (taken : TaskQueue.Stepped s.tasks b tasks) :
      Stepped platform s a { s with tasks := tasks }

variable {platform : Platform} {a : Label} {s s' : Pipeline}

theorem stepped (taken : step platform a s = some s') : Stepped platform s a s' := by
  unfold step at taken
  split_ifs at taken with ended
  cases a with
  | daemon a =>
    simp only at taken
    split_ifs at taken with ready
    obtain ⟨daemon,moved,rfl⟩ := Option.map_eq_some_iff.mp taken
    exact .daemon ready moved
  | push job =>
    simp only at taken
    split_ifs at taken with next
    obtain ⟨tasks,moved,rfl⟩ := Option.map_eq_some_iff.mp taken
    exact .push next.1 next.2 (TaskQueue.step_eq_some_iff.mp moved)
  | insert event =>
    simp only at taken
    split_ifs at taken with next
    exact Option.some.inj taken ▸ .insert next.1 next.2
  | finish around =>
    cases here : s.tasks.consumer with
    | running job =>
      simp only [here] at taken
      obtain ⟨tasks,moved,rfl⟩ := Option.map_eq_some_iff.mp taken
      exact .finish here (TaskQueue.step_eq_some_iff.mp moved)
    | checking => simp [here] at taken
    | waiting => simp [here] at taken
    | woken => simp [here] at taken
    | ended => simp [here] at taken
  | wait_for | timeout | pop | interrupt =>
    obtain ⟨tasks,moved,rfl⟩ := Option.map_eq_some_iff.mp taken
    exact .consumer rfl ⟨rfl,by simp⟩ (TaskQueue.step_eq_some_iff.mp moved)

/-- A run of the program is one of the daemon, … -/
theorem daemon_projection (ok : Daemon → DdosDetector.Label → Prop) :
    Runs.Projection (step platform) (fun s a => ∀ b, a.daemon_step = some b → ok s.daemon b) (Daemon.step platform) ok
      Pipeline.daemon Label.daemon_step where
  moves {a} _ _ _ allowed taken view := by
    refine ⟨allowed _ view,?_⟩
    cases stepped taken with
    | daemon ready moved => exact Option.some.inj view ▸ moved
    | push => cases view
    | insert => cases view
    | finish => cases view
    | consumer task =>
      cases a with
      | daemon => cases task
      | _ => cases view
  stays _ taken view := by
    cases stepped taken with
    | daemon => cases view
    | _ => rfl

/-- … and one of the job queue. -/
theorem task_projection : Runs.Projection (step platform) (fun _ _ => True) TaskQueue.step (fun _ _ => True)
    Pipeline.tasks Label.task where
  moves _ taken view := by
    refine ⟨trivial,TaskQueue.step_eq_some_iff.mpr ?_⟩
    cases stepped taken with
    | daemon => cases view
    | insert => cases view
    | push turn next moved => exact Option.some.inj view ▸ moved
    | finish here moved => exact Option.some.inj view ▸ moved
    | consumer task other moved => exact Option.some.inj (task.symm.trans view) ▸ moved
  stays _ taken view := by
    cases stepped taken with
    | daemon => rfl
    | insert => rfl
    | push => cases view
    | finish => cases view
    | consumer task => cases task.symm.trans view

/-! ### Nothing is lost -/

/-- The jobs that have been run: those popped, without the one that is still running. -/
def finished (tasks : TaskQueue.State TriggerJob) : List TriggerJob :=
  match tasks.consumer with
  | .running _ => tasks.popped.dropLast
  | _ => tasks.popped

/-- What has been pushed are the first jobs of the watcher, what has been inserted the first
    of its events, one after each job; the job that runs is the last one popped, and each job
    that has been run has left behind what `run` does. -/
structure Kept (s : Pipeline) : Prop where
  pushed : s.pushed <+: s.daemon.task_list
  written : s.written <+: s.daemon.influx
  turns : s.pushed.length = s.written.length ∨ s.pushed.length = s.written.length + 1
  all_told : s.daemon.pc = .terminated → s.unpushed = [] ∧ s.unwritten = []
  current : ∀ job, s.tasks.consumer = .running job → ∃ before, s.tasks.popped = before ++ [job]
  effects : ∃ reports : List (List action.Effect), s.effects = reports.flatten ∧
    List.Forall₂ (fun job report => ∃ around, report = action.run around job) (finished s.tasks) reports

theorem kept_start {daemon : Daemon} (alive : daemon.pc ≠ .terminated) : Kept (start daemon) where
  pushed := List.nil_prefix
  written := List.nil_prefix
  turns := .inl rfl
  all_told ended := absurd ended alive
  current := fun _ here => by cases here
  effects := ⟨[],rfl,.nil⟩

/-- The first of what is left follows what is done. -/
theorem prefix_next {α : Type} {done whole : List α} {a : α} (so_far : done <+: whole)
    (next : (whole.drop done.length).head? = some a) : done ++ [a] <+: whole := by
  obtain ⟨rest,rfl⟩ := so_far
  rw [List.drop_left,List.head?_eq_some_iff] at next
  obtain ⟨more,rfl⟩ := next
  exact ⟨more,by simp⟩

/-- Only a step of the watcher can end it, and not its check. -/
theorem terminated_by {b : DdosDetector.Label} {daemon daemon' : Daemon}
    (taken : Daemon.step platform b daemon = some daemon') (ended : daemon'.pc = .terminated) :
    (∃ now clock, b = .watch now clock) ∧ ∀ p, daemon.pc ≠ .triggers p := by
  have alive : daemon.pc ≠ .terminated := by
    intro gone
    simp [Daemon.step,gone] at taken
  cases Daemon.stepped taken with
  | watch watched =>
    refine ⟨⟨_,_,rfl⟩,fun p here => ?_⟩
    cases watched with
    | @checked q _ _ _ =>
      rcases Daemon.visit_cases daemon 0 with visit | visit <;> cases q <;>
        simp [Daemon.checked,Proto.next,visit] at ended
    | equal at_pc | differ at_pc | copied at_pc | stamped at_pc | merged at_pc | failed at_pc | rated at_pc | saved at_pc
    | opened at_pc | closed at_pc | reread at_pc => cases at_pc.symm.trans here
  | load loaded => cases loaded <;> exact absurd ended alive
  | _ => exact absurd ended alive

/-- A step of the daemon may add alarms, and ends it only when all are told. -/
private theorem kept_daemon {b : DdosDetector.Label} {daemon : Daemon} (ready : s.Ready b)
    (moved : Daemon.step platform b s.daemon = some daemon) (kept : Kept s) : Kept { s with daemon := daemon } := by
  obtain ⟨alarms,jobs,events,_⟩ := Daemon.alarms_step moved
  refine ⟨?_,?_,kept.turns,fun ended => ?_,kept.current,kept.effects⟩
  · show s.pushed <+: daemon.task_list
    rw [jobs]
    exact kept.pushed.trans (List.prefix_append ..)
  · show s.written <+: daemon.influx
    rw [events]
    exact kept.written.trans (List.prefix_append ..)
  · obtain ⟨⟨now,clock,rfl⟩,elsewhere⟩ := terminated_by moved ended
    obtain ⟨same_jobs,same_events⟩ := Daemon.jobs_frame (Daemon.stepped moved) elsewhere
    show daemon.task_list.drop s.pushed.length = [] ∧ daemon.influx.drop s.written.length = []
    rw [same_jobs,same_events]
    exact ready

/-- One step loses no job and carries out at most the one that runs. -/
theorem kept_step (taken : step platform a s = some s') (kept : Kept s) : Kept s' := by
  have running := stepped taken
  have alive : s.daemon.pc ≠ .terminated := by
    intro gone
    simp [step,gone] at taken
  cases running with
  | @daemon b daemon ready moved => exact kept_daemon ready moved kept
  | @push job tasks turn next moved =>
    cases moved with
    | push =>
      have queued : s.pushed ++ [job] <+: s.daemon.task_list := prefix_next kept.pushed next
      refine ⟨?_,kept.written,.inr ?_,fun ended => absurd ended alive,fun other here => ?_,?_⟩
      · show s.tasks.popped ++ (s.tasks.data_queue ++ [job]) <+: s.daemon.task_list
        rw [← List.append_assoc]
        exact queued
      · rw [← turn]
        simp [pushed,Nat.add_assoc]
      · refine kept.current other ?_
        cases consumer : s.tasks.consumer <;> simp [consumer,TaskQueue.notify_one] at here ⊢
        exact here
      · have same : finished { s.tasks with
            data_queue := s.tasks.data_queue ++ [job], consumer := TaskQueue.notify_one s.tasks.consumer } =
            finished s.tasks := by
          cases consumer : s.tasks.consumer <;> simp [finished,consumer,TaskQueue.notify_one]
        rw [same]
        exact kept.effects
  | @insert event turn next =>
    refine ⟨kept.pushed,prefix_next kept.written next,.inl ?_,fun ended => absurd ended alive,kept.current,kept.effects⟩
    have turns := kept.turns
    simp only [List.length_append,List.length_singleton]
    show s.pushed.length = s.written.length + 1
    omega
  | @finish around job tasks here moved =>
    cases moved with
    | finish =>
      refine ⟨kept.pushed,kept.written,kept.turns,fun ended => absurd ended alive,fun _ there => by (cases there),?_⟩
      obtain ⟨before,popped⟩ := kept.current job here
      obtain ⟨reports,effects,each⟩ := kept.effects
      refine ⟨reports ++ [action.run around job],by simp [effects],?_⟩
      have earlier : finished s.tasks = before := by simp [finished,here,popped]
      simp only [finished,popped]
      rw [earlier] at each
      exact List.rel_append each (.cons ⟨around,rfl⟩ .nil)
  | @consumer a b tasks task other moved =>
    obtain ⟨no_push,no_finish⟩ := other
    cases moved with
    | push => cases no_push
    | finish => exact absurd rfl no_finish
    | wait_for here | timeout here | none_popped here | interrupt here =>
      refine ⟨kept.pushed,kept.written,kept.turns,fun ended => absurd ended alive,fun _ there => by (cases there),?_⟩
      have same := kept.effects
      simp only [finished,here] at same ⊢
      exact same
    | @popped value rest here front =>
      have queue : s.tasks.popped ++ [value] ++ rest = s.pushed := by simp [pushed,front]
      refine ⟨?_,kept.written,?_,fun ended => absurd ended alive,fun job there => ?_,?_⟩
      · show s.tasks.popped ++ [value] ++ rest <+: s.daemon.task_list
        rw [queue]
        exact kept.pushed
      · show (s.tasks.popped ++ [value] ++ rest).length = _ ∨ (s.tasks.popped ++ [value] ++ rest).length = _
        rw [queue]
        exact kept.turns
      · obtain rfl := TaskQueue.Consumer.running.inj there
        exact ⟨_,rfl⟩
      · have same := kept.effects
        simp only [finished,here,List.dropLast_concat] at same ⊢
        exact same

/-- What the watcher does to tell an alarm. -/
def Label.telling : Label → Bool
  | .push _ | .insert _ => true
  | _ => false

/-- A job can be pushed while one is left and the event of the one before it is inserted. -/
theorem push_next (platform : Platform) (alive : s.daemon.pc ≠ .terminated)
    (turn : s.pushed.length = s.written.length) {job : TriggerJob} (next : s.unpushed.head? = some job) :
    ∃ t, step platform (.push job) s = some t ∧ t.daemon = s.daemon ∧ t.unpushed = s.unpushed.tail ∧
      t.unwritten = s.unwritten := by
  have queued : ∃ tasks, TaskQueue.step (.push job) s.tasks = some tasks ∧ tasks.popped = s.tasks.popped ∧
      tasks.data_queue = s.tasks.data_queue ++ [job] := ⟨_,rfl,rfl,rfl⟩
  obtain ⟨tasks,taken,popped,queue⟩ := queued
  refine ⟨{ s with tasks := tasks },by simp [step,alive,turn,next,taken],rfl,?_,rfl⟩
  show s.daemon.task_list.drop (tasks.popped ++ tasks.data_queue).length = s.unpushed.tail
  rw [popped,queue,unpushed,List.tail_drop,← List.append_assoc,List.length_append]
  rfl

/-- An event can be inserted while one is left and its job is pushed. -/
theorem insert_next (platform : Platform) (alive : s.daemon.pc ≠ .terminated)
    (turn : s.written.length < s.pushed.length) {event : Text} (next : s.unwritten.head? = some event) :
    ∃ t, step platform (.insert event) s = some t ∧ t.daemon = s.daemon ∧ t.unpushed = s.unpushed ∧
      t.unwritten = s.unwritten.tail := by
  refine ⟨{ s with written := s.written ++ [event] },by simp [step,alive,turn,next],rfl,rfl,?_⟩
  show s.daemon.influx.drop (s.written ++ [event]).length = s.unwritten.tail
  rw [unwritten,List.tail_drop,List.length_append,List.length_singleton]

/-- The watcher can push the jobs that are left and insert their events, with no step of
    anybody else between them. -/
def Deliverable (platform : Platform) (s : Pipeline) : Prop :=
  ∃ labels t, Runs.Run (step platform) (fun _ a => a.telling = true) s labels t ∧ t.daemon = s.daemon ∧
    t.unpushed = [] ∧ t.unwritten = []

/-- A step of the watcher that tells an alarm leaves the rest deliverable, so it was before. -/
theorem deliverable_of_next {t : Pipeline} (telling : a.telling = true) (taken : step platform a s = some t)
    (same : t.daemon = s.daemon) (rest : Deliverable platform t) : Deliverable platform s := by
  obtain ⟨labels,u,run,stays,pushed,written⟩ := rest
  have first : Runs.Run (step platform) (fun _ a => a.telling = true) s ([] ++ [a]) t := .snoc .nil telling taken
  exact ⟨_,u,first.append run,stays.trans same,pushed,written⟩

/-- By induction on what is left. -/
theorem deliverable_of_kept (kept : Kept s) (beside : s.daemon.task_list.length = s.daemon.influx.length) :
    Deliverable platform s := by
  induction left : s.unpushed.length + s.unwritten.length generalizing s with
  | zero =>
    obtain ⟨no_job,no_event⟩ := Nat.add_eq_zero_iff.mp left
    exact ⟨[],s,.nil,rfl,List.length_eq_zero_iff.mp no_job,List.length_eq_zero_iff.mp no_event⟩
  | succ n ih =>
    have alive : s.daemon.pc ≠ .terminated := by
      intro gone
      obtain ⟨no_job,no_event⟩ := kept.all_told gone
      simp [no_job,no_event] at left
    have jobs : s.unpushed.length = s.daemon.task_list.length - s.pushed.length := List.length_drop
    have events : s.unwritten.length = s.daemon.influx.length - s.written.length := List.length_drop
    rcases kept.turns with turn | turn
    · obtain ⟨job,rest,front⟩ := List.exists_cons_of_length_pos (show 0 < s.unpushed.length by omega)
      obtain ⟨t,taken,same,left_jobs,left_events⟩ := push_next platform alive turn (by rw [front]; rfl)
      refine deliverable_of_next rfl taken same (ih (kept_step taken kept) (same ▸ beside) ?_)
      rw [left_jobs,left_events,List.length_tail]
      omega
    · obtain ⟨event,rest,front⟩ := List.exists_cons_of_length_pos (show 0 < s.unwritten.length by omega)
      obtain ⟨t,taken,same,left_jobs,left_events⟩ :=
        insert_next platform alive (show s.written.length < s.pushed.length by omega) (by rw [front]; rfl)
      refine deliverable_of_next rfl taken same (ih (kept_step taken kept) (same ▸ beside) ?_)
      rw [left_jobs,left_events,List.length_tail]
      omega

/-- The jobs pushed, then those yet to be pushed, are those of alarms that name what raised
    them, each once and in order; so are the events inserted and yet to be inserted, none
    ahead of its job and at most one behind; each job that has been run has reached the
    outside once, or the logger tells why not; and what is left can be told. -/
def AllTold (platform : Platform) (s : Pipeline) : Prop :=
  ∃ (alarms : List Alarm) (reports : List (List action.Effect)),
    (∀ alarm ∈ alarms, alarm.Told platform) ∧
    s.pushed ++ s.unpushed = alarms.map (Alarm.job platform) ∧
    s.written ++ s.unwritten = alarms.map (Alarm.event platform) ∧
    (s.pushed.length = s.written.length ∨ s.pushed.length = s.written.length + 1) ∧
    s.effects = reports.flatten ∧ List.Forall₂ action.Told (finished s.tasks) reports ∧
    Deliverable platform s

/-- Each job that has been run has reached the outside once, or the logger tells why not. -/
theorem Kept.all_run (kept : Kept s) (effective : ∀ job ∈ s.tasks.popped, action.Effective job) :
    ∃ reports : List (List action.Effect), s.effects = reports.flatten ∧
      List.Forall₂ action.Told (finished s.tasks) reports := by
  have popped : ∀ job ∈ finished s.tasks, job ∈ s.tasks.popped := by
    intro job member
    unfold finished at member
    split at member
    · exact List.mem_of_mem_dropLast member
    · exact member
  obtain ⟨reports,effects,each⟩ := kept.effects
  have runs : ∀ job ∈ finished s.tasks, action.Effective job := fun job member => effective job (popped job member)
  refine ⟨reports,effects,List.Forall₂.imp ?_ ((List.forall₂_and_left _ _).mpr ⟨runs,each⟩)⟩
  rintro job _ ⟨effective,around,rfl⟩
  exact (action.run_told_iff around job).mpr effective

/-- The sample rule above its threshold, with a destination. -/
def high_rule : TcpRule := { sample_rule with pps := 1000, dst_top := CountersList.increase {} 167772161 }

/-- A daemon about to check this rule. -/
def high_daemon : Daemon := { Daemon.sample_daemon with main := tcp_collection [high_rule], pc := .triggers .TCP }

/-- The alarm that it raises, and what `task_runner` finds when it runs the job. -/
def high_alarm : Alarm := ⟨.TCP,high_rule,20⟩
def no_answers : action.Surroundings := ⟨fun _ => false,fun _ => false,fun _ => 0⟩

/-- The check, the push of its job, the insert of its event, and the job. -/
def high_labels : List Label :=
  [.daemon (Daemon.tick 20),.push (high_alarm.job documented),.insert (high_alarm.event documented),
    .wait_for,.timeout,.pop,.finish no_answers]

theorem high_daemon_fromText : Daemon.MadeOf Daemon.FromText high_daemon := by
  refine ⟨?_,sample_fromText.threads,sample_fromText.buff⟩
  intro p r member
  cases p with
  | TCP =>
    refine ⟨sample_rule,sample_parsed,?_⟩
    rw [List.mem_singleton.mp member]
    rfl
  | UDP => cases member
  | ICMP => cases member

end Pipeline

/-! ### No job waits for ever -/

namespace TaskQueue
open Runs (Run)
variable {T : Type}

/-- The consumer's own steps. -/
def Label.own : Label T → Bool
  | .wait_for | .timeout | .pop | .finish => true
  | _ => false

/-- How many of them it takes to pop a job that is in the queue. -/
def to_pop : Consumer T → Nat
  | .running _ => 4
  | .checking => 3
  | .waiting => 2
  | .woken | .ended => 1

/-- Of the given jobs all that are left are in the queue, before any others. -/
structure Serving (jobs : List T) (s : State T) : Prop where
  first : jobs <+: s.popped ++ s.data_queue
  alive : s.consumer ≠ .ended

theorem serving_step {jobs : List T} {a : Label T} {s s' : State T} (stepped : Stepped s a s') (goes_on : a ≠ .interrupt)
    (serving : Serving jobs s) : Serving jobs s' := by
  refine ⟨?_,?_⟩
  · rw [step_fifo stepped]
    exact serving.first.trans (List.prefix_append ..)
  · cases stepped with
    | push =>
      have alive := serving.alive
      cases consumer : s.consumer <;> simp [consumer,notify_one] at alive ⊢
    | interrupt => exact absurd rfl goes_on
    | _ => simp

/-- What is popped stays popped. -/
theorem popped_step {a : Label T} {s s' : State T} (stepped : Stepped s a s') : s.popped <+: s'.popped := by
  cases stepped with
  | popped => exact List.prefix_append ..
  | _ => exact List.prefix_rfl

theorem popped_run {ok : State T → Label T → Prop} {s t : State T} {labels : List (Label T)} (run : Run step ok s labels t) :
    s.popped <+: t.popped := by
  induction run with
  | nil => exact List.prefix_rfl
  | snoc _ _ taken ih => exact ih.trans (popped_step (step_eq_some_iff.mp taken))

/-- Until all of the given jobs are popped, one of them is in the queue. -/
theorem Serving.left {jobs : List T} {s : State T} (serving : Serving jobs s) (undone : ¬ jobs <+: s.popped) :
    s.popped.length < jobs.length ∧ s.data_queue ≠ [] := by
  have short : s.popped.length < jobs.length := by
    by_contra long
    exact undone (List.prefix_of_prefix_length_le serving.first (List.prefix_append ..) (not_lt.mp long))
  refine ⟨short,?_⟩
  intro empty
  have first := serving.first
  rw [empty,List.append_nil] at first
  exact undone first

/-- Each step of the consumer brings it nearer to the last of the given jobs. -/
theorem serving_progress (jobs : List T) : Runs.Progress step (fun s a => Serving jobs s ∧ a ≠ .interrupt) Label.own
    (fun s => jobs <+: s.popped) fun s => 4 * (jobs.length - s.popped.length - 1) + to_pop s.consumer where
  own_step {a s s'} allowed taken own undone := by
    obtain ⟨short,some_job⟩ := allowed.1.left undone
    have serving' := serving_step (step_eq_some_iff.mp taken) allowed.2 allowed.1
    cases step_eq_some_iff.mp taken with
    | push => cases own
    | interrupt => cases own
    | wait_for here | timeout here | finish here => exact .inr (by simp [here,to_pop])
    | none_popped here empty => exact absurd empty some_job
    | @popped value rest here front =>
      by_cases last : jobs.length ≤ s.popped.length + 1
      · refine .inl (List.prefix_of_prefix_length_le serving'.first (List.prefix_append ..) ?_)
        simpa using last
      · refine .inr ?_
        simp only [List.length_append,List.length_singleton,here,to_pop]
        omega
  other_step {a s s'} allowed taken own undone := by
    cases step_eq_some_iff.mp taken with
    | push =>
      refine .inr (Nat.add_le_add_left ?_ _)
      cases s.consumer <;> simp [notify_one,to_pop]
    | interrupt => exact absurd rfl allowed.2
    | wait_for | timeout | finish | none_popped | popped => cases own
  stays_done _ taken ended := ended.trans (popped_step (step_eq_some_iff.mp taken))

/-- Four steps of the consumer for each job in the queue pop them all, whatever is pushed
    in between. -/
theorem served {s t : State T} {labels : List (Label T)} (alive : s.consumer ≠ .ended)
    (run : Run step (fun _ a => a ≠ .interrupt) s labels t) (enough : 4 * s.data_queue.length ≤ labels.countP Label.own) :
    s.popped ++ s.data_queue <+: t.popped := by
  by_cases none_left : s.data_queue = []
  · rw [none_left,List.append_nil]
    exact popped_run run
  have serving : Serving (s.popped ++ s.data_queue) s := ⟨List.prefix_rfl,alive⟩
  have strong : Run step (fun s' a => Serving (s.popped ++ s.data_queue) s' ∧ a ≠ .interrupt) s labels t :=
    run.strengthen serving (fun _ _ _ serving goes_on taken => serving_step (step_eq_some_iff.mp taken) goes_on serving)
      fun _ _ serving goes_on => ⟨serving,goes_on⟩
  have some_step : ∀ t : State T, ¬ (s.popped ++ s.data_queue <+: t.popped) →
      0 < 4 * ((s.popped ++ s.data_queue).length - t.popped.length - 1) + to_pop t.consumer := by
    intro t _
    cases t.consumer <;> simp [to_pop]
  refine (serving_progress (s.popped ++ s.data_queue)).done_of_count some_step strong ?_
  have some_job : 0 < s.data_queue.length := List.length_pos_iff.mpr none_left
  have last : to_pop s.consumer ≤ 4 := by cases s.consumer <;> simp [to_pop]
  rw [List.length_append]
  omega

end TaskQueue

namespace Pipeline

/-- A step that `task_runner` takes by itself. -/
def Label.own (a : Label) : Bool := a.task.any TaskQueue.Label.own

/-- However the steps of the others fall between those of `task_runner`, it runs the jobs
    that are in the queue within four steps of its own for each of them. -/
theorem jobs_served (platform : Platform) {s t : Pipeline} {labels : List Label} (alive : s.tasks.consumer ≠ .ended)
    (run : Runs.Run (step platform) (fun _ a => a ≠ .interrupt) s labels t)
    (enough : 4 * s.tasks.data_queue.length ≤ labels.countP Label.own) :
    s.tasks.popped ++ s.tasks.data_queue <+: t.tasks.popped := by
  have projection : Runs.Projection (step platform) (fun _ a => a ≠ .interrupt) TaskQueue.step (fun _ a => a ≠ .interrupt)
      Pipeline.tasks Label.task :=
    { moves := fun {a} _ _ _ goes_on taken view => by
        refine ⟨?_,(task_projection.moves trivial taken view).2⟩
        rintro rfl
        cases a with
        | interrupt => exact goes_on rfl
        | _ => cases view
      stays := fun _ taken view => task_projection.stays trivial taken view }
  refine TaskQueue.served alive (projection.run run) ?_
  have own : (labels.filterMap Label.task).countP TaskQueue.Label.own = labels.countP Label.own := by
    rw [List.countP_filterMap]
    refine List.countP_congr fun a _ => ?_
    cases task : a.task <;> simp [Label.own,task]
  rw [own]
  exact enough

/-- A queue of two jobs that nobody waits for, with their events inserted. -/
def two_jobs : Pipeline where
  daemon := { Daemon.sample_daemon with task_list := [TaskQueue.sample_job,TaskQueue.sample_job], influx := [[],[]] }
  tasks := ⟨[TaskQueue.sample_job,TaskQueue.sample_job],.checking,[]⟩
  written := [[],[]]
  effects := []

theorem jobs_served_two : ∃ t, Runs.Run (step documented) (fun _ a => a ≠ .interrupt) two_jobs
      [.wait_for,.timeout,.pop,.daemon (Daemon.tick 1),.finish no_answers,.wait_for,.timeout,.pop,.finish no_answers] t ∧
    [TaskQueue.sample_job,TaskQueue.sample_job] <+: t.tasks.popped := by
  obtain ⟨t,run⟩ : ∃ t, Runs.Run (step documented) (fun _ a => a ≠ .interrupt) two_jobs
      [.wait_for,.timeout,.pop,.daemon (Daemon.tick 1),.finish no_answers,.wait_for,.timeout,.pop,.finish no_answers] t :=
    ⟨_,.of_runFrom_free (by simp) rfl⟩
  exact ⟨t,run,jobs_served documented (by simp [two_jobs]) run (by decide)⟩

end Pipeline
end DdosDetector
