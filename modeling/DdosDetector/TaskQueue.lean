import DdosDetector.BaseRule
import DdosDetector.Runs

/-!
The job queue between the watcher, which pushes, and the loop of `task_runner`, which
waits and pops. `wait_and_pop` waits before it looks into the queue, so that a job that
came while nobody waited is found only after the next notification or the timeout.
-/
namespace DdosDetector.TaskQueue
open Runs (Run)
variable {T : Type}

/-- Where the loop of `task_runner` is: at its interruption point, asleep in `wait_for`,
    on its way out of it, with a job to run, or past its end. -/
inductive Consumer (T : Type)
  | checking
  | waiting
  | woken
  | running (cur_job : T)
  | ended
deriving DecidableEq

/-- `ts_queue<T>` and its only consumer, with the jobs popped so far. -/
structure State (T : Type) where
  data_queue : List T
  consumer : Consumer T
  popped : List T
deriving DecidableEq

/-- One step under the mutex, or of the consumer outside of it: a push; the start of
    `wait_for`, which gives the mutex back; the end of the wait without a notification;
    the rest of `wait_and_pop`, once the mutex is taken again; the end of a job; an
    interruption. -/
inductive Label (T : Type)
  | push (new_value : T)
  | wait_for
  | timeout
  | pop
  | finish
  | interrupt
deriving DecidableEq

/-- `notify_one` wakes the consumer only if it is asleep. -/
def notify_one : Consumer T → Consumer T
  | .waiting => .woken
  | consumer => consumer

def step : Label T → State T → Option (State T)
  | .push new_value, s =>
    some { s with data_queue := s.data_queue ++ [new_value], consumer := notify_one s.consumer }
  | .wait_for, s => if s.consumer matches .checking then some { s with consumer := .waiting } else none
  | .timeout, s => if s.consumer matches .waiting then some { s with consumer := .woken } else none
  | .pop, s =>
    match s.consumer, s.data_queue with
    | .woken, [] => some { s with consumer := .checking }
    | .woken, value :: rest =>
      some { data_queue := rest, consumer := .running value, popped := s.popped ++ [value] }
    | _, _ => none
  | .finish, s => if s.consumer matches .running _ then some { s with consumer := .checking } else none
  | .interrupt, s => if s.consumer matches .checking then some { s with consumer := .ended } else none

/-- An empty queue, and the consumer before its first wait. -/
def start : State T := ⟨[],.checking,[]⟩

/-! ### What a step can be -/

inductive Stepped (s : State T) : Label T → State T → Prop
  | push (new_value : T) : Stepped s (.push new_value)
      { s with data_queue := s.data_queue ++ [new_value], consumer := notify_one s.consumer }
  | wait_for (here : s.consumer = .checking) : Stepped s .wait_for { s with consumer := .waiting }
  | timeout (here : s.consumer = .waiting) : Stepped s .timeout { s with consumer := .woken }
  | none_popped (here : s.consumer = .woken) (empty : s.data_queue = []) :
      Stepped s .pop { s with consumer := .checking }
  | popped {value : T} {rest : List T} (here : s.consumer = .woken) (front : s.data_queue = value :: rest) :
      Stepped s .pop { data_queue := rest, consumer := .running value, popped := s.popped ++ [value] }
  | finish {cur_job : T} (here : s.consumer = .running cur_job) : Stepped s .finish { s with consumer := .checking }
  | interrupt (here : s.consumer = .checking) : Stepped s .interrupt { s with consumer := .ended }

theorem step_eq_some_iff {a : Label T} {s s' : State T} : step a s = some s' ↔ Stepped s a s' := by
  obtain ⟨queue,consumer,popped⟩ := s
  constructor
  · intro taken
    cases a with
    | push new_value => exact Option.some.inj taken ▸ .push new_value
    | pop =>
      cases consumer with
      | woken =>
        cases queue with
        | nil => exact Option.some.inj taken ▸ .none_popped rfl rfl
        | cons value rest => exact Option.some.inj taken ▸ .popped rfl rfl
      | checking | waiting | running cur_job | ended => cases taken
    | wait_for =>
      cases consumer with
      | checking => exact Option.some.inj taken ▸ .wait_for rfl
      | woken | waiting | running cur_job | ended => cases taken
    | timeout =>
      cases consumer with
      | waiting => exact Option.some.inj taken ▸ .timeout rfl
      | woken | checking | running cur_job | ended => cases taken
    | finish =>
      cases consumer with
      | running cur_job => exact Option.some.inj taken ▸ .finish rfl
      | woken | checking | waiting | ended => cases taken
    | interrupt =>
      cases consumer with
      | checking => exact Option.some.inj taken ▸ .interrupt rfl
      | woken | waiting | running cur_job | ended => cases taken
  · intro stepped
    cases stepped with
    | push new_value => rfl
    | wait_for here | timeout here | finish here | interrupt here => obtain rfl := here; rfl
    | none_popped here empty => obtain rfl := here; obtain rfl := empty; rfl
    | popped here front => obtain rfl := here; obtain rfl := front; rfl

/-! ### First in, first out -/

/-- The job that a step pushes. -/
def Label.pushed : Label T → Option T
  | .push new_value => some new_value
  | _ => none

theorem step_fifo {a : Label T} {s s' : State T} (stepped : Stepped s a s') :
    s'.popped ++ s'.data_queue = s.popped ++ s.data_queue ++ a.pushed.toList := by
  cases stepped with
  | push new_value => simp [Label.pushed]
  | popped here front => simp [Label.pushed,front]
  | wait_for here | timeout here | finish here | interrupt here | none_popped here empty => simp [Label.pushed]

/-- The popped jobs and those in the queue are all that were pushed, in order. -/
theorem run_fifo {labels : List (Label T)} {s : State T} (run : Run step (fun _ _ => True) start labels s) :
    s.popped ++ s.data_queue = labels.filterMap Label.pushed := by
  induction run with
  | nil => rfl
  | @snoc labels s s' a _ _ taken ih =>
    rw [step_fifo (step_eq_some_iff.mp taken),ih,List.filterMap_append]
    cases pushed : a.pushed <;> simp [pushed]

/-! ### Lost wake-ups -/

/-- The consumer is not asleep, without a notification, while there are jobs. -/
def NoneLost (s : State T) : Prop := s.consumer = .waiting → s.data_queue = []

/-- A push finds an empty queue and the consumer in its wait, unless it has ended. -/
def Awaited (s : State T) : Label T → Prop
  | .push _ => s.consumer = .ended ∨ (s.data_queue = [] ∧ (s.consumer = .waiting ∨ s.consumer = .woken))
  | _ => True

/-- Jobs are in the queue only while the consumer is on its way to them, one at a time. -/
def Prompt (s : State T) : Prop :=
  s.data_queue ≠ [] → s.consumer = .ended ∨ (s.consumer = .woken ∧ s.data_queue.length = 1)

theorem Prompt.noneLost {s : State T} (prompt : Prompt s) : NoneLost s := by
  intro asleep
  by_contra jobs
  rcases prompt jobs with ended | ⟨woken,_⟩
  · cases asleep.symm.trans ended
  · cases asleep.symm.trans woken

theorem step_prompt {a : Label T} {s s' : State T} (prompt : Prompt s) (awaited : Awaited s a)
    (stepped : Stepped s a s') : Prompt s' := by
  cases stepped with
  | push new_value =>
    intro _
    rcases awaited with ended | ⟨empty,waiting | woken⟩
    · exact .inl (by simp [ended,notify_one])
    · exact .inr (by simp [waiting,empty,notify_one])
    · exact .inr (by simp [woken,empty,notify_one])
  | timeout here =>
    intro jobs
    exact absurd (prompt.noneLost here) jobs
  | popped here front =>
    intro jobs
    rcases prompt (by simp [front]) with ended | ⟨_,one⟩
    · cases here.symm.trans ended
    · exact absurd (by simpa [front] using one) jobs
  | none_popped here empty => exact fun jobs => absurd empty jobs
  | wait_for here | finish here | interrupt here =>
    intro jobs
    rcases prompt jobs with ended | ⟨woken,_⟩
    · cases here.symm.trans ended
    · cases here.symm.trans woken

/-- The steps that the consumer takes without being told to end. -/
def Label.Consuming : Label T → Prop
  | .wait_for | .pop | .finish => True
  | _ => False

/-- A consumer that is not in its wait falls asleep on the jobs in the queue. -/
theorem asleep_on_jobs {s : State T} (jobs : s.data_queue ≠ []) (away : s.consumer = .checking ∨ ∃ job, s.consumer = .running job) :
    ∃ more t, Run step (fun _ a => a.Consuming) s more t ∧ ¬ NoneLost t := by
  obtain ⟨queue,consumer,popped⟩ := s
  rcases away with rfl | ⟨job,rfl⟩
  · exact ⟨[.wait_for],⟨queue,.waiting,popped⟩,.snoc .nil trivial rfl,fun none_lost => jobs (none_lost rfl)⟩
  · refine ⟨[.finish,.wait_for],⟨queue,.waiting,popped⟩,?_,fun none_lost => jobs (none_lost rfl)⟩
    exact .snoc (.snoc .nil trivial rfl) trivial rfl

/-- After a push that was not awaited the consumer falls asleep on a job, if it goes on
    alone. -/
theorem unawaited_lost {s s' : State T} {new_value : T} (unawaited : ¬ Awaited s (.push new_value))
    (stepped : Stepped s (.push new_value) s') :
    ∃ more t, Run step (fun _ a => a.Consuming) s' more t ∧ ¬ NoneLost t := by
  cases stepped
  obtain ⟨queue,consumer,popped⟩ := s
  have slept : ∀ {value : T} {rest : List T}, ∃ more t,
      Run step (fun _ a => a.Consuming) ⟨value :: rest ++ [new_value],.woken,popped⟩ more t ∧ ¬ NoneLost t := by
    intro value rest
    refine ⟨[.pop,.finish,.wait_for],⟨rest ++ [new_value],.waiting,popped ++ [value]⟩,?_,fun none_lost => ?_⟩
    · exact .snoc (.snoc (.snoc .nil trivial rfl) trivial rfl) trivial rfl
    · exact absurd (none_lost rfl) (by simp)
  cases consumer with
  | checking => exact asleep_on_jobs (by simp) (.inl rfl)
  | running job => exact asleep_on_jobs (by simp) (.inr ⟨job,rfl⟩)
  | ended => exact absurd (.inl rfl) unawaited
  | waiting =>
    cases queue with
    | nil => exact absurd (.inr ⟨rfl,.inl rfl⟩) unawaited
    | cons value rest => exact slept
  | woken =>
    cases queue with
    | nil => exact absurd (.inr ⟨rfl,.inr rfl⟩) unawaited
    | cons value rest => exact slept

/-- Jobs are popped in the order in which they are pushed. No wake-up is lost in a run
    in which every push is awaited; after one that is not, the consumer, left alone,
    falls asleep on a job. -/
theorem none_lost_of_awaited :
    (∀ (labels : List (Label T)) (s : State T), Run step (fun _ _ => True) start labels s →
      s.popped <+: labels.filterMap Label.pushed) ∧
    (∀ (labels : List (Label T)) (s : State T), Run step Awaited start labels s → NoneLost s) ∧
    ∀ (labels : List (Label T)) (s : State T) (new_value : T), Run step (fun _ _ => True) start labels s →
      ¬ Awaited s (.push new_value) → ∃ s', step (.push new_value) s = some s' ∧
        ∃ more t, Run step (fun _ a => a.Consuming) s' more t ∧ ¬ NoneLost t := by
  refine ⟨fun labels s run => ?_,fun labels s run => ?_,fun labels s new_value _ unawaited => ?_⟩
  · rw [← run_fifo run]
    exact List.prefix_append ..
  · have prompt : Prompt s := run.invariant (fun jobs => absurd rfl jobs)
      fun s a s' prompt awaited taken => step_prompt prompt awaited (step_eq_some_iff.mp taken)
    exact prompt.noneLost
  · exact ⟨_,rfl,unawaited_lost unawaited (step_eq_some_iff.mp rfl)⟩

/-- A job to be logged. -/
def sample_job : TriggerJob := { data_ := "tcp|10.0.0.1|" }

/-- Of two jobs that come while the consumer waits, it sleeps on the second. -/
theorem second_job_lost :
    Run step (fun _ _ => True) (start : State TriggerJob)
        [.wait_for,.push sample_job,.push sample_job,.pop,.finish,.wait_for] ⟨[sample_job],.waiting,[sample_job]⟩ ∧
      ¬ NoneLost (⟨[sample_job],.waiting,[sample_job]⟩ : State TriggerJob) := by
  refine ⟨Run.of_runFrom_free (fun _ _ _ => trivial) rfl,fun none_lost => ?_⟩
  cases none_lost rfl

/-- One job that is awaited, and one that comes before the first wait. -/
theorem none_lost_of_awaited_sample :
    [sample_job] <+: [sample_job] ∧ NoneLost (⟨[],.running sample_job,[sample_job]⟩ : State TriggerJob) ∧
      ∃ s', step (.push sample_job) start = some s' ∧
        ∃ more t, Run step (fun _ a => a.Consuming) s' more t ∧ ¬ NoneLost t := by
  obtain ⟨fifo,awaited,unawaited⟩ := none_lost_of_awaited (T := TriggerJob)
  have run : Run step Awaited start [.wait_for,.push sample_job,.pop] ⟨[],.running sample_job,[sample_job]⟩ :=
    .snoc (.snoc (.snoc .nil trivial rfl) (.inr ⟨rfl,.inl rfl⟩) rfl) trivial rfl
  have free : Run step (fun _ _ => True) start [.wait_for,.push sample_job,.pop] ⟨[],.running sample_job,[sample_job]⟩ :=
    .snoc (.snoc (.snoc .nil trivial rfl) trivial rfl) trivial rfl
  exact ⟨fifo _ _ free,awaited _ _ run,unawaited [] start sample_job .nil (by simp [Awaited,start])⟩

end DdosDetector.TaskQueue
