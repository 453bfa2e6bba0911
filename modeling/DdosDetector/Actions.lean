import DdosDetector.Equality
import DdosDetector.JobScript

/-!
`action.cpp`: what a trigger job does when `task_runner` runs it, as the list of what
reaches the outside and the logger. The answers of the outside are given with each run,
since files come and go between two jobs.
-/
namespace DdosDetector
namespace action

/-- What a job finds outside: whether a file can be opened to append to it, whether it
    is executable, and what `system` returns. -/
structure Surroundings where
  opens : Text → Bool
  is_executable : Text → Bool
  system : Text → Int

/-- What a job does: a message to the logger, a text appended to a file, a command given
    to `system`, a message to the system log. -/
inductive Effect
  | debug (message : Text)
  | error (message : Text)
  | append (file text : Text)
  | system (command : Text)
  | syslog (message : Text)
deriving DecidableEq

def job_log (around : Surroundings) (to_ data : Text) : List Effect :=
  .debug ("JOB_LOG: ".toList ++ to_ ++ " ".toList ++ data) ::
    if around.opens to_ then
      [.append (ControlSession.c_str to_) ("ddosdetector trigger alarm: ".toList ++ data ++ "\n".toList)]
    else [.error ("do not have access to the log file ".toList ++ to_)]

def job_script (around : Surroundings) (to_ data : Text) : List Effect :=
  let cmd := ControlSession.c_str (script_command to_ data)
  .debug ("JOB_SCRIPT: ".toList ++ to_ ++ " ".toList ++ data) ::
    if around.is_executable to_ then
      .system cmd ::
        if around.system cmd = -1 then
          [.error ("run command: ".toList ++ to_ ++ " ".toList ++ data ++ " failed".toList)]
        else []
    else
      [.error ("Script ".toList ++ to_ ++ " don't exist or don't executable.".toList
        ++ "Please check executable flag.".toList)]

def job_syslog (_ : Surroundings) (to_ data : Text) : List Effect :=
  [.debug ("JOB_SYSLOG: ".toList ++ to_ ++ " ".toList ++ data),
    .syslog ("ddosdetector trigger alarm: ".toList ++ ControlSession.c_str data)]

/-- `type_list::jobs`. -/
def jobs : List (Text × (Surroundings → Text → Text → List Effect)) :=
  [("log",job_log),("script",job_script),("syslog",job_syslog)]

/-- `TriggerJob::run`: nothing, for an unknown type and for no data. -/
def run (around : Surroundings) (job : TriggerJob) : List Effect :=
  match jobs.lookup job.type_ with
  | some job_function => if job.data_ ≠ [] then job_function around job.file_ job.data_ else []
  | none => []

theorem lookup_cons_ite {α β : Type} [BEq α] [LawfulBEq α] [DecidableEq α] (a k : α) (b : β) (rest : List (α × β)) :
    ((k,b) :: rest).lookup a = if a = k then some b else rest.lookup a := by
  rw [List.lookup_cons]
  split_ifs with same
  · rw [same,beq_self_eq_true]
  · rw [beq_eq_false_iff_ne.mpr same]

theorem lookup_jobs (type : Text) : jobs.lookup type =
    if type = "log" then some job_log else if type = "script" then some job_script
    else if type = "syslog" then some job_syslog else none := by
  simp only [jobs,lookup_cons_ite,List.lookup_nil]

/-- The command that an effect gives to `system`. -/
def Effect.command : Effect → Option Text
  | .system command => some command
  | _ => none

theorem commands_job_log (around : Surroundings) (to_ data : Text) :
    (job_log around to_ data).filterMap Effect.command = [] := by
  unfold job_log
  split_ifs <;> rfl

theorem commands_job_script (around : Surroundings) (to_ data : Text) :
    (job_script around to_ data).filterMap Effect.command =
      (DdosDetector.job_script around.is_executable to_ data).toList := by
  simp only [job_script,DdosDetector.job_script]
  split_ifs <;> rfl

/-- The only commands of a job are those of its script. -/
theorem run_commands (around : Surroundings) (job : TriggerJob) :
    (run around job).filterMap Effect.command = (job.run around.is_executable).toList := by
  have log_or_script : ("log" : Text) ≠ "script" := by decide
  have syslog_or_script : ("syslog" : Text) ≠ "script" := by decide
  rw [run,lookup_jobs,TriggerJob.run]
  generalize job.type_ = type
  by_cases data : job.data_ = []
  · have nothing : ¬ (type = "script" ∧ job.data_ ≠ []) := fun both => both.2 data
    rw [if_neg nothing]
    simp only [data,ne_eq,not_true_eq_false,↓reduceIte]
    split <;> rfl
  · simp only [data,ne_eq,not_false_eq_true,and_true,↓reduceIte]
    split_ifs with log script syslog other
    · exact absurd (log.symm.trans script) log_or_script
    · exact commands_job_log ..
    · exact commands_job_script ..
    · rfl
    · rfl

/-! ### What a job leaves behind -/

/-- Something outside the program gets to know of the effect. -/
def Effect.outward : Effect → Bool
  | .append _ _ | .system _ | .syslog _ => true
  | _ => false

/-- What a job is there to leave outside, by its type. -/
def sent (job : TriggerJob) : Effect :=
  if job.type_ = "log" then
    .append (ControlSession.c_str job.file_) ("ddosdetector trigger alarm: ".toList ++ job.data_ ++ "\n".toList)
  else if job.type_ = "script" then .system (ControlSession.c_str (script_command job.file_ job.data_))
  else .syslog ("ddosdetector trigger alarm: ".toList ++ ControlSession.c_str job.data_)

/-- The effects have the job reach the outside once, or tell the logger why it did not. -/
def Told (job : TriggerJob) (effects : List Effect) : Prop :=
  effects.filter Effect.outward = [sent job] ∨
    effects.filter Effect.outward = [] ∧ ∃ message, Effect.error message ∈ effects

theorem told_job_log (around : Surroundings) {job : TriggerJob} (log : job.type_ = "log") :
    Told job (job_log around job.file_ job.data_) := by
  rw [Told,sent,if_pos log,job_log]
  split_ifs with opens
  · exact .inl rfl
  · exact .inr ⟨rfl,_,List.mem_cons_of_mem _ (List.mem_singleton_self _)⟩

theorem told_job_script (around : Surroundings) {job : TriggerJob} (script : job.type_ = "script") :
    Told job (job_script around job.file_ job.data_) := by
  have other : job.type_ ≠ "log" := by
    rw [script]
    decide
  simp only [Told,sent,if_neg other,if_pos script,job_script]
  split_ifs
  · exact .inl rfl
  · exact .inl rfl
  · exact .inr ⟨rfl,_,List.mem_cons_of_mem _ (List.mem_singleton_self _)⟩

theorem told_job_syslog (around : Surroundings) {job : TriggerJob} (syslog : job.type_ = "syslog") :
    Told job (job_syslog around job.file_ job.data_) := by
  have not_log : job.type_ ≠ "log" := by
    rw [syslog]
    decide
  have not_script : job.type_ ≠ "script" := by
    rw [syslog]
    decide
  rw [Told,sent,if_neg not_log,if_neg not_script]
  exact .inl rfl

/-- A job that `run` carries out. -/
def Effective (job : TriggerJob) : Prop := job.type_ ∈ [("log" : Text),"script","syslog"] ∧ job.data_ ≠ []

/-- Every other job is dropped without a word. -/
theorem run_told_iff (around : Surroundings) (job : TriggerJob) : Told job (run around job) ↔ Effective job := by
  rw [run,lookup_jobs,Effective]
  by_cases data : job.data_ = []
  · refine iff_of_false ?_ fun both => both.2 data
    have nothing : ¬ Told job [] := by simp [Told]
    simp only [data,ne_eq,not_true_eq_false,↓reduceIte]
    split <;> exact nothing
  · simp only [data,ne_eq,not_false_eq_true,and_true,↓reduceIte,List.mem_cons,List.not_mem_nil,or_false]
    split_ifs with log script syslog
    · exact iff_of_true (told_job_log around log) (.inl log)
    · exact iff_of_true (told_job_script around script) (.inr (.inl script))
    · exact iff_of_true (told_job_syslog around syslog) (.inr (.inr syslog))
    · refine iff_of_false ?_ fun known => known.elim log fun other => other.elim script syslog
      simp [Told]

/-! ### The jobs of rules -/

theorem make_type {type file : Text} {act : Action} (made : Action.make type file = .ok act) :
    act.type_ ∈ [("log" : Text),"script","syslog"] := by
  unfold Action.make at made
  split_ifs at made with known
  exact Except.ok.inj made ▸ known

theorem action_from_string_type {platform : Platform} {value : Text} {act : Action}
    (read : action_from_string platform value = .ok act) : act.type_ ∈ [("log" : Text),"script","syslog"] := by
  obtain ⟨words,_,made⟩ := bind_ok read
  split at made
  · exact make_type made
  · exact make_type made
  · cases made

end action

/-- What `parse` takes for the type of the rules of a protocol. -/
def rule_type : Proto → Text
  | .TCP => "tcp"
  | .UDP => "udp"
  | .ICMP => "icmp"

theorem base_parse_act {platform : Platform} {vm : variables_map} {r made : BaseRule}
    (parsed : r.BaseRule_parse platform vm = .ok made) :
    made.rule_type = r.rule_type ∧
      given (vm.value "action") r.act (action_from_string platform) = .ok made.act := by
  obtain ⟨pps_trigger,_,parsed⟩ := bind_ok parsed
  obtain ⟨bps_trigger,_,parsed⟩ := bind_ok parsed
  obtain ⟨act,act_read,parsed⟩ := bind_ok parsed
  by_cases none : pps_trigger = 0 ∧ bps_trigger = 0
  · simp only [none] at parsed
    cases parsed
  · simp only [none,↓reduceIte] at parsed
    split_ifs at parsed
    all_goals cases parsed
    exact ⟨rfl,act_read⟩

theorem parse_base_act {F : Type} {platform : Platform} {rule_type : Text} {opt : options_description} {r : Rule F}
    {made : Rule F × variables_map} (parsed : r.parse_base platform rule_type opt = .ok made) :
    made.1.rule_type = rule_type ∧
      given (made.2.value "action") r.act (action_from_string platform) = .ok made.1.act := by
  obtain ⟨vm,_,parsed⟩ := bind_ok parsed
  obtain ⟨ipv4,_,parsed⟩ := bind_ok parsed
  obtain ⟨base,base_read,parsed⟩ := bind_ok parsed
  obtain rfl := Except.ok.inj parsed
  exact base_parse_act base_read

/-- `parse` changes neither the type nor the action of a rule after its base part. -/
theorem parse_act {platform : Platform} {opt : options_description} {p : Proto} {r made : Rule (Fields p)}
    (parsed : ProtoRule.parse platform opt r = .ok made) : made.rule_type = rule_type p ∧
      ∃ vm, given (variables_map.value vm "action") r.act (action_from_string platform) = .ok made.act := by
  cases p with
  | TCP =>
    obtain ⟨⟨base,vm⟩,made_base,parsed⟩ := bind_ok parsed
    have act := parse_base_act made_base
    obtain ⟨_,_,parsed⟩ := bind_ok parsed
    obtain ⟨_,_,parsed⟩ := bind_ok parsed
    obtain ⟨_,_,parsed⟩ := bind_ok parsed
    obtain ⟨_,_,parsed⟩ := bind_ok parsed
    obtain ⟨_,_,parsed⟩ := bind_ok parsed
    obtain ⟨_,_,parsed⟩ := bind_ok parsed
    obtain ⟨_,_,parsed⟩ := bind_ok parsed
    obtain rfl := Except.ok.inj parsed
    exact ⟨act.1,vm,act.2⟩
  | UDP =>
    obtain ⟨⟨base,vm⟩,made_base,parsed⟩ := bind_ok parsed
    have act := parse_base_act made_base
    obtain ⟨_,_,parsed⟩ := bind_ok parsed
    obtain ⟨_,_,parsed⟩ := bind_ok parsed
    obtain ⟨_,_,parsed⟩ := bind_ok parsed
    obtain rfl := Except.ok.inj parsed
    exact ⟨act.1,vm,act.2⟩
  | ICMP =>
    obtain ⟨⟨base,vm⟩,made_base,parsed⟩ := bind_ok parsed
    have act := parse_base_act made_base
    obtain ⟨_,_,parsed⟩ := bind_ok parsed
    obtain ⟨_,_,parsed⟩ := bind_ok parsed
    obtain rfl := Except.ok.inj parsed
    exact ⟨act.1,vm,act.2⟩

/-- A rule that is parsed from text has its protocol's type and an action of a known type. -/
theorem parsed_act {p : Proto} {r : Rule (Fields p)} (parsed : Parsed r) :
    r.rule_type = rule_type p ∧ r.act.type_ ∈ [("log" : Text),"script","syslog"] := by
  obtain ⟨platform,opt,tokens,read⟩ := parsed
  obtain ⟨type,vm,act⟩ := parse_act read
  refine ⟨type,?_⟩
  cases option : vm.value "action" with
  | some value =>
    rw [option] at act
    exact action.action_from_string_type act
  | none =>
    rw [option] at act
    have default : (ProtoRule.new tokens : Rule (Fields p)).act = {} := by cases p <;> rfl
    rw [← Except.ok.inj act,default]
    simp

end DdosDetector
