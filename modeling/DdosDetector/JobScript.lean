import DdosDetector.Control
import DdosDetector.Shell

/-!
The command line of a script job, as the shell reads it. `job_script` puts the data
between double quotes as it is, so that what the data is to the shell depends on the
characters that stay special there.
-/
namespace DdosDetector

/-- `cmd` of `job_script`, whose `to` is the file of the action. -/
def script_command (file_ data : Text) : Text := file_ ++ " \"".toList ++ data ++ "\" > /dev/null 2>&1 &".toList

/-- What `job_script` calls `system` with, if it does. -/
def job_script (is_executable : Text → Bool) (file_ data : Text) : Option Text :=
  if is_executable file_ then some (ControlSession.c_str (script_command file_ data)) else none

/-- What `TriggerJob::run` calls `system` with. -/
def TriggerJob.run (is_executable : Text → Bool) (job : TriggerJob) : Option Text :=
  if job.type_ = "script" ∧ job.data_ ≠ [] then job_script is_executable job.file_ job.data_ else none

def dev_null : Text := ['/','d','e','v','/','n','u','l','l']

/-- The program with the data as its only argument, in the background and silent. -/
def script_call (file_ data : Text) : Shell.Command where
  words := [file_,data]
  redirections := [⟨[],['>'],dev_null⟩,⟨['2'],['>','&'],['1']⟩]
  background := true

/-- The shell runs the program at the path with the data as its only argument, and nothing
    else. -/
def RunsScript (is_executable : Text → Bool) (file_ data : Text) : Prop :=
  (job_script is_executable file_ data).bind Shell.read = some [script_call file_ data] ∧
    (script_call file_ data).path = some file_

theorem script_call_path (file_ data : Text) : (script_call file_ data).path = some file_ ↔ '/' ∈ file_ := by
  simp [script_call,Shell.Command.path,Option.filter]

/-- A path that needs no quotes. -/
def PlainPath (file_ : Text) : Prop := ∀ c ∈ file_, c ∉ Shell.special ∧ c ≠ '\x00'

/-- What follows the data and its quote. -/
def silenced : Text := [' ','>',' '] ++ dev_null ++ [' ','2','>','&','1',' ','&']

theorem script_command_eq (file_ data : Text) :
    script_command file_ data = (file_ ++ [' ','"']) ++ ((data ++ ['"']) ++ silenced) := by
  have quote : " \"".toList = [' ','"'] := rfl
  have rest : "\" > /dev/null 2>&1 &".toList = ['"'] ++ silenced := rfl
  rw [script_command,quote,rest]
  simp only [List.append_assoc]

theorem script_call_weight (file_ data : Text) :
    ([script_call file_ data].map Shell.Command.weight).sum = file_.length + data.length + 15 := by
  simp only [script_call,List.map_cons,List.map_nil,List.sum_cons,List.sum_nil,Shell.Command.weight,
    Shell.Redirection.weight]
  exact Nat.add_assoc ..

/-- The first word, which an empty path does not make. -/
def path_tokens (file_ : Text) : List Shell.Token := if file_ = [] then [] else [.word file_ false]

theorem path_tokens_weight (file_ : Text) : Shell.weight (path_tokens file_) = file_.length := by
  unfold path_tokens
  split_ifs with empty
  · simp [empty,Shell.weight]
  · simp [Shell.weight,Shell.Token.weight]

theorem run_path {file_ : Text} (plain : PlainPath file_) :
    (file_ ++ [' ','"']).foldlM Shell.Lexer.step ⟨[],.none,.plain⟩ = some ⟨path_tokens file_,.word [] true,.double⟩ := by
  cases file_ with
  | nil => rfl
  | cons c rest =>
    rw [List.foldlM_append,Shell.Lexer.run_word fun d member => (plain d member).1]
    rfl

/-- What follows the quote is read on its own. -/
theorem run_silenced (tokens : List Shell.Token) (word : Text) :
    silenced.foldlM Shell.Lexer.step ⟨tokens,.word word true,.plain⟩ =
      some ⟨tokens ++ [Shell.Token.word word true] ++ [Shell.Token.operator ['>']] ++ [Shell.Token.word dev_null false] ++
        [Shell.Token.io_number ['2']] ++ [Shell.Token.operator ['>','&']] ++ [Shell.Token.word ['1'] false],
          .operator ['&'],.plain⟩ := by
  rfl

/-- The tokens of a command line with data that double quotes keep. -/
def script_tokens (file_ data : Text) : List Shell.Token :=
  path_tokens file_ ++ [.word data true,.operator ['>'],.word dev_null false,.io_number ['2'],.operator ['>','&'],
    .word ['1'] false] ++ [.operator ['&']]

theorem lex_verbatim {file_ data : Text} (plain : PlainPath file_) (verbatim : Shell.Verbatim data) :
    Shell.lex (script_command file_ data) = some (script_tokens file_ data) := by
  have quoted : (data ++ ['"']).foldlM Shell.Lexer.step ⟨path_tokens file_,.word [] true,.double⟩ =
      some ⟨path_tokens file_,.word data true,.plain⟩ := Shell.Lexer.run_verbatim verbatim
  rw [Shell.lex,script_command_eq,List.foldlM_append,run_path plain,Option.bind_eq_bind,Option.bind_some,
    List.foldlM_append,quoted,Option.bind_eq_bind,Option.bind_some,run_silenced,Option.bind_some]
  simp [Shell.Lexer.finish,Shell.Lexer.delimit,Shell.Lexer.push,script_tokens]

/-- The words of these tokens; without a path the data is the program. -/
def script_words (file_ data : Text) : List (Text × Bool) :=
  (if file_ = [] then [] else [(file_,false)]) ++ [(data,true)]

/-- The parser before the last token. -/
def script_state (file_ data : Text) : Shell.Parser :=
  ⟨[],script_words file_ data,(script_call file_ data).redirections,.none⟩

theorem parse_tokens (file_ data : Text) :
    Shell.parse (script_tokens file_ data) = ((script_state file_ data).close true).bind Shell.Parser.finish := by
  have background : (script_state file_ data).step (.operator ['&']) = (script_state file_ data).close true := rfl
  have all : (script_tokens file_ data).foldlM Shell.Parser.step ⟨[],[],[],.none⟩ = (script_state file_ data).close true := by
    rw [script_tokens,List.foldlM_append]
    trans [Shell.Token.operator ['&']].foldlM Shell.Parser.step (script_state file_ data)
    · unfold path_tokens script_state script_words
      split_ifs <;> rfl
    · rw [List.foldlM_cons,background]
      exact bind_pure _
  rw [Shell.parse,all]

/-- The tokens make the call unless the path is empty or a reserved word. -/
theorem parse_script {file_ : Text} (data : Text) (plain : PlainPath file_) :
    Shell.parse (script_tokens file_ data) = some [script_call file_ data] ↔ file_ ≠ [] ∧ file_ ∉ Shell.reserved_words := by
  rw [parse_tokens,Shell.Parser.close]
  by_cases empty : file_ = []
  · refine iff_of_false (fun parsed => ?_) (fun both => both.1 empty)
    split_ifs at parsed
    · cases parsed
    have words := congrArg (Option.map fun commands => commands.map fun c => c.words.length) parsed
    simp [Shell.Parser.finish,script_state,script_words,script_call,empty] at words
  · have some_words : (script_state file_ data).words ≠ [] := by simp [script_state,script_words]
    have no_sign : '=' ∉ file_ := fun sign => (plain _ sign).1 (by decide)
    have other : (script_state file_ data).Other ↔ file_ ∈ Shell.reserved_words := by
      simp [Shell.Parser.Other,script_state,script_words,empty,no_sign]
    simp only [some_words,other,false_and,false_or]
    split_ifs with reserved
    · simp [reserved]
    · simp [reserved,empty,Shell.Parser.finish,script_state,script_words,script_call]

/-- A zero ends the command line before all of the data is in it. -/
theorem read_of_zero {file_ data : Text} (zero : '\x00' ∈ data) :
    Shell.read (ControlSession.c_str (script_command file_ data)) ≠ some [script_call file_ data] := by
  intro commands_read
  have bound := Shell.read_weight commands_read
  obtain ⟨before,after,rfl⟩ := List.append_of_mem zero
  have cut : (ControlSession.c_str (script_command file_ (before ++ '\x00' :: after))).length ≤
      (file_ ++ [' ','"'] ++ before).length := by
    have line : script_command file_ (before ++ '\x00' :: after) =
        (file_ ++ [' ','"'] ++ before) ++ '\x00' :: (after ++ ['"'] ++ silenced) := by
      simp [script_command_eq]
    rw [line,ControlSession.c_str,List.takeWhile_append]
    split_ifs
    · simp
    · exact (List.takeWhile_prefix _).length_le
  rw [script_call_weight] at bound
  simp only [List.length_append,List.length_cons,List.length_nil] at bound cut
  omega

/-- What the shell reads has all of the data only if the quotes keep it as it is. -/
theorem verbatim_of_read {file_ data : Text} (plain : PlainPath file_)
    (commands_read : Shell.read (script_command file_ data) = some [script_call file_ data]) : Shell.Verbatim data := by
  obtain ⟨tokens,lexed,parsed⟩ := Option.bind_eq_some_iff.mp commands_read
  have parsed_weight := Shell.parse_weight parsed
  rw [script_call_weight] at parsed_weight
  obtain ⟨last,run,ended⟩ := Option.bind_eq_some_iff.mp lexed
  have finish_weight := Shell.Lexer.finish_weight ended
  rw [script_command_eq,List.foldlM_append,run_path plain,Option.bind_eq_bind,Option.bind_some,List.foldlM_append,
    Option.bind_eq_bind,Option.bind_eq_some_iff] at run
  obtain ⟨quoted,data_run,silenced_run⟩ := run
  have settled : quoted.Settled := by
    rw [List.foldlM_append,Option.bind_eq_bind,Option.bind_eq_some_iff] at data_run
    obtain ⟨middle,_,quote⟩ := data_run
    exact (Shell.Lexer.step_quote (by simpa [List.foldlM_cons] using quote)).1
  have neutral : ∀ c ∈ silenced, Shell.Lexer.Neutral c := by
    simp [silenced,dev_null,Shell.Lexer.Neutral]
  obtain ⟨same,silenced_weight⟩ := Shell.Lexer.run_neutral neutral settled silenced_run
  have closed : quoted.Closed := by
    rw [Shell.Lexer.Settled,← same] at settled
    rw [Shell.Lexer.Closed,← same]
    exact Shell.Lexer.closed_of_finish settled ended
  have kept : silenced.countP (· ≠ ' ') = 15 := by decide
  have bound := silenced_weight closed
  refine Shell.Lexer.verbatim_of_weight data data_run closed ?_
  rw [path_tokens_weight]
  simp only [List.length_nil]
  omega

/-- The script gets the data as its argument exactly if its path has a slash, double quotes
    keep the data as it is, and no zero cuts the command. -/
theorem data_intact_iff {is_executable : Text → Bool} {file_ : Text} (executable : is_executable file_ = true)
    (plain : PlainPath file_) (data : Text) : RunsScript is_executable file_ data ↔
      '/' ∈ file_ ∧ Shell.Verbatim data ∧ '\x00' ∉ data := by
  rw [RunsScript,script_call_path,job_script,if_pos executable,Option.bind_some]
  by_cases zero : '\x00' ∈ data
  · exact iff_of_false (fun runs => read_of_zero zero runs.1) fun all => all.2.2 zero
  have no_zero : '\x00' ∉ script_command file_ data := by
    have path : '\x00' ∉ file_ := fun member => (plain _ member).2 rfl
    simp [script_command_eq,path,zero,silenced,dev_null]
  rw [ControlSession.c_str_eq no_zero]
  constructor
  · rintro ⟨commands_read,slash⟩
    exact ⟨slash,verbatim_of_read plain commands_read,zero⟩
  · rintro ⟨slash,verbatim,_⟩
    rw [Shell.read,lex_verbatim plain verbatim,Option.bind_some]
    exact ⟨(parse_script data plain).mpr (Shell.not_reserved slash),slash⟩

theorem alarm_plain : PlainPath "/bin/alarm" := by simp [PlainPath,Shell.special]

theorem data_intact_sample : RunsScript (fun _ => true) "/bin/alarm" "tcp|10.0.0.1|5 $ or \\%" := by
  have slash : '/' ∈ ("/bin/alarm" : Text) := by decide
  have verbatim : Shell.Verbatim "tcp|10.0.0.1|5 $ or \\%" := by
    simp [Shell.Verbatim,Shell.StandsForItself,Shell.escapable,Shell.begins_expansion]
  have no_zero : '\x00' ∉ ("tcp|10.0.0.1|5 $ or \\%" : Text) := by simp
  exact (data_intact_iff rfl alarm_plain _).mpr ⟨slash,verbatim,no_zero⟩

/-- A rule whose comment closes the quotes. -/
def alarmed : BaseRule :=
  { rule_type := "tcp", comment := "\"; reboot; \"", dst_top := CountersList.increase {} 167772161 }

/-- The job of this rule runs a second program. -/
theorem comment_is_run : PlainPath "/bin/alarm" ∧
    (TriggerJob.run (fun _ => true) ⟨⟨"script","/bin/alarm"⟩,alarmed.get_job_info documented⟩).bind Shell.read =
      some [⟨["/bin/alarm","tcp|10.0.0.1|"],[],false⟩,⟨["reboot"],[],false⟩,
        ⟨[[]],[⟨[],['>'],dev_null⟩,⟨['2'],['>','&'],['1']⟩],true⟩] ∧
    ¬ RunsScript (fun _ => true) "/bin/alarm" (alarmed.get_job_info documented) := by
  refine ⟨alarm_plain,by decide +kernel,?_⟩
  unfold RunsScript
  decide +kernel

end DdosDetector
