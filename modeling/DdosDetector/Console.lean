import DdosDetector.Control
import DdosDetector.Framing

/-!
The commands that a console session takes from the bytes of its client, however these
arrive. The text gathered so far is taken for one command as soon as a read brings a
new line, and all of it is dropped afterwards: the commands are the lines of the
stream only where each read stops with the line that it completes.
-/
namespace DdosDetector.ControlSession

/-- The command closes the session by `exit`. -/
def is_exit (platform : Platform) (cmd_ : Text) : Bool :=
  match tokenize platform ' ' cmd_ with
  | .ok t_cmd => t_cmd = [("exit" : Text)]
  | .error _ => false

/-- The command ends the session: by `exit`, or because it cannot be tokenized. -/
def ends_session (platform : Platform) (cmd_ : Text) : Bool :=
  match tokenize platform ' ' cmd_ with
  | .ok t_cmd => t_cmd = [("exit" : Text)]
  | .error _ => true

/-- The lines of what a client sends, without carriage returns, up to the first `exit`. -/
def client_lines (platform : Platform) (stream : Text) : List Text :=
  Framing.upto (is_exit platform) ((Framing.lines '\n' [] stream).map (List.filter (· ≠ '\r')))

def bad_symbol (c : Char) : Bool := c ∈ bad_symbols_

theorem ends_of_exit {platform : Platform} {cmd_ : Text} (exit : is_exit platform cmd_ = true) :
    ends_session platform cmd_ = true := by
  unfold is_exit at exit
  unfold ends_session
  cases tokenized : tokenize platform ' ' cmd_ with
  | error e => rfl
  | ok t_cmd => simpa [tokenized] using exit

/-- `parse` throws exactly on the commands that end the session, whatever the rules. -/
theorem parse_throws_iff (platform : Platform) (terminal : Terminal) (collect : RulesCollection) (cmd_ : Text) :
    (∃ thrown, parse platform terminal collect cmd_ = .error thrown) ↔ ends_session platform cmd_ = true := by
  unfold parse ends_session
  cases tokenize platform ' ' cmd_ with
  | error e => simp
  | ok t_cmd =>
    by_cases empty : t_cmd = []
    · simp [empty]
    · by_cases exit : t_cmd = ["exit".toList]
      · simp [exit]
      · simp only [empty,exit,↓reduceIte,decide_false,Bool.false_eq_true,iff_false,not_exists]
        intro thrown
        split_ifs
        · simp
        · cases run platform terminal collect cmd_ t_cmd <;> simp

theorem empty_goes_on {platform : Platform} (boost : platform.escaped_list = escaped_list_separator) :
    ends_session platform [] = false := by
  simp only [ends_session,tokenize,boost]
  rfl

/-- The reads of a session gather its commands. -/
theorem do_read_eq_gather (platform : Platform) (terminal : Terminal) (cmd_ : Text) (readings : List Reading) :
    do_read platform terminal cmd_ readings = Framing.gather '\n' bad_symbol
      (ends_session platform) cmd_ (readings.map fun reading => c_str reading.data_) := by
  induction readings generalizing cmd_ with
  | nil => rfl
  | cons reading readings ih =>
    rw [do_read,Framing.gather.eq_def]
    simp only [List.map_cons,decide_not,← bad_symbol.eq_def]
    by_cases brings : '\n' ∈ cmd_ ++ c_str reading.data_
    · simp only [brings,↓reduceIte]
      generalize (cmd_ ++ c_str reading.data_).filter (fun c => !bad_symbol c) = command
      have throws := parse_throws_iff platform terminal reading.collect_ command
      cases parsed : parse platform terminal reading.collect_ command with
      | error thrown => simp [throws.mp ⟨thrown,parsed⟩]
      | ok outcome =>
        have goes_on : ends_session platform command = false := by
          by_contra ends
          obtain ⟨thrown,error⟩ := throws.mpr (by simpa using ends)
          cases parsed.symm.trans error
        simp [goes_on,ih]
    · simp only [brings,↓reduceIte]
      exact ih _

/-- In the lines of a stream without zeros, the bad symbols are the carriage returns. -/
theorem client_lines_eq (platform : Platform) {stream : Text} (no_zero : '\x00' ∉ stream) :
    client_lines platform stream = Framing.upto (is_exit platform)
      ((Framing.lines '\n' [] stream).map (List.filter fun c => !bad_symbol c)) := by
  rw [client_lines]
  congr 1
  refine List.map_congr_left fun line member => List.filter_congr fun c inside => ?_
  rcases Framing.letters_of_lines member c inside with none | ⟨further,other⟩
  · exact absurd none List.not_mem_nil
  · have not_zero : c ≠ '\x00' := fun same => no_zero (same ▸ further)
    simp [bad_symbol,bad_symbols_,other,not_zero]

/-- The commands of a session are the lines of its stream, up to the first `exit`,
    exactly if every read stops with the line that it completes. -/
theorem commands_are_lines_iff (platform : Platform) (boost : platform.escaped_list = escaped_list_separator)
    (terminal : Terminal) (readings : List Reading) (no_zero : ∀ reading ∈ readings, '\x00' ∉ reading.data_) :
    do_read platform terminal [] readings = client_lines platform (readings.flatMap Reading.data_) ↔
      Framing.Framed '\n' bad_symbol (is_exit platform) (ends_session platform) []
        (readings.map Reading.data_) := by
  have texts : (readings.map fun reading => c_str reading.data_) = readings.map Reading.data_ :=
    List.map_congr_left fun reading member => c_str_eq (no_zero reading member)
  have stream_no_zero : '\x00' ∉ (readings.map Reading.data_).flatten := by
    simp only [List.mem_flatten,List.mem_map,not_exists,not_and]
    rintro _ ⟨reading,member,rfl⟩
    exact no_zero reading member
  rw [do_read_eq_gather,texts,List.flatMap_def,client_lines_eq platform stream_no_zero]
  have new_line_bad : bad_symbol '\n' = true := by decide
  have exit_ends : ∀ line, is_exit platform line = true → ends_session platform line = true := fun _ => ends_of_exit
  exact Framing.gather_eq_lines_iff new_line_bad exit_ends (empty_goes_on boost) _ List.not_mem_nil

/-- Two lines that arrive in one read are glued to one command. -/
theorem commands_glued : do_read documented ⟨[],fun _ _ => []⟩ [] [⟨"show rules\nexit\n",tcp_collection []⟩] ≠
    client_lines documented "show rules\nexit\n" := by
  rw [do_read_eq_gather]
  have glued : Framing.gather '\n' bad_symbol (ends_session documented) [] [c_str "show rules\nexit\n"] =
      ["show rulesexit".toList] := by decide +kernel
  have two : client_lines documented "show rules\nexit\n" = ["show rules".toList,"exit".toList] := by
    decide +kernel
  rw [two]
  intro equal
  have one := glued.symm.trans equal
  simp at one

/-- Three lines in four reads, with carriage returns. -/
def four_reads : List Reading :=
  [⟨"show ru",tcp_collection []⟩,⟨"les\r\n",tcp_collection []⟩,⟨"help\n",tcp_collection []⟩,⟨"exit\r\n",tcp_collection []⟩]

theorem commands_are_lines_four_reads :
    do_read documented ⟨[],fun _ _ => []⟩ [] four_reads = [("show rules" : Text),"help","exit"] ∧
      Framing.Framed '\n' bad_symbol (is_exit documented) (ends_session documented) [] (four_reads.map Reading.data_) := by
  have gathered : do_read documented ⟨[],fun _ _ => []⟩ [] four_reads = [("show rules" : Text),"help","exit"] := by
    rw [do_read_eq_gather]
    decide +kernel
  have lines : client_lines documented (four_reads.flatMap Reading.data_) = [("show rules" : Text),"help","exit"] := by
    decide +kernel
  exact ⟨gathered,(commands_are_lines_iff documented rfl ⟨[],fun _ _ => []⟩ four_reads (by decide)).mp
    (gathered.trans lines.symm)⟩

end DdosDetector.ControlSession
