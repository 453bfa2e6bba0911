import DdosDetector.Console
import DdosDetector.RuleNumbers

/-!
What the console answers to a line. A line that cannot be tokenized ends the session,
and the commands on rules that fit no branch of `parse` return without a word, as do
lines of quotes alone; the commands that name a rule take any word for its number.
-/
namespace DdosDetector.ControlSession
open RulesFileLoader (type_name)

variable {platform : Platform} {terminal : Terminal} {collect : RulesCollection} {p : Proto}

/-- A number of a rule, as the help has it. -/
def RuleNumber (num : Text) : Prop := IsNumeral num ∧ decimal num ≤ 65535

/-- The words form a command that the help lists; `?` is another word for `help`. -/
inductive Listed : List Text → Prop
  | help : Listed ["help"]
  | question_mark : Listed ["?"]
  | exit : Listed ["exit"]
  | show_rules : Listed ["show","rules"]
  | reload_rules : Listed ["reload","rules"]
  | add_rule (p : Proto) (word : Text) (words : List Text) : Listed ("add" :: "rule" :: type_name p :: word :: words)
  | by_number (p : Proto) {num : Text} (number : RuleNumber num) (command : NumberCommand) : Listed (command.words p num)

/-- The line forms a listed command. -/
def FormsCommand (platform : Platform) (cmd_ : Text) : Prop :=
  ∃ t_cmd, tokenize platform ' ' cmd_ = .ok t_cmd ∧ Listed t_cmd

def Blank (cmd_ : Text) : Prop := ∀ c ∈ cmd_, c = ' '

/-- The message reports an error. -/
def IsError (message : Text) : Prop := "Error".toList <+: message ∨ "Ooops".toList <+: message

/-- The client is told an error, and nothing else happens. -/
def Refused (collect : RulesCollection) (outcome : Outcome) : Prop :=
  ∃ message, outcome = { collect := collect, written := [message] } ∧ IsError message

/-- Unless it is `exit`, the line does not end the session; unless it is blank, something
    comes of it, and that is an error if the line is no command. -/
def Answered (platform : Platform) (collect : RulesCollection) (cmd_ : Text) (result : Except Thrown Outcome) : Prop :=
  is_exit platform cmd_ = false → ∃ outcome, result = .ok outcome ∧ (¬ Blank cmd_ →
    outcome ≠ { collect := collect } ∧ (¬ FormsCommand platform cmd_ → Refused collect outcome))

/-- The command meets no rule: its number, as the code takes it, is past the end of the
    list, or the rule to be inserted cannot be parsed. -/
def Misses (platform : Platform) (collect : RulesCollection) (p : Proto) (command : NumberCommand) (w : Text) : Prop :=
  (collect.list p).rules_.length ≤ number_of w ∨
    ∃ e, command.at_position platform (collect.list p) (number_of w) = .error e

/-- There are words; and those of a command on the rules of a protocol are `add` with a
    rule of two words or more, or name a rule by a number or none that is there. -/
def Heeded (platform : Platform) (collect : RulesCollection) (t_cmd : List Text) : Prop :=
  t_cmd ≠ [] ∧ ∀ command p word words, t_cmd = command :: "rule".toList :: type_name p :: word :: words →
    command = "add" ∧ words ≠ [] ∨
      ∃ by_number : NumberCommand, t_cmd = by_number.words p word ∧
        (RuleNumber word ∨ Misses platform collect p by_number word)

/-! ### What comes of a line -/

theorem isError_of_start (start : Text) (shown : "Error".toList <+: start ∨ "Ooops".toList <+: start) (rest : Text) :
    IsError (start ++ rest) :=
  shown.imp (fun error => error.trans (List.prefix_append _ _)) fun ooops => ooops.trans (List.prefix_append _ _)

theorem error_text_isError (cmd_ : Text) (e : Exn) : IsError (error_text cmd_ e) := by
  cases e with
  | ParserException message =>
    exact isError_of_start _ (isError_of_start "Error parse rule: " (.inl (by decide)) message) _
  | RuleException message =>
    exact isError_of_start _ (isError_of_start "Error operation rule: " (.inl (by decide)) message) _
  | invalid_argument message =>
    exact isError_of_start _ (isError_of_start "Error: invalid argument '" (.inl (by decide)) message) _
  | out_of_range _ | escaped_list_error _ =>
    exact isError_of_start _ (isError_of_start "Ooops: very very bad command ;)'" (.inr (by decide)) cmd_) _

theorem refused_error (collect : RulesCollection) (cmd_ : Text) (e : Exn) :
    Refused collect { collect := collect, written := [error_text cmd_ e] } :=
  ⟨_,rfl,error_text_isError cmd_ e⟩

theorem refused_unknown (collect : RulesCollection) (cmd_ : Text) : Refused collect { collect := collect, written :=
    ["Error: unknown command '".toList ++ cmd_ ++ "'. Please print 'help'.\n".toList] } :=
  ⟨_,rfl,isError_of_start _ (isError_of_start "Error: unknown command '" (.inl (by decide)) cmd_) _⟩

theorem type_of_is_type {type : Text} (known : RulesCollection.is_type type = true) : ∃ p, type = type_name p := by
  simp only [RulesCollection.is_type,List.any_cons,List.any_nil,Bool.or_false,Bool.or_eq_true,decide_eq_true_eq] at known
  rcases known with rfl | rfl | rfl
  · exact ⟨.TCP,rfl⟩
  · exact ⟨.UDP,rfl⟩
  · exact ⟨.ICMP,rfl⟩

/-- A line with words is a command without arguments, a command on the rules of a
    protocol, or refused. -/
theorem parse_cases (terminal : Terminal) (collect : RulesCollection) {cmd_ : Text} {t_cmd : List Text}
    (line : tokenize platform ' ' cmd_ = .ok t_cmd) (words : t_cmd ≠ []) (stays : t_cmd ≠ ["exit".toList]) :
    (Listed t_cmd ∧ ∃ outcome, parse platform terminal collect cmd_ = .ok outcome ∧
        (outcome.written ≠ [] ∨ outcome.raised = true)) ∨
      (∃ command p word words, t_cmd = command :: "rule".toList :: type_name p :: word :: words) ∨
      ∃ outcome, parse platform terminal collect cmd_ = .ok outcome ∧ Refused collect outcome := by
  rw [parse,line]
  simp only [words,stays,↓reduceIte]
  by_cases help : t_cmd = ["help".toList] ∨ t_cmd = ["?".toList]
  · refine .inl ⟨?_,_,if_pos help,.inl (by simp)⟩
    rcases help with rfl | rfl
    · exact .help
    · exact .question_mark
  rw [if_neg help,run]
  by_cases show_rules : t_cmd = ["show".toList,"rules".toList]
  · subst show_rules
    exact .inl ⟨.show_rules,_,rfl,.inl (by simp)⟩
  by_cases reload_rules : t_cmd = ["reload".toList,"rules".toList]
  · subst reload_rules
    exact .inl ⟨.reload_rules,_,rfl,.inr rfl⟩
  rw [if_neg show_rules,if_neg reload_rules]
  have unknown := refused_unknown collect cmd_
  rcases t_cmd with _ | ⟨command,_ | ⟨rule,_ | ⟨type,_ | ⟨word,rest⟩⟩⟩⟩
  · exact absurd rfl words
  · exact .inr (.inr ⟨_,rfl,unknown⟩)
  · exact .inr (.inr ⟨_,rfl,unknown⟩)
  · exact .inr (.inr ⟨_,rfl,unknown⟩)
  by_cases on_rule : rule = "rule"
  · by_cases known : RulesCollection.is_type type = true
    · obtain ⟨p,rfl⟩ := type_of_is_type known
      exact .inr (.inl ⟨command,p,word,rest,by rw [on_rule]⟩)
    · simp only [on_rule,known,↓reduceIte,Bool.not_false]
      exact .inr (.inr ⟨_,rfl,refused_error collect cmd_ _⟩)
  · simp only [on_rule,↓reduceIte]
    exact .inr (.inr ⟨_,rfl,unknown⟩)

theorem set_list_ne {c : RulesCollection} {l : RulesList (Fields p)}
    (size : l.rules_.length ≠ (c.list p).rules_.length) : c.set_list p l ≠ c := by
  intro same
  rw [← same,RulesCollection.list_set_list] at size
  exact size rfl

theorem at_position_size {F H : Type} [ProtoRule F H] {command : NumberCommand} {l : RulesList F} {i : Nat}
    {rules : List (Rule F)} (inside : i < l.rules_.length) (done : command.at_position platform l i = .ok rules) :
    rules.length ≠ l.rules_.length := by
  cases command with
  | del =>
    obtain rfl := Except.ok.inj done
    rw [List.length_eraseIdx_of_lt inside]
    omega
  | insert word words =>
    simp only [NumberCommand.at_position] at done
    cases parsed : ProtoRule.parse platform l.parse_opt_ (ProtoRule.new (word :: words) : Rule F) with
    | error e => rw [parsed] at done; cases done
    | ok rule =>
      rw [parsed] at done
      obtain rfl := Except.ok.inj done
      simp only [List.length_append,List.length_take,List.length_drop,List.length_singleton]
      omega

/-- A rule of two words or more is added, or the client is told why not. -/
theorem add_rule_answered (terminal : Terminal) (collect : RulesCollection) {cmd_ word : Text} {words : List Text}
    (line : tokenize platform ' ' cmd_ = .ok ("add" :: "rule" :: type_name p :: word :: words)) (rule : words ≠ []) :
    ∃ outcome, parse platform terminal collect cmd_ = .ok outcome ∧ outcome ≠ { collect := collect } := by
  rw [parse_rule_command line,rule_command,if_pos ⟨rfl,rule⟩]
  cases added : (collect.list p).add_rule platform (ProtoRule.new (word :: words)) with
  | error e => exact ⟨_,rfl,by simp⟩
  | ok l =>
    obtain ⟨made,_,appended⟩ := bind_ok added
    obtain rfl := Except.ok.inj appended
    refine ⟨_,rfl,fun same => set_list_ne ?_ (congrArg Outcome.collect same)⟩
    simp

/-- The commands on rules that fit no branch return without a word. -/
theorem no_branch_silent (terminal : Terminal) (collect : RulesCollection) {cmd_ command word : Text} {words : List Text}
    (line : tokenize platform ' ' cmd_ = .ok (command :: "rule" :: type_name p :: word :: words))
    (no_add : ¬ (command = "add" ∧ words ≠ [])) (no_insert : ¬ (command = "insert" ∧ words ≠ []))
    (no_del : ¬ (command = "del" ∧ words = [])) :
    parse platform terminal collect cmd_ = .ok { collect := collect } := by
  rw [parse_rule_command line,rule_command,if_neg no_add,if_neg no_insert,if_neg no_del]

theorem listed_number {command : NumberCommand} {w : Text} (listed : Listed (command.words p w)) : RuleNumber w := by
  generalize same : command.words p w = t_cmd at listed
  cases listed with
  | by_number q number other =>
    cases command <;> cases other <;> simp_all [NumberCommand.words]
  | _ => cases command <;> simp [NumberCommand.words] at same

/-- The words of a command by number are those of `insert` or `del`. -/
theorem words_of_number {command word : Text} {words : List Text}
    (branch : command = "insert" ∧ words ≠ [] ∨ command = "del" ∧ words = []) : ∃ by_number : NumberCommand,
      command :: "rule".toList :: type_name p :: word :: words = by_number.words p word := by
  rcases branch with ⟨rfl,some_words⟩ | ⟨rfl,rfl⟩
  · obtain ⟨first,rest,rfl⟩ := List.exists_cons_of_ne_nil some_words
    exact ⟨.insert first rest,rfl⟩
  · exact ⟨.del,rfl⟩

/-- What a command on the rules of a protocol is answered is something, and an error if
    it is no listed command, exactly if it adds a rule or names one by a number or none. -/
theorem rule_command_answered {cmd_ command word : Text} {words : List Text} {outcome : Outcome}
    (line : tokenize platform ' ' cmd_ = .ok (command :: "rule" :: type_name p :: word :: words))
    (returned : parse platform terminal collect cmd_ = .ok outcome) :
    (outcome ≠ { collect := collect } ∧ (¬ FormsCommand platform cmd_ → Refused collect outcome)) ↔
      (command = "add" ∧ words ≠ [] ∨ ∃ by_number : NumberCommand,
        command :: "rule".toList :: type_name p :: word :: words = by_number.words p word ∧
          (RuleNumber word ∨ Misses platform collect p by_number word)) := by
  constructor
  · rintro ⟨heard,told⟩
    by_cases add : command = "add" ∧ words ≠ []
    · exact .inl add
    by_cases branch : command = "insert" ∧ words ≠ [] ∨ command = "del" ∧ words = []
    · obtain ⟨by_number,same⟩ := @words_of_number p command word words branch
      refine .inr ⟨by_number,same,or_iff_not_imp_left.mpr ?_⟩
      intro no_number
      have no_command : ¬ FormsCommand platform cmd_ := by
        rintro ⟨t_cmd,line',listed⟩
        obtain rfl := Except.ok.inj (line.symm.trans line')
        exact no_number (listed_number (same ▸ listed))
      rcases number_command_cases terminal collect (same ▸ line) with ⟨_,rules,_,done⟩ | ⟨misses,_⟩
      · obtain ⟨message,refused,_⟩ := told no_command
        rw [returned] at done
        have written := congrArg Outcome.written (refused.symm.trans (Except.ok.inj done))
        simp at written
      · exact misses
    · rw [not_or] at branch
      have silent := no_branch_silent terminal collect line add branch.1 branch.2
      exact absurd (Except.ok.inj (returned.symm.trans silent)) heard
  · rintro (⟨rfl,rule⟩ | ⟨by_number,same,served⟩)
    · obtain ⟨o,done,heard⟩ := add_rule_answered terminal collect line rule
      obtain rfl := Except.ok.inj (returned.symm.trans done)
      exact ⟨heard,fun no_command => absurd ⟨_,line,.add_rule p word words⟩ no_command⟩
    · rw [same] at line
      rcases number_command_cases terminal collect line with ⟨inside,rules,here,done⟩ | ⟨_,e,done⟩
      · obtain rfl := Except.ok.inj (returned.symm.trans done)
        refine ⟨fun unchanged => set_list_ne (at_position_size inside here) (congrArg Outcome.collect unchanged),?_⟩
        intro no_command
        rcases served with number | past | ⟨e,fault⟩
        · exact absurd ⟨_,line,.by_number p number by_number⟩ no_command
        · omega
        · rw [here] at fault; cases fault
      · obtain rfl := Except.ok.inj (returned.symm.trans done)
        exact ⟨by simp,fun _ => refused_error collect cmd_ e⟩

/-- Only `exit` ends the session and no command is swallowed exactly on the lines that
    can be tokenized and are blank or heeded. -/
theorem answered_iff (platform : Platform) (terminal : Terminal) (collect : RulesCollection) (cmd_ : Text) :
    Answered platform collect cmd_ (parse platform terminal collect cmd_) ↔
      ∃ t_cmd, tokenize platform ' ' cmd_ = .ok t_cmd ∧ (Blank cmd_ ∨ Heeded platform collect t_cmd) := by
  constructor
  · intro answered
    cases line : tokenize platform ' ' cmd_ with
    | error e =>
      obtain ⟨outcome,returned,_⟩ := answered (by simp [is_exit,line])
      simp [parse,line] at returned
    | ok t_cmd =>
      refine ⟨t_cmd,rfl,or_iff_not_imp_left.mpr fun shown => ⟨?_,?_⟩⟩
      · rintro rfl
        obtain ⟨outcome,returned,heard⟩ := answered (by simp [is_exit,line])
        simp only [parse,line,↓reduceIte,Except.ok.injEq] at returned
        exact (heard shown).1 returned.symm
      · rintro command p word words rfl
        obtain ⟨outcome,returned,heard⟩ := answered (by simp [is_exit,line])
        exact (rule_command_answered line returned).mp (heard shown)
  · rintro ⟨t_cmd,line,heeded⟩ goes_on
    have returns : ∃ outcome, parse platform terminal collect cmd_ = .ok outcome := by
      cases parsed : parse platform terminal collect cmd_ with
      | ok outcome => exact ⟨outcome,rfl⟩
      | error thrown =>
        have ends := (parse_throws_iff platform terminal collect cmd_).mp ⟨thrown,parsed⟩
        simp only [ends_session,line] at ends
        simp only [is_exit,line,ends,Bool.true_eq_false] at goes_on
    obtain ⟨outcome,returned⟩ := returns
    refine ⟨outcome,returned,?_⟩
    intro shown
    obtain ⟨some_word,heeded⟩ := heeded.resolve_left shown
    have stays : t_cmd ≠ ["exit".toList] := by
      rintro rfl
      simp [is_exit,line] at goes_on
    rcases parse_cases terminal collect line some_word stays with ⟨listed,o,done,loud⟩ | command | ⟨o,done,refused⟩
    · obtain rfl := Except.ok.inj (returned.symm.trans done)
      refine ⟨?_,fun no_command => absurd ⟨t_cmd,line,listed⟩ no_command⟩
      rintro rfl
      simp at loud
    · obtain ⟨command,p,word,words,rfl⟩ := command
      exact (rule_command_answered line returned).mpr (heeded command p word words rfl)
    · obtain rfl := Except.ok.inj (returned.symm.trans done)
      obtain ⟨message,rfl,error⟩ := refused
      exact ⟨by simp,fun _ => ⟨message,rfl,error⟩⟩

/-- An escape that is not one ends the session, and a command that is not one is passed over. -/
theorem two_lines_unanswered : let terminal : Terminal := ⟨[],fun _ _ => []⟩
    ¬ Answered documented (tcp_collection []) "\\q" (parse documented terminal (tcp_collection []) "\\q") ∧
      ¬ Answered documented (tcp_collection []) "show rule TCP 1"
        (parse documented terminal (tcp_collection []) "show rule TCP 1") := by
  intro terminal
  constructor
  · intro answered
    obtain ⟨outcome,returned,_⟩ := answered (by decide +kernel)
    obtain ⟨thrown,ends⟩ := (parse_throws_iff documented terminal (tcp_collection []) "\\q").mpr (by decide +kernel)
    cases returned.symm.trans ends
  · intro answered
    obtain ⟨outcome,returned,heard⟩ := answered (by decide +kernel)
    have line : tokenize documented ' ' "show rule TCP 1" = .ok ["show","rule",type_name .TCP,"1"] := by decide +kernel
    have silent := no_branch_silent terminal (tcp_collection []) line (by decide) (by decide) (by decide)
    have shown : ¬ Blank "show rule TCP 1" := fun blank => absurd (blank 's' (by simp)) (by decide)
    exact (heard shown).1 (Except.ok.inj (returned.symm.trans silent))

end DdosDetector.ControlSession
