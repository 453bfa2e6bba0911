import DdosDetector.Collection

/-!
`RulesFileLoader`: how a rules file replaces the rules of main, line by line. Each
line is tokenized outside the `try` block that guards its rule, so that the tokenizer
alone decides whether a file can be loaded.
-/
namespace DdosDetector

/-- What `is_file_exist` and `std::ifstream` find under the name of the rules file. -/
inductive RulesFile
  | missing
  | unreadable
  | content (text : Text)

/-- The lines that `std::getline` returns in turn. -/
def getlines (text : Text) : List Text :=
  let lines := text.splitOn '\n'
  if lines.getLast? = some [] then lines.dropLast else lines

namespace RulesCollection

/-- Empty lists with the parse options of the parent. -/
def params (parent : RulesCollection) (now : time_point) : RulesCollection :=
  ⟨⟨[],parent.tcp.parse_opt_,now⟩,⟨[],parent.udp.parse_opt_,now⟩,⟨[],parent.icmp.parse_opt_,now⟩,now⟩

def clear (c : RulesCollection) : RulesCollection :=
  { c with tcp := c.tcp.clear, udp := c.udp.clear, icmp := c.icmp.clear }

/-- `RulesCollection(parent, clear)`. -/
def copy (parent : RulesCollection) (clear : Bool) (now : time_point) : RulesCollection :=
  let copied := (parent.params now).assign parent now
  if clear then copied.clear else copied

theorem list_copy_true (c : RulesCollection) (now : time_point) (p : Proto) :
    (c.copy true now).list p = ⟨[],(c.list p).parse_opt_,(c.list p).last_update_⟩ := by
  cases p <;> rfl

end RulesCollection

namespace RulesFileLoader

/-- The `try` block for a line of two tokens or more. A comment and a rule of an
    unknown type, which is logged, leave the buffer as it is. -/
def add_line (platform : Platform) (buff : RulesCollection) (type : Text) (words : List Text) :
    Except Exn RulesCollection :=
  match type with
  | [] => .error (.out_of_range "basic_string::at")
  | first :: _ =>
    if first = '#' then .ok buff
    else if type = "TCP" then
      (buff.tcp.add_rule platform (TcpRule.new words)).map fun l => { buff with tcp := l }
    else if type = "UDP" then
      (buff.udp.add_rule platform (UdpRule.new words)).map fun l => { buff with udp := l }
    else if type = "ICMP" then
      (buff.icmp.add_rule platform (IcmpRule.new words)).map fun l => { buff with icmp := l }
    else .ok buff

/-- One turn of the loop. Tokenizing is not guarded; what the `try` block throws is
    caught and logged. -/
def load_line (platform : Platform) (buff : RulesCollection) (line : Text) : Except Exn RulesCollection := do
  match ← tokenize platform ' ' line with
  | type :: word :: words =>
    match add_line platform buff type (word :: words) with
    | .ok buff => .ok buff
    | .error _ => .ok buff
  | _ => .ok buff

/-- The loop over the lines of the file. A file that exists but cannot be read has
    none. -/
def load_file (platform : Platform) (file : RulesFile) (buff : RulesCollection) : Except Exn RulesCollection :=
  match file with
  | .content text => (getlines text).foldlM (load_line platform) buff
  | _ => .ok buff

def reload_config (platform : Platform) (file : RulesFile) (collect : RulesCollection) (now : time_point) :
    Except Exn RulesCollection :=
  match file with
  | .missing => .ok collect
  | _ => (load_file platform file (collect.copy true now)).map fun buff => collect.assign buff now

/-! ### What a file means -/

def type_name : Proto → Text
  | .TCP => "TCP"
  | .UDP => "UDP"
  | .ICMP => "ICMP"

/-- The rule of the protocol that a line holds: its first token names the protocol,
    and the others parse. -/
def line_rule (platform : Platform) (opt : options_description) (p : Proto) (line : Text) : Option (Rule (Fields p)) :=
  match tokenize platform ' ' line with
  | .ok (type :: word :: words) =>
    if type = type_name p then (ProtoRule.parse platform opt (ProtoRule.new (word :: words))).toOption else none
  | _ => none

/-- The rules of the protocol that the lines of a file hold, in order. -/
def file_rules (platform : Platform) (opt : options_description) (p : Proto) (lines : List Text) :
    List (Rule (Fields p)) :=
  lines.filterMap (line_rule platform opt p)

/-- The outcome of a reload that no file can disturb: it returns, each list of main
    holds exactly the rules of the lines that can be handled, and a file that cannot
    be opened leaves the rules as they are. -/
def Resilient (platform : Platform) (file : RulesFile) (collect : RulesCollection)
    (outcome : Except Exn RulesCollection) : Prop :=
  ∃ collect', outcome = .ok collect' ∧ ∀ p, (collect'.list p).rules_ =
    match file with
    | .missing => (collect.list p).rules_
    | .unreadable => (collect.list p).rules_
    | .content text => file_rules platform (collect.list p).parse_opt_ p (getlines text)

theorem type_name_inj {p q : Proto} (same : type_name p = type_name q) : p = q := by
  revert same
  cases p <;> cases q <;> decide

theorem add_line_type (platform : Platform) (buff : RulesCollection) (p : Proto) (words : List Text) :
    add_line platform buff (type_name p) words =
      ((buff.list p).add_rule platform (ProtoRule.new words)).map (buff.set_list p) := by
  cases p <;> rfl

/-- A comment, a rule of an unknown type and a bad first token leave the buffer alone. -/
theorem add_line_untyped (platform : Platform) (buff : RulesCollection) {type : Text} (words : List Text)
    (untyped : ∀ p, type ≠ type_name p) :
    add_line platform buff type words = .ok buff ∨ ∃ error, add_line platform buff type words = .error error := by
  cases type with
  | nil => exact .inr ⟨_,rfl⟩
  | cons first rest =>
    have tcp : first :: rest ≠ "TCP".toList := untyped .TCP
    have udp : first :: rest ≠ "UDP".toList := untyped .UDP
    have icmp : first :: rest ≠ "ICMP".toList := untyped .ICMP
    exact .inl (by simp only [add_line,tcp,udp,icmp,↓reduceIte,ite_self])

/-- A line that can be tokenized adds its rule to the list of its protocol, if it
    has one, and changes nothing else. -/
theorem load_line_spec {platform : Platform} {line : Text} {tokens : List Text}
    (tokenized : tokenize platform ' ' line = .ok tokens) (buff : RulesCollection) :
    ∃ buff', load_line platform buff line = .ok buff' ∧
      ∀ p, buff'.list p = { buff.list p with
        rules_ := (buff.list p).rules_ ++ (line_rule platform (buff.list p).parse_opt_ p line).toList } := by
  unfold load_line line_rule
  rw [tokenized]
  match tokens with
  | [] => exact ⟨buff,rfl,fun p => by simp⟩
  | [type] => exact ⟨buff,rfl,fun p => by simp⟩
  | type :: word :: words =>
    by_cases typed : ∃ p, type = type_name p
    · obtain ⟨p,rfl⟩ := typed
      have other : ∀ q, q ≠ p → type_name p ≠ type_name q := fun q different same => different (type_name_inj same).symm
      cases parsed : ProtoRule.parse platform (buff.list p).parse_opt_ (ProtoRule.new (word :: words) : Rule (Fields p)) with
      | error error =>
        refine ⟨buff,?_,fun q => ?_⟩
        · show (match add_line platform buff (type_name p) (word :: words) with | .ok buff => _ | .error _ => _) = _
          simp only [add_line_type,RulesList.add_rule,parsed]
          rfl
        · by_cases same : q = p
          · subst same; simp [parsed,Except.toOption]
          · simp [other q same]
      | ok rule =>
        refine ⟨buff.set_list p { buff.list p with rules_ := (buff.list p).rules_ ++ [rule] },?_,fun q => ?_⟩
        · show (match add_line platform buff (type_name p) (word :: words) with | .ok buff => _ | .error _ => _) = _
          simp only [add_line_type,RulesList.add_rule,parsed]
          rfl
        · by_cases same : q = p
          · subst same; simp [parsed,Except.toOption]
          · simp [RulesCollection.list_set_list_ne buff _ same,other q same]
    · refine ⟨buff,?_,fun p => ?_⟩
      · show (match add_line platform buff type (word :: words) with | .ok buff => _ | .error _ => _) = _
        rcases add_line_untyped platform buff (word :: words) (fun p same => typed ⟨p,same⟩) with kept | ⟨error,thrown⟩
        · rw [kept]
        · rw [thrown]
      · have untyped : type ≠ type_name p := fun same => typed ⟨p,same⟩
        simp [untyped]

/-- A line that cannot be tokenized ends the loading. -/
theorem load_line_error {platform : Platform} {line : Text} {error : Exn}
    (tokenized : tokenize platform ' ' line = .error error) (buff : RulesCollection) :
    load_line platform buff line = .error error := by
  unfold load_line
  rw [tokenized]
  rfl

/-- The loop over the lines, if every line can be tokenized. -/
theorem load_lines_spec {platform : Platform} {lines : List Text}
    (tokenized : ∀ line ∈ lines, ∃ tokens, tokenize platform ' ' line = .ok tokens) (buff : RulesCollection) :
    ∃ buff', lines.foldlM (load_line platform) buff = .ok buff' ∧
      ∀ p, buff'.list p = { buff.list p with
        rules_ := (buff.list p).rules_ ++ file_rules platform (buff.list p).parse_opt_ p lines } := by
  induction lines generalizing buff with
  | nil => exact ⟨buff,rfl,fun p => by simp [file_rules]⟩
  | cons line rest ih =>
    obtain ⟨tokens,split⟩ := tokenized line (by simp)
    obtain ⟨next,loaded,added⟩ := load_line_spec split buff
    obtain ⟨last,rest_loaded,rest_added⟩ := ih (fun other member => tokenized other (by simp [member])) next
    refine ⟨last,?_,fun p => ?_⟩
    · rw [List.foldlM_cons,loaded]
      exact rest_loaded
    · rw [rest_added p,added p]
      cases rule : line_rule platform (buff.list p).parse_opt_ p line <;>
        simp [file_rules,rule]

/-- The loop over the lines, if some line cannot be tokenized. -/
theorem load_lines_error {platform : Platform} {lines : List Text} {line : Text} (member : line ∈ lines)
    (broken : ¬ ∃ tokens, tokenize platform ' ' line = .ok tokens) (buff : RulesCollection) :
    ∃ error, lines.foldlM (load_line platform) buff = .error error := by
  induction lines generalizing buff with
  | nil => simp at member
  | cons first rest ih =>
    rw [List.foldlM_cons]
    cases split : tokenize platform ' ' first with
    | error error =>
      rw [load_line_error split]
      exact ⟨error,rfl⟩
    | ok tokens =>
      obtain ⟨next,loaded,_⟩ := load_line_spec split buff
      rw [loaded]
      have later : line ∈ rest := by
        rcases List.mem_cons.mp member with rfl | later
        · exact absurd ⟨tokens,split⟩ broken
        · exact later
      exact ih later next

theorem tokenize_ok_iff {platform : Platform} (boost : platform.escaped_list = escaped_list_separator)
    (separator : Char) (input : Text) :
    (∃ tokens, tokenize platform separator input = .ok tokens) ↔ (escaped_list_grammar separator).WellEscaped input := by
  rw [← EscapedList.split_ok_iff,tokenize,boost,escaped_list_separator]
  cases (escaped_list_grammar separator).split input with
  | ok fields => simp [Except.map]
  | error fault => cases fault <;> simp [Except.map]

/-- One line that cannot be tokenized makes the reload throw. -/
theorem reload_config_error {platform : Platform} {text line : Text} (member : line ∈ getlines text)
    (broken : ¬ ∃ tokens, tokenize platform ' ' line = .ok tokens) (collect : RulesCollection) (now : time_point) :
    ∃ error, reload_config platform (.content text) collect now = .error error := by
  obtain ⟨error,thrown⟩ := load_lines_error member broken (collect.copy true now)
  refine ⟨error,?_⟩
  simp only [reload_config,load_file,thrown]
  rfl

/-- The files that a reload handles: one that is missing, one that cannot be opened
    where there is nothing to lose, and one with sound escapes in every line. -/
def Loadable (collect : RulesCollection) : RulesFile → Prop
  | .missing => True
  | .unreadable => ∀ p, (collect.list p).rules_ = []
  | .content text => ∀ line ∈ getlines text, (escaped_list_grammar ' ').WellEscaped line

/-- A reload is resilient exactly on the files that it handles. -/
theorem reload_resilient_iff (platform : Platform) (boost : platform.escaped_list = escaped_list_separator)
    (file : RulesFile) (collect : RulesCollection) (now : time_point) :
    Resilient platform file collect (reload_config platform file collect now) ↔ Loadable collect file := by
  cases file with
  | missing => exact iff_of_true ⟨collect,rfl,fun p => rfl⟩ trivial
  | unreadable =>
    have emptied : ∀ p, ((collect.assign (collect.copy true now) now).list p).rules_ = [] := by
      intro p
      simp [RulesCollection.list_assign,RulesCollection.list_copy_true]
    constructor
    · rintro ⟨collect',returned,kept⟩ p
      obtain rfl := Except.ok.inj returned
      exact (kept p).symm.trans (emptied p)
    · intro nothing
      exact ⟨_,rfl,fun p => (emptied p).trans (nothing p).symm⟩
  | content text =>
    constructor
    · rintro ⟨collect',returned,_⟩ line member
      rw [← tokenize_ok_iff boost]
      by_contra broken
      obtain ⟨error,thrown⟩ := reload_config_error member broken collect now
      rw [thrown] at returned
      cases returned
    · intro sound
      have tokenized : ∀ line ∈ getlines text, ∃ tokens, tokenize platform ' ' line = .ok tokens :=
        fun line member => (tokenize_ok_iff boost ' ' line).mpr (sound line member)
      obtain ⟨buff,loaded,added⟩ := load_lines_spec tokenized (collect.copy true now)
      refine ⟨collect.assign buff now,?_,fun p => ?_⟩
      · simp only [reload_config,load_file,loaded]
        rfl
      · simp [RulesCollection.list_assign,added p,RulesCollection.list_copy_true]

/-- A comment that holds a path with backslashes, below a rule: the comment's escape
    cannot be read, and the exception leaves the reload. -/
theorem reload_not_resilient : ¬ Resilient documented (.content "TCP --dstip 10.0.0.1 --pps-th 100p\n# C:\\x")
    (tcp_collection []) (reload_config documented (.content "TCP --dstip 10.0.0.1 --pps-th 100p\n# C:\\x")
      (tcp_collection []) 1) := by
  have member : "# C:\\x".toList ∈ getlines "TCP --dstip 10.0.0.1 --pps-th 100p\n# C:\\x" := by decide
  have broken : ¬ ∃ tokens, tokenize documented ' ' "# C:\\x" = .ok tokens := by
    rw [tokenize_ok_iff rfl]
    simp [EscapedList.Grammar.WellEscaped,escaped_list_grammar]
  obtain ⟨error,thrown⟩ := reload_config_error member broken (tcp_collection []) 1
  rw [thrown]
  rintro ⟨collect',returned,_⟩
  cases returned

theorem reload_resilient_comment :
    documented.escaped_list = escaped_list_separator ∧
    (Resilient documented (.content "# TCP") (tcp_collection [])
        (reload_config documented (.content "# TCP") (tcp_collection []) 1) ↔
      Loadable (tcp_collection []) (.content "# TCP")) :=
  ⟨rfl,reload_resilient_iff documented rfl (.content "# TCP") (tcp_collection []) 1⟩

end RulesFileLoader
end DdosDetector
