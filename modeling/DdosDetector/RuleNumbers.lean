import DdosDetector.Control
import DdosDetector.Numerals
import DdosDetector.Provenance

/-!
The commands of the console that edit a list. Each of them does what one console edit
does, or nothing. Those that name a rule by its number take the number from `atoi`,
which reads any word as some number, and use it modulo 2^32.
-/
namespace DdosDetector.ControlSession
open RulesFileLoader (type_name)

variable {platform : Platform} {terminal : Terminal} {collect : RulesCollection} {p : Proto}

/-- A command on a rule of a known type reaches the list of that type. -/
theorem run_rule_command (platform : Platform) (terminal : Terminal) (collect : RulesCollection) (cmd_ : Text)
    (p : Proto) (command word : Text) (words : List Text) :
    run platform terminal collect cmd_ (command :: "rule" :: type_name p :: word :: words) =
      (rule_command platform collect p command word words).map fun c => { collect := c } := by
  cases p <;> simp [run,RulesCollection.is_type,type_name]

theorem parse_rule_command {cmd_ command word : Text} {words : List Text}
    (line : tokenize platform ' ' cmd_ = .ok (command :: "rule" :: type_name p :: word :: words)) :
    parse platform terminal collect cmd_ =
      match rule_command platform collect p command word words with
      | .ok c => .ok { collect := c }
      | .error e => .ok { collect := collect, written := [error_text cmd_ e] } := by
  have long : ∀ t : Text, command :: "rule".toList :: type_name p :: word :: words ≠ [t] := by simp
  rw [parse,line]
  simp only [long,reduceCtorEq,or_self,↓reduceIte,run_rule_command]
  cases rule_command platform collect p command word words <;> rfl

/-! ### What a command does to the rules -/

/-- The edit makes its rule, if it has one, from words. -/
def MadeOfWords (e : Edit (Fields p)) : Prop :=
  ∀ given, e.rule = some given → ∃ tokens, given = (ProtoRule.new tokens : Rule (Fields p))

/-- A command on the rules of a protocol is an edit of their list, or does nothing. -/
theorem rule_command_edit {command word : Text} {words : List Text} {c : RulesCollection}
    (ran : rule_command platform collect p command word words = .ok c) :
    c = collect ∨ ∃ e : Edit (Fields p), MadeOfWords e ∧ c = collect.console platform p e := by
  have edit : ∀ e : Edit (Fields p), (e.apply platform (collect.list p)).map (collect.set_list p) = .ok c →
      c = collect.console platform p e := by
    intro e done
    rw [RulesCollection.console]
    cases applied : e.apply platform (collect.list p) with
    | error error => rw [applied] at done; cases done
    | ok l => rw [applied] at done; exact (Except.ok.inj done).symm
  simp only [rule_command] at ran
  split_ifs at ran with add insert del
  · exact .inr ⟨.add_rule (ProtoRule.new (word :: words)),fun given made => ⟨_,(Option.some.inj made).symm⟩,edit (.add_rule _) ran⟩
  · exact .inr ⟨.insert_rule _ (ProtoRule.new words),fun given made => ⟨_,(Option.some.inj made).symm⟩,edit (.insert_rule _ _) ran⟩
  · exact .inr ⟨.del_rule _,fun given none => by simp [Edit.rule] at none,edit (.del_rule _) ran⟩
  · exact .inl (Except.ok.inj ran).symm

/-- Whatever a client sends, the rules change by one edit or not at all. -/
theorem parse_edits {cmd_ : Text} {outcome : Outcome} (parsed : parse platform terminal collect cmd_ = .ok outcome) :
    outcome.collect = collect ∨
      ∃ (p : Proto) (e : Edit (Fields p)), MadeOfWords e ∧ outcome.collect = collect.console platform p e := by
  have command {p : Proto} {command word : Text} {words : List Text} {o : Outcome}
      (ran : (rule_command platform collect p command word words).map (fun c => ({ collect := c } : Outcome)) = .ok o) :
      o.collect = collect ∨ ∃ (p : Proto) (e : Edit (Fields p)), MadeOfWords e ∧ o.collect = collect.console platform p e := by
    cases done : rule_command platform collect p command word words with
    | error e => rw [done] at ran; cases ran
    | ok c =>
      rw [done] at ran
      obtain rfl := Except.ok.inj ran
      exact (rule_command_edit done).imp_right fun ⟨e,words,same⟩ => ⟨p,e,words,same⟩
  unfold parse at parsed
  split at parsed
  · cases parsed
  · split_ifs at parsed
    · exact .inl (Except.ok.inj parsed ▸ rfl)
    · exact .inl (Except.ok.inj parsed ▸ rfl)
    · rename_i t_cmd _ _ _ _
      cases ran : run platform terminal collect cmd_ t_cmd with
      | error e =>
        rw [ran] at parsed
        exact .inl (Except.ok.inj parsed ▸ rfl)
      | ok o =>
        rw [ran] at parsed
        obtain rfl := Except.ok.inj parsed
        unfold run at ran
        split_ifs at ran
        · exact .inl (Except.ok.inj ran ▸ rfl)
        · exact .inl (Except.ok.inj ran ▸ rfl)
        · split at ran
          · split_ifs at ran
            · exact command ran
            · exact command ran
            · exact command ran
            · exact .inl (Except.ok.inj ran ▸ rfl)
            · exact .inl (Except.ok.inj ran ▸ rfl)
          · exact .inl (Except.ok.inj ran ▸ rfl)

/-! ### Rules by number -/

/-- The commands that name a rule by its number; an inserted rule has at least a word. -/
inductive NumberCommand
  | del
  | insert (word : Text) (words : List Text)

namespace NumberCommand

/-- The words of the command, where `w` stands for the number. -/
def words (command : NumberCommand) (p : Proto) (w : Text) : List Text :=
  match command with
  | .del => ["del","rule",type_name p,w]
  | .insert word words => "insert" :: "rule" :: type_name p :: w :: word :: words

/-- The rules of a list with the command carried out at a position: the rule there is
    deleted, or the new rule is placed there and the others shift. -/
def at_position {F H : Type} [ProtoRule F H] (command : NumberCommand) (platform : Platform) (l : RulesList F) (i : Nat) :
    Except Exn (List (Rule F)) :=
  match command with
  | .del => .ok (l.rules_.eraseIdx i)
  | .insert word words => (ProtoRule.parse platform l.parse_opt_ (ProtoRule.new (word :: words))).map
      fun rule => l.rules_.take i ++ [rule] ++ l.rules_.drop i

end NumberCommand

/-- The word is the decimal numeral of a position in the list. -/
def Names {F : Type} (w : Text) (l : RulesList F) (i : Nat) : Prop :=
  IsNumeral w ∧ decimal w = i ∧ i < l.rules_.length

/-- The command is carried out at the position that the word names; if it names none,
    all rules stay as they are and the client is told an error. -/
def NumberHonoured (platform : Platform) (collect : RulesCollection) (p : Proto) (command : NumberCommand) (w cmd_ : Text)
    (outcome : Except Thrown Outcome) : Prop :=
  (∀ i rules, Names w (collect.list p) i → command.at_position platform (collect.list p) i = .ok rules →
      outcome = .ok { collect := collect.set_list p { collect.list p with rules_ := rules } }) ∧
    ((∀ i, ¬ Names w (collect.list p) i) →
      ∃ e, outcome = .ok { collect := collect, written := [error_text cmd_ e] })

/-- The number that the code takes from a word. -/
def number_of (w : Text) : Nat := (UInt32.ofInt (atoi w)).toNat

/-- The number is past the end of the list, or the one that the word names (which it
    is below 2^32); or the rule to be inserted cannot be parsed. -/
def NumberServed (platform : Platform) (collect : RulesCollection) (p : Proto) (command : NumberCommand) (w : Text) : Prop :=
  (∃ e, command.at_position platform (collect.list p) (number_of w) = .error e) ∨
    (collect.list p).rules_.length ≤ number_of w ∨
    ∃ i, Names w (collect.list p) i ∧ (i < 2^32 ∨
      command.at_position platform (collect.list p) i = command.at_position platform (collect.list p) (number_of w))

theorem number_of_lt (w : Text) : number_of w < 2^32 := UInt32.toNat_lt _

theorem number_of_named {F : Type} {w : Text} {l : RulesList F} {i : Nat} (named : Names w l i) (fits : i < 2^32) :
    number_of w = i := by
  obtain ⟨numeral,value,_⟩ := named
  rw [number_of,toNat_ofInt_atoi numeral (by omega),value]

/-- Whether the new rule can be parsed does not depend on the position. -/
theorem at_position_error {F H : Type} [ProtoRule F H] {command : NumberCommand} {l : RulesList F} {i j : Nat} {e : Exn}
    (error : command.at_position platform l i = .error e) : command.at_position platform l j = .error e := by
  cases command with
  | del => cases error
  | insert word words =>
    simp only [NumberCommand.at_position] at error ⊢
    cases parsed : ProtoRule.parse platform l.parse_opt_ (ProtoRule.new (word :: words) : Rule F) with
    | error e' => rw [parsed] at error; simpa [Except.map] using error
    | ok rule => rw [parsed] at error; simp [Except.map] at error

/-- The checks of `del_rule` and `insert_rule` let pass the numbers of rules. -/
theorem number_checks {α β : Type} (rules : List α) (num : Nat) (empty past : Exn) (done : β) :
    (if rules.isEmpty then Except.error empty else if num > rules.length - 1 then .error past else .ok done) =
      if num < rules.length then .ok done else .error (if rules.isEmpty then empty else past) := by
  cases rules with
  | nil => simp
  | cons r rest =>
    simp only [List.isEmpty_cons,Bool.false_eq_true,↓reduceIte,List.length_cons]
    by_cases inside : num < rest.length + 1
    · rw [if_neg (by omega),if_pos inside]
    · rw [if_pos (by omega),if_neg inside]

/-- `del_rule` deletes the rule at its number, if there is one. -/
theorem del_rule_eq {F : Type} (l : RulesList F) (num : UInt32) :
    ∃ e, l.del_rule num =
      if num.toNat < l.rules_.length then .ok { l with rules_ := l.rules_.eraseIdx num.toNat } else .error e :=
  ⟨_,number_checks l.rules_ num.toNat _ _ _⟩

/-- `insert_rule` puts the parsed rule at its number, if a rule is there. -/
theorem insert_rule_eq {F H : Type} [ProtoRule F H] {l : RulesList F} {given rule : Rule F}
    (parsed : ProtoRule.parse platform l.parse_opt_ given = .ok rule) (num : UInt32) :
    ∃ e, l.insert_rule platform num given =
      if num.toNat < l.rules_.length then
        .ok { l with rules_ := l.rules_.take num.toNat ++ [rule] ++ l.rules_.drop num.toNat }
      else .error e := by
  rw [RulesList.insert_rule,parsed]
  exact ⟨_,number_checks l.rules_ num.toNat _ _ _⟩

/-- A command with a number is carried out at the number that the code takes, if that
    is in the list and the rule can be parsed, and otherwise reports an error. -/
theorem number_command_cases (terminal : Terminal) (collect : RulesCollection) {command : NumberCommand} {w cmd_ : Text}
    (line : tokenize platform ' ' cmd_ = .ok (command.words p w)) :
    (number_of w < (collect.list p).rules_.length ∧
        ∃ rules, command.at_position platform (collect.list p) (number_of w) = .ok rules ∧
          parse platform terminal collect cmd_ =
            .ok { collect := collect.set_list p { collect.list p with rules_ := rules } }) ∨
      (((collect.list p).rules_.length ≤ number_of w ∨
          ∃ e, command.at_position platform (collect.list p) (number_of w) = .error e) ∧
        ∃ e, parse platform terminal collect cmd_ = .ok { collect := collect, written := [error_text cmd_ e] }) := by
  cases command with
  | del =>
    have deleted : rule_command platform collect p "del" w [] =
        ((collect.list p).del_rule (UInt32.ofInt (atoi w))).map (collect.set_list p) := by
      simp [rule_command]
    obtain ⟨e,del⟩ := del_rule_eq (collect.list p) (UInt32.ofInt (atoi w))
    rw [parse_rule_command line,deleted,del]
    by_cases inside : (UInt32.ofInt (atoi w)).toNat < (collect.list p).rules_.length
    · rw [if_pos inside]
      exact .inl ⟨inside,_,rfl,rfl⟩
    · rw [if_neg inside]
      exact .inr ⟨.inl (not_lt.mp inside),e,rfl⟩
  | insert word words =>
    have inserted : rule_command platform collect p "insert" w (word :: words) =
        ((collect.list p).insert_rule platform (UInt32.ofInt (atoi w)) (ProtoRule.new (word :: words))).map
          (collect.set_list p) := by
      simp [rule_command]
    rw [parse_rule_command line,inserted]
    cases parsed : ProtoRule.parse platform (collect.list p).parse_opt_ (ProtoRule.new (word :: words) : Rule (Fields p)) with
    | error e =>
      have thrown : (collect.list p).insert_rule platform (UInt32.ofInt (atoi w)) (ProtoRule.new (word :: words)) =
          .error e := by
        rw [RulesList.insert_rule,parsed]
        rfl
      rw [thrown]
      exact .inr ⟨.inr ⟨e,by rw [NumberCommand.at_position,parsed]; rfl⟩,e,rfl⟩
    | ok rule =>
      obtain ⟨e,insert⟩ := insert_rule_eq parsed (UInt32.ofInt (atoi w))
      rw [insert]
      by_cases inside : (UInt32.ofInt (atoi w)).toNat < (collect.list p).rules_.length
      · rw [if_pos inside]
        exact .inl ⟨inside,_,by rw [NumberCommand.at_position,parsed]; rfl,rfl⟩
      · rw [if_neg inside]
        exact .inr ⟨.inl (not_lt.mp inside),e,rfl⟩

/-- A rule number is honoured exactly if the code takes the number that the word names,
    or one past the end of the list. -/
theorem rule_number_iff (platform : Platform) (terminal : Terminal) (collect : RulesCollection) (p : Proto)
    (command : NumberCommand) (w cmd_ : Text) (line : tokenize platform ' ' cmd_ = .ok (command.words p w)) :
    NumberHonoured platform collect p command w cmd_ (parse platform terminal collect cmd_) ↔
      NumberServed platform collect p command w := by
  have cases_of := number_command_cases terminal collect line
  constructor
  · rintro ⟨carried_out,told⟩
    rcases cases_of with ⟨inside,rules,here,done⟩ | ⟨past | fault,_⟩
    · by_cases named : ∃ i, Names w (collect.list p) i
      · obtain ⟨i,names⟩ := named
        refine .inr (.inr ⟨i,names,.inr ?_⟩)
        cases there : command.at_position platform (collect.list p) i with
        | error e => rw [at_position_error there]
        | ok rules' =>
          have same := carried_out i rules' names there
          rw [done] at same
          have lists := congrArg (fun o : Outcome => (o.collect.list p).rules_) (Except.ok.inj same)
          simp only [RulesCollection.list_set_list] at lists
          rw [here,lists]
      · obtain ⟨e,error⟩ := told fun i names => named ⟨i,names⟩
        rw [done] at error
        have written := congrArg Outcome.written (Except.ok.inj error)
        simp at written
    · exact .inr (.inl past)
    · exact .inl fault
  · intro served
    rcases cases_of with ⟨inside,rules,here,done⟩ | ⟨reason,e,error⟩
    · obtain ⟨i,names,same⟩ : ∃ i, Names w (collect.list p) i ∧
          command.at_position platform (collect.list p) i = command.at_position platform (collect.list p) (number_of w) := by
        rcases served with ⟨e,fault⟩ | past | ⟨i,names,fits | same⟩
        · rw [here] at fault; cases fault
        · omega
        · exact ⟨i,names,by rw [number_of_named names fits]⟩
        · exact ⟨i,names,same⟩
      refine ⟨fun j rules' names' there => ?_,fun nothing => absurd names (nothing i)⟩
      obtain rfl : i = j := names.2.1.symm.trans names'.2.1
      rw [same,here] at there
      rw [done,Except.ok.inj there]
    · refine ⟨fun i rules names there => ?_,fun _ => ⟨e,error⟩⟩
      exfalso
      rcases reason with past | ⟨e',fault⟩
      · -- a number past the end is not the one that the word names
        have fits : i < 2^32 := lt_of_lt_of_le names.2.2 (past.trans (number_of_lt w).le)
        have same := number_of_named names fits
        have inside := names.2.2
        omega
      · rw [at_position_error fault] at there
        cases there

/-- A word that is no number deletes the first rule. -/
theorem word_deletes_rule : ¬ NumberHonoured documented (tcp_collection [sample_rule]) .TCP .del "abc" "del rule TCP abc"
    (parse documented ⟨[],fun _ _ => []⟩ (tcp_collection [sample_rule]) "del rule TCP abc") := by
  rintro ⟨_,told⟩
  have no_numeral : ¬ IsNumeral "abc" := by decide
  obtain ⟨e,error⟩ := told fun i names => no_numeral names.1
  have line : tokenize documented ' ' "del rule TCP abc" = .ok (NumberCommand.del.words .TCP "abc") := by decide +kernel
  have zero : number_of "abc" = 0 := by decide +kernel
  rcases number_command_cases ⟨[],fun _ _ => []⟩ (tcp_collection [sample_rule]) line with
    ⟨_,_,_,done⟩ | ⟨past | ⟨e',fault⟩,_⟩
  · rw [done] at error
    have written := congrArg Outcome.written (Except.ok.inj error)
    simp at written
  · rw [zero] at past
    simp [tcp_collection,RulesCollection.list] at past
  · cases fault

theorem rule_number_first : tokenize documented ' ' "del rule TCP 0" = .ok (NumberCommand.del.words .TCP "0") ∧
    (NumberHonoured documented (tcp_collection [sample_rule]) .TCP .del "0" "del rule TCP 0"
        (parse documented ⟨[],fun _ _ => []⟩ (tcp_collection [sample_rule]) "del rule TCP 0") ↔
      NumberServed documented (tcp_collection [sample_rule]) .TCP .del "0") := by
  have line : tokenize documented ' ' "del rule TCP 0" = .ok (NumberCommand.del.words .TCP "0") := by decide +kernel
  exact ⟨line,rule_number_iff documented ⟨[],fun _ _ => []⟩ (tcp_collection [sample_rule]) .TCP .del "0" _ line⟩

end DdosDetector.ControlSession
