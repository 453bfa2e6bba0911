import DdosDetector.Parses

/-!
The text of a rule, which is joined from its words. The join puts no quotes or escapes
back, so that only words with nothing special in them are read from it again.
-/
namespace DdosDetector

/-- The grammar of a line of words. -/
abbrev word_grammar : EscapedList.Grammar Char := escaped_list_grammar ' '

theorem word_grammar_apart : word_grammar.Apart where
  separator := by decide
  quotes := by decide
  line_letter := by
    unfold EscapedList.Grammar.Special
    decide
  line := by
    unfold EscapedList.Grammar.Special
    decide

theorem tokenize_iff {platform : Platform} (boost : platform.escaped_list = escaped_list_separator) {line : Text}
    {words : List Text} : tokenize platform ' ' line = .ok words ↔ word_grammar.words line = .ok words := by
  rw [tokenize,boost,escaped_list_separator,EscapedList.Grammar.words]
  cases word_grammar.split line with
  | ok fields => simp [Except.map]
  | error fault => cases fault <;> simp [Except.map]

theorem join_eq (words : List Text) : CommandParser.join words = word_grammar.join words := rfl

/-- A rule's text is joined from the words that it was parsed from. -/
theorem text_rule_joined {platform : Platform} {opt : options_description} {p : Proto} {words : List Text}
    {made : Rule (Fields p)} (parsed : ProtoRule.parse platform opt (ProtoRule.new words) = .ok made) :
    made.text_rule = CommandParser.join words := by
  obtain ⟨vm,shared,_⟩ := parse_parsed parsed
  obtain ⟨rule_type,base⟩ := shared.base
  have new_words : (ProtoRule.new words : Rule (Fields p)).tokenize_rule = words := by cases p <;> rfl
  rw [base.frame]
  exact congrArg CommandParser.join new_words

/-- The words of a line are read back from their join exactly if its only escapes are
    those of a new line, and no blank stands within quotes. The text of a rule that ends
    such a line then denotes the same rule. -/
theorem join_inverts_iff {platform : Platform} (boost : platform.escaped_list = escaped_list_separator) {line : Text}
    {words : List Text} (tokens : tokenize platform ' ' line = .ok words) :
    (tokenize platform ' ' (CommandParser.join words) = .ok words ↔ word_grammar.Bare false line) ∧
      (word_grammar.Bare false line → ∀ (p : Proto) (opt : options_description) (k : Nat) (made : Rule (Fields p)),
        ProtoRule.parse platform opt (ProtoRule.new (words.drop k)) = .ok made →
          ∃ again, tokenize platform ' ' made.text_rule = .ok again ∧
            ProtoRule.parse platform opt (ProtoRule.new again) = .ok made) := by
  have read := (tokenize_iff boost).mp tokens
  constructor
  · rw [tokenize_iff boost,join_eq]
    exact EscapedList.words_join_words_iff word_grammar_apart read
  · intro bare p opt k made parsed
    have plain := (EscapedList.words_special_iff word_grammar_apart read).mpr bare
    have some_letter : ∀ w ∈ words, w ≠ [] := EscapedList.words_ne_nil read
    refine ⟨words.drop k,?_,parsed⟩
    rw [text_rule_joined parsed,tokenize_iff boost,join_eq,EscapedList.words_join_iff word_grammar_apart]
    · exact fun w member => plain w (List.mem_of_mem_drop member)
    · exact fun w member => some_letter w (List.mem_of_mem_drop member)

theorem join_inverts_quotes : tokenize documented ' ' (CommandParser.join ["--comment","flood\n"]) = .ok ["--comment","flood\n"] := by
  have tokens : tokenize documented ' ' "--comment 'flood'\\n" = .ok ["--comment","flood\n"] := by decide +kernel
  have bare : word_grammar.Bare false "--comment 'flood'\\n" := by
    simp [EscapedList.bare_cons,EscapedList.bare_nil,escaped_list_grammar]
  exact (join_inverts_iff rfl tokens).1.mpr bare

/-- A comment of two words falls apart. -/
theorem comment_falls_apart : tokenize documented ' ' "--comment 'SYN flood'" = .ok ["--comment","SYN flood"] ∧
    tokenize documented ' ' (CommandParser.join ["--comment","SYN flood"]) = .ok ["--comment","SYN","flood"] ∧
    tokenize documented ' ' (CommandParser.join ["--comment","SYN flood"]) ≠ .ok ["--comment","SYN flood"] := by
  have read : tokenize documented ' ' (CommandParser.join ["--comment","SYN flood"]) = .ok ["--comment","SYN","flood"] := by
    decide +kernel
  refine ⟨by decide +kernel,read,?_⟩
  intro same
  have words := Except.ok.inj (read.symm.trans same)
  exact absurd (congrArg List.length words) (by decide)

end DdosDetector
