import DdosDetector.Parses
import DdosDetector.Provenance

/-!
What a reload leaves in main: of a file whose lines can all be tokenized, exactly the
rules that its lines hold, unused and in their order; of a missing file, main as it is.
-/
namespace DdosDetector.RulesFileLoader

/-- The file does not exist, or it can be read and all of its lines tokenized. -/
def Tokenizes (platform : Platform) : RulesFile → Prop
  | .missing => True
  | .unreadable => False
  | .content text => ∀ line ∈ getlines text, ∃ tokens, tokenize platform ' ' line = .ok tokens

theorem file_rules_unused {platform : Platform} {opt : options_description} {p : Proto} {text : Text}
    {r : Rule (Fields p)} (member : r ∈ file_rules platform opt p (getlines text)) : Unused r.toBaseRule := by
  have loaded : r ∈ loaded_rules platform opt p (.content text) := member
  obtain ⟨_,_,tokens,parsed⟩ : Parsed r := loaded_rules_parsed loaded
  exact parse_unused parsed

theorem reload_content {platform : Platform} {text : Text}
    (readable : ∀ line ∈ getlines text, ∃ tokens, tokenize platform ' ' line = .ok tokens) (collect : RulesCollection)
    (now : time_point) : ∃ collect', reload_config platform (.content text) collect now = .ok collect' ∧
      ∀ p, (collect'.list p).rules_ = file_rules platform (collect.list p).parse_opt_ p (getlines text) := by
  obtain ⟨buff,loaded,added⟩ := load_lines_spec readable (collect.copy true now)
  have reloaded : reload_config platform (.content text) collect now = .ok (collect.assign buff now) := by
    simp only [reload_config,load_file,loaded]
    rfl
  refine ⟨collect.assign buff now,reloaded,fun p => ?_⟩
  simp [RulesCollection.list_assign,added p,RulesCollection.list_copy_true]

/-- A reload leaves exactly the rules of the file in main, and main as it is if there
    is no file. -/
theorem reload_exact (platform : Platform) (file : RulesFile) (collect : RulesCollection) (now : time_point)
    (readable : Tokenizes platform file) :
    ∃ collect', reload_config platform file collect now = .ok collect' ∧
      match file with
      | .content text => ∀ p, (collect'.list p).rules_ = file_rules platform (collect.list p).parse_opt_ p (getlines text) ∧
          ∀ r ∈ (collect'.list p).rules_, Unused r.toBaseRule
      | _ => collect' = collect := by
  cases file with
  | missing => exact ⟨collect,rfl,rfl⟩
  | unreadable => exact False.elim readable
  | content text =>
    obtain ⟨collect',reloaded,rules⟩ := reload_content readable collect now
    refine ⟨collect',reloaded,fun p => ⟨rules p,fun r member => ?_⟩⟩
    rw [rules p] at member
    exact file_rules_unused member

theorem reload_exact_rule : Tokenizes documented (.content "TCP --dstip 10.0.0.1 --pps-th 100p\n# UDP\n") ∧
    ∃ collect', reload_config documented (.content "TCP --dstip 10.0.0.1 --pps-th 100p\n# UDP\n") (tcp_collection []) 1 =
        .ok collect' ∧
      ∀ p, (collect'.list p).rules_ = file_rules documented ((tcp_collection []).list p).parse_opt_ p
          (getlines "TCP --dstip 10.0.0.1 --pps-th 100p\n# UDP\n") ∧
        ∀ r ∈ (collect'.list p).rules_, Unused r.toBaseRule := by
  have tokenized : Tokenizes documented (.content "TCP --dstip 10.0.0.1 --pps-th 100p\n# UDP\n") := by
    intro line member
    have lines : getlines "TCP --dstip 10.0.0.1 --pps-th 100p\n# UDP\n" =
        ["TCP --dstip 10.0.0.1 --pps-th 100p".toList,"# UDP".toList] := by decide +kernel
    rw [lines,List.mem_cons,List.mem_singleton] at member
    rcases member with rfl | rfl
    · exact ⟨("TCP" : Text) :: sample_words,by decide +kernel⟩
    · exact ⟨[("#" : Text),"UDP"],by decide +kernel⟩
  exact ⟨tokenized,reload_exact documented (.content "TCP --dstip 10.0.0.1 --pps-th 100p\n# UDP\n") (tcp_collection []) 1
    tokenized⟩

end DdosDetector.RulesFileLoader
