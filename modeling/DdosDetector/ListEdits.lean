import DdosDetector.RuleNumbers
import DdosDetector.Sequences

/-!
Edits of a list as the methods carry them out, one statement after the other. What a
method has done before it throws stays done; it turns out that all of them throw before
they touch the list. So calls in any order, whether they throw or not, take the list
through the changes of a sequence that the successful ones name, and a rule that stays
in the list keeps all it holds.
-/
namespace DdosDetector
open Sequences (Change carry)
variable {F H : Type}

/-! ### The methods, statement by statement -/

/-- A method returns or throws, and leaves the list in some state in both cases. -/
abbrev Method (F : Type) := EStateM Exn (RulesList F)

namespace Method

/-- A call of a function that does not see the list. -/
def outside {α : Type} : Except Exn α → Method F α
  | .ok a => pure a
  | .error e => throw e

variable [ProtoRule F H]

def add_rule (platform : Platform) (rule : Rule F) : Method F Unit := do
  let rule ← outside (ProtoRule.parse platform (← get).parse_opt_ rule)
  modify fun l => { l with rules_ := l.rules_ ++ [rule] }

def del_rule (num : UInt32) : Method F Unit := do
  let l ← get
  if l.rules_.isEmpty then throw (.RuleException "rules list is empty")
  if num.toNat > l.rules_.length - 1 then
    throw (.RuleException ("not found ".toList ++ (toString num.toNat).toList ++ " rule".toList))
  modify fun l => { l with rules_ := l.rules_.eraseIdx num.toNat }

def insert_rule (platform : Platform) (num : UInt32) (rule : Rule F) : Method F Unit := do
  let rule ← outside (ProtoRule.parse platform (← get).parse_opt_ rule)
  let l ← get
  if l.rules_.isEmpty then throw (.RuleException "rules list is empty")
  if num.toNat > l.rules_.length - 1 then
    throw (.RuleException ("incorrect number rule '".toList ++ (toString num.toNat).toList ++
      "', it should be: 0 < num < ".toList ++ (toString l.rules_.length).toList))
  let mut temp : List (Rule F) := []
  temp := temp ++ l.rules_.take num.toNat
  temp := temp ++ [rule]
  temp := temp ++ l.rules_.drop num.toNat
  modify fun l => { l with rules_ := temp }

end Method

variable [ProtoRule F H]

def Edit.method (platform : Platform) : Edit F → Method F Unit
  | .add_rule rule => Method.add_rule platform rule
  | .insert_rule num rule => Method.insert_rule platform num rule
  | .del_rule num => Method.del_rule num

/-- A call whose caller goes on if it throws. -/
def attempt (method : Method F Unit) : Method F Unit := do
  try method catch _ => pure ()

/-- The calls one after the other. -/
def calls (platform : Platform) : List (Edit F) → Method F Unit
  | [] => pure ()
  | e :: rest => do
    attempt (e.method platform)
    calls platform rest

theorem Method.run_outside {α : Type} (x : Except Exn α) (l : RulesList F) :
    (outside x).run l =
      match x with
      | .ok a => .ok a l
      | .error error => .error error l := by
  cases x <;> rfl

theorem attempt_run (method : Method F Unit) (l : RulesList F) :
    (attempt method).run l =
      match method.run l with
      | .ok _ after => .ok () after
      | .error _ after => .ok () after := by
  have caught : (attempt method).run l = EStateM.tryCatch method (fun _ => pure ()) l := rfl
  rw [caught,EStateM.tryCatch,EStateM.run]
  cases method l <;> rfl

/-- The checks of `del_rule` and `insert_rule` throw before the list is changed. -/
theorem Method.run_checks (l : RulesList F) (num : Nat) (empty past : Exn) (done : RulesList F → RulesList F) :
    (do
      if l.rules_.isEmpty then throw empty
      if num > l.rules_.length - 1 then throw past
      modify done : Method F Unit).run l =
      match (if l.rules_.isEmpty then .error empty else if num > l.rules_.length - 1 then .error past
        else .ok (done l) : Except Exn (RulesList F)) with
      | .ok after => .ok () after
      | .error error => .error error l := by
  split_ifs <;> rfl

/-- The methods do what they do in one step: a method that throws has not touched the
    list. -/
theorem Edit.method_run (platform : Platform) (l : RulesList F) (e : Edit F) :
    (e.method platform).run l =
      match e.apply platform l with
      | .ok after => .ok () after
      | .error error => .error error l := by
  cases e with
  | add_rule rule =>
    unfold method apply
    dsimp only
    unfold Method.add_rule RulesList.add_rule
    rw [EStateM.run_bind,EStateM.run_get]
    dsimp only
    rw [EStateM.run_bind,Method.run_outside]
    cases ProtoRule.parse platform l.parse_opt_ rule <;> rfl
  | insert_rule num rule =>
    unfold method apply
    dsimp only
    unfold Method.insert_rule RulesList.insert_rule
    rw [EStateM.run_bind,EStateM.run_get]
    dsimp only
    rw [EStateM.run_bind,Method.run_outside]
    cases ProtoRule.parse platform l.parse_opt_ rule with
    | error error => rfl
    | ok made =>
      dsimp only
      rw [EStateM.run_bind,EStateM.run_get]
      dsimp only
      rw [Method.run_checks]
      rfl
  | del_rule num =>
    unfold method apply
    dsimp only
    unfold Method.del_rule RulesList.del_rule
    rw [EStateM.run_bind,EStateM.run_get]
    dsimp only
    rw [Method.run_checks]

/-! ### The reference sequence -/

/-- What a call throws on: a rule that cannot be parsed, and a number past the last rule,
    as every number is for an empty list. -/
def Edit.Throws (platform : Platform) (l : RulesList F) : Edit F → Prop
  | .add_rule rule => ∃ error, ProtoRule.parse platform l.parse_opt_ rule = .error error
  | .insert_rule num rule =>
    (∃ error, ProtoRule.parse platform l.parse_opt_ rule = .error error) ∨ l.rules_.length ≤ num.toNat
  | .del_rule num => l.rules_.length ≤ num.toNat

/-- The rule that a call enters, if it can be parsed. -/
def Edit.entry (platform : Platform) (opt : options_description) (e : Edit F) : Option (Rule F) :=
  e.rule.bind fun rule => (ProtoRule.parse platform opt rule).toOption

/-- The change of a sequence that a call is meant to be, with `name` for the rule that it
    enters. -/
def Edit.change {α : Type} (platform : Platform) (opt : options_description) (e : Edit F) (name : Rule F → α) :
    Option (Change α) :=
  match e with
  | .add_rule rule => (ProtoRule.parse platform opt rule).toOption.map fun made => .append (name made)
  | .insert_rule num rule => (ProtoRule.parse platform opt rule).toOption.map fun made => .insert num.toNat (name made)
  | .del_rule num => some (.delete num.toNat)

/-- Which rule it is: the one that was at a position at first, or the one of a call. -/
inductive Mark
  | old (i : Nat)
  | new (k : Nat)
deriving DecidableEq

/-- The sequence of the marks after the calls. -/
def reference (platform : Platform) (l : RulesList F) (es : List (Edit F)) : List Mark :=
  (es.zipIdx.filterMap fun ek => ek.1.change platform l.parse_opt_ fun _ => Mark.new ek.2).foldl carry
    ((List.range l.rules_.length).map Mark.old)

/-- The rule of a mark: the one that was in the list, with all it holds, or the one that
    `parse` made for the call. -/
def marked (platform : Platform) (l : RulesList F) (es : List (Edit F)) : Mark → Option (Rule F)
  | .old i => l.rules_[i]?
  | .new k => es[k]?.bind (Edit.entry platform l.parse_opt_)

theorem take_append_drop_eq_insertIdx {α : Type} (xs : List α) (a : α) {i : Nat} (inside : i ≤ xs.length) :
    xs.take i ++ [a] ++ xs.drop i = xs.insertIdx i a := by
  obtain ⟨before,after,rfl,size,inserted⟩ := List.exists_of_modifyTailIdx (List.cons a) inside
  rw [List.insertIdx,inserted,← size]
  simp

/-- A call carries its change out, and throws if it has none or the list does not have
    its position. -/
theorem Edit.apply_cases (platform : Platform) (l : RulesList F) (e : Edit F) :
    (e.Throws platform l ∧ (∃ error, e.apply platform l = .error error) ∧
        ∀ c ∈ e.change platform l.parse_opt_ id, carry l.rules_ c = l.rules_) ∨
      (¬ e.Throws platform l ∧ ∃ c, e.change platform l.parse_opt_ id = some c ∧
        e.apply platform l = .ok { l with rules_ := carry l.rules_ c }) := by
  cases e with
  | add_rule rule =>
    simp only [Throws,apply,RulesList.add_rule,change]
    cases parsed : ProtoRule.parse platform l.parse_opt_ rule with
    | error error => exact .inl ⟨⟨error,rfl⟩,⟨error,rfl⟩,by simp [Except.toOption]⟩
    | ok made => exact .inr ⟨by simp,_,rfl,by simp [carry,Change.Has,Change.apply]⟩
  | insert_rule num rule =>
    cases parsed : ProtoRule.parse platform l.parse_opt_ rule with
    | error error =>
      have thrown : apply platform l (.insert_rule num rule) = .error error := by
        rw [apply,RulesList.insert_rule,parsed]
        rfl
      exact .inl ⟨.inl ⟨error,parsed⟩,⟨error,thrown⟩,by simp [change,parsed,Except.toOption]⟩
    | ok made =>
      obtain ⟨error,inserted⟩ := ControlSession.insert_rule_eq parsed num
      simp only [Throws,apply,change,parsed,inserted]
      by_cases inside : num.toNat < l.rules_.length
      · refine .inr ⟨by simp [inside],.insert num.toNat made,rfl,?_⟩
        have has : (Change.insert num.toNat made).Has l.rules_.length := inside
        rw [if_pos inside,take_append_drop_eq_insertIdx _ _ inside.le,carry,if_pos has]
        rfl
      · exact .inl ⟨.inr (by omega),⟨error,by rw [if_neg inside]⟩,by simp [Except.toOption,carry,Change.Has,inside]⟩
  | del_rule num =>
    obtain ⟨error,deleted⟩ := ControlSession.del_rule_eq l num
    simp only [Throws,apply,change,deleted]
    by_cases inside : num.toNat < l.rules_.length
    · exact .inr ⟨by omega,_,rfl,by simp [carry,Change.Has,Change.apply,inside]⟩
    · exact .inl ⟨by omega,⟨error,by rw [if_neg inside]⟩,by simp [carry,Change.Has,inside]⟩

/-- After the calls the rules are those of the changes carried out; nothing else of the
    list changes. -/
theorem calls_run (platform : Platform) (es : List (Edit F)) (l : RulesList F) :
    (calls platform es).run l =
      .ok () { l with rules_ := (es.filterMap fun e => e.change platform l.parse_opt_ id).foldl carry l.rules_ } := by
  induction es generalizing l with
  | nil => rfl
  | cons e rest ih =>
    rw [calls,EStateM.run_bind,attempt_run,Edit.method_run]
    rcases e.apply_cases platform l with ⟨_,⟨error,thrown⟩,idle⟩ | ⟨_,c,change,applied⟩
    · rw [thrown]
      dsimp only
      rw [ih l]
      cases change : e.change platform l.parse_opt_ id with
      | none => rw [List.filterMap_cons,change]
      | some c => rw [List.filterMap_cons,change,List.foldl_cons,idle c change]
    · rw [applied,List.filterMap_cons,change,List.foldl_cons]
      dsimp only
      rw [ih]

theorem Edit.change_map {α β : Type} (platform : Platform) (opt : options_description) (e : Edit F) (name : Rule F → α)
    (f : α → β) : (e.change platform opt name).map (Change.map f) = e.change platform opt (f ∘ name) := by
  cases e <;> simp only [change,Option.map_map,Option.map_some] <;> rfl

/-- The rule that comes in with a call's change is the one that its text was parsed
    into. -/
theorem Edit.change_congr {α : Type} {platform : Platform} {opt : options_description} {e : Edit F} {name name' : Rule F → α}
    (same : ∀ made, e.entry platform opt = some made → name made = name' made) :
    e.change platform opt name = e.change platform opt name' := by
  cases e with
  | add_rule rule =>
    simp only [change,entry,Edit.rule,Option.bind_some] at same ⊢
    cases parsed : (ProtoRule.parse platform opt rule).toOption with
    | none => rfl
    | some made => simp [same made parsed]
  | insert_rule num rule =>
    simp only [change,entry,Edit.rule,Option.bind_some] at same ⊢
    cases parsed : (ProtoRule.parse platform opt rule).toOption with
    | none => rfl
    | some made => simp [same made parsed]
  | del_rule num => rfl

/-- The changes of the marks are the changes of the rules that they stand for. -/
theorem marked_changes (platform : Platform) (l : RulesList F) (es : List (Edit F)) :
    (es.zipIdx.filterMap fun ek => ek.1.change platform l.parse_opt_ fun _ => Mark.new ek.2).map
        (Change.map (marked platform l es)) =
      (es.filterMap fun e => e.change platform l.parse_opt_ id).map (Change.map some) := by
  rw [List.map_filterMap,List.map_filterMap]
  have forget : es = es.zipIdx.map Prod.fst := (List.zipIdx_map_fst 0 es).symm
  conv_rhs => rw [forget,List.filterMap_map]
  refine List.filterMap_congr ?_
  intro ek member
  simp only [Function.comp_apply,Edit.change_map]
  refine Edit.change_congr ?_
  intro made entered
  have here : es[ek.2]? = some ek.1 := List.mem_zipIdx_iff_getElem?.mp member
  simp [marked,here,entered]

theorem reference_rules (platform : Platform) (l : RulesList F) (es : List (Edit F)) :
    (reference platform l es).map (marked platform l es) =
      ((es.filterMap fun e => e.change platform l.parse_opt_ id).foldl carry l.rules_).map some := by
  have first : ((List.range l.rules_.length).map Mark.old).map (marked platform l es) = l.rules_.map some := by
    refine List.ext_getElem? ?_
    intro i
    by_cases inside : i < l.rules_.length <;> simp [marked,inside]
  rw [reference,← Sequences.foldl_carry_map,marked_changes,first,Sequences.foldl_carry_map]

theorem Edit.new_mark {platform : Platform} {opt : options_description} {e : Edit F} {k : Nat} {c : Change Mark}
    (change : e.change platform opt (fun _ => Mark.new k) = some c) {m : Mark} (new : c.new? = some m) : m = .new k := by
  cases e with
  | add_rule rule | insert_rule num rule =>
    obtain ⟨_,_,rfl⟩ := Option.map_eq_some_iff.mp change
    exact (Option.some.inj new).symm
  | del_rule num =>
    obtain rfl := Option.some.inj change
    cases new

theorem reference_nodup (platform : Platform) (l : RulesList F) (es : List (Edit F)) :
    (reference platform l es).Nodup := by
  refine Sequences.nodup_foldl_carry ?_ ?_ ?_
  · exact List.nodup_range.map fun i j same => Mark.old.inj same
  · intro c brought m new old
    obtain ⟨ek,_,change⟩ := List.mem_filterMap.mp brought
    obtain rfl := Edit.new_mark change new
    simp at old
  · rw [List.pairwise_filterMap]
    have numbers : (es.zipIdx.map Prod.snd).Nodup := by
      rw [List.zipIdx_map_snd]
      exact List.nodup_range'
    refine (List.pairwise_map.mp numbers).imp fun different c change d change' m new new' => ?_
    exact different (Mark.new.inj ((Edit.new_mark change new).symm.trans (Edit.new_mark change' new')))

/-- Calls in any order, of which some throw, take the list through the changes that they
    are meant to be: each rule in it is the one of its mark, with all that it held, and
    nothing else of the list changes. A call throws exactly on a text that cannot be
    parsed or a number past the last rule, and then leaves the list as it is. -/
theorem edits_are_changes (platform : Platform) (l : RulesList F) (es : List (Edit F)) :
    ∃ after, (calls platform es).run l = .ok () after ∧
      (after.rules_.map some = (reference platform l es).map (marked platform l es) ∧ (reference platform l es).Nodup) ∧
      after.parse_opt_ = l.parse_opt_ ∧ after.last_update_ = l.last_update_ ∧
      ∀ e : Edit F, ((∃ error left, (e.method platform).run after = .error error left) ↔ e.Throws platform after) ∧
        ∀ error left, (e.method platform).run after = .error error left → left = after := by
  refine ⟨_,calls_run platform es l,⟨(reference_rules platform l es).symm,reference_nodup platform l es⟩,rfl,rfl,
    fun e => ?_⟩
  generalize ({ l with rules_ := _ } : RulesList F) = after
  rw [Edit.method_run]
  rcases e.apply_cases platform after with ⟨throws,⟨error,thrown⟩,_⟩ | ⟨passes,c,_,applied⟩
  · simp [thrown,throws]
  · simp [applied,passes]

end DdosDetector
