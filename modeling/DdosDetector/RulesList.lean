import DdosDetector.Protocols

/-!
`RulesList<T>`, each method body as one step under the mutex of the list, and
what each of them does to the rules as entered, to the counters and to the
destinations. `operator+=` reads the clock before it takes the mutex, so that its
two halves are separate here.
-/
namespace DdosDetector

structure RulesList (Fields : Type) where
  rules_ : List (Rule Fields) := []
  parse_opt_ : options_description
  last_update_ : time_point

/-- What a receiver passes to `check_list`: the L4 header, the addresses and the
    length of the whole packet. -/
structure Packet (Header : Type) where
  l4header : Header
  s_addr : UInt32
  d_addr : UInt32
  len : UInt32

namespace RulesList
variable {Fields Header : Type} [ProtoRule Fields Header]

/-- `operator==`: the vectors have the same size and equal elements. -/
def eq (l other : RulesList Fields) : Bool := l.rules_.isEqv other.rules_ ProtoRule.eq

/-- `operator=`, which leaves the parse options alone. -/
def assign (l other : RulesList Fields) : RulesList Fields :=
  { l with rules_ := other.rules_, last_update_ := other.last_update_ }

/-- The half of `operator+=` before the mutex. -/
def touch (l : RulesList Fields) (now : time_point) : RulesList Fields := { l with last_update_ := now }

/-- The half of `operator+=` under the mutex. -/
def merge (l other : RulesList Fields) : Except Exn (RulesList Fields × RulesList Fields) :=
  if l.rules_.length = other.rules_.length then
    .ok ({ l with rules_ := (List.zipWith Rule.add l.rules_ other.rules_).map Prod.fst },
      { other with rules_ := (List.zipWith Rule.add l.rules_ other.rules_).map Prod.snd })
  else .error (.RuleException "Current rules list size() != new rules list size()")

/-- One rule of `calc_delta`: the rates from the counter differences. -/
def rate (platform : Platform) (delta_time : time_point) (r old : Rule Fields) : Rule Fields :=
  { r with
    pps := platform.round_rate (r.count_packets - old.count_packets) delta_time
    bps := platform.round_rate (r.count_bytes - old.count_bytes) delta_time }

def calc_delta (platform : Platform) (l rules_old : RulesList Fields) : RulesList Fields :=
  if l.rules_.length = rules_old.rules_.length then
    { l with rules_ := List.zipWith (rate platform (l.last_update_ - rules_old.last_update_)) l.rules_ rules_old.rules_ }
  else l

/-- One rule of `check_triggers`, at the time that it reads: the rule afterwards,
    and the job and the event if the trigger fired. -/
def check_trigger (platform : Platform) (r : Rule Fields) (cur_time : Int) :
    Rule Fields × Option (TriggerJob × Text) :=
  let fired := r.toBaseRule.is_triggered cur_time
  ({ r with toBaseRule := { fired.2 with dst_top := fired.2.dst_top.clear } },
    if fired.1 then
      some ({ toAction := r.act, data_ := fired.2.get_job_info platform },fired.2.get_trigger_influx platform)
    else none)

/-- `check_triggers`, where the check of rule `i` reads the time `cur_time i`. -/
def check_triggers (platform : Platform) (cur_time : Nat → Int) (l : RulesList Fields) :
    RulesList Fields × List (TriggerJob × Text) :=
  let checked := l.rules_.mapIdx fun i r => check_trigger platform r (cur_time i)
  ({ l with rules_ := checked.map Prod.fst },checked.filterMap Prod.snd)

def add_rule (platform : Platform) (l : RulesList Fields) (rule : Rule Fields) : Except Exn (RulesList Fields) := do
  let rule ← ProtoRule.parse platform l.parse_opt_ rule
  return { l with rules_ := l.rules_ ++ [rule] }

def clear (l : RulesList Fields) : RulesList Fields := { l with rules_ := [] }

def del_rule (l : RulesList Fields) (num : UInt32) : Except Exn (RulesList Fields) :=
  if l.rules_.isEmpty then .error (.RuleException "rules list is empty")
  else if num.toNat > l.rules_.length - 1 then
    .error (.RuleException ("not found ".toList ++ (toString num.toNat).toList ++ " rule".toList))
  else .ok { l with rules_ := l.rules_.eraseIdx num.toNat }

def insert_rule (platform : Platform) (l : RulesList Fields) (num : UInt32) (rule : Rule Fields) :
    Except Exn (RulesList Fields) := do
  let rule ← ProtoRule.parse platform l.parse_opt_ rule
  if l.rules_.isEmpty then .error (.RuleException "rules list is empty")
  else if num.toNat > l.rules_.length - 1 then
    .error (.RuleException ("incorrect number rule '".toList ++ (toString num.toNat).toList ++
      "', it should be: 0 < num < ".toList ++ (toString l.rules_.length).toList))
  else .ok { l with rules_ := l.rules_.take num.toNat ++ [rule] ++ l.rules_.drop num.toNat }

/-- A rule counts a packet. -/
def count (r : Rule Fields) (d_addr len : UInt32) : Rule Fields :=
  { r with
    count_packets := r.count_packets + 1
    count_bytes := r.count_bytes + len.toUInt64
    dst_top := r.dst_top.increase d_addr }

/-- The loop of `check_list`: the rules afterwards and what is returned. -/
def check_rules (packet : Packet Header) : List (Rule Fields) → List (Rule Fields) × Bool
  | [] => ([],false)
  | r :: rest =>
    if ProtoRule.check_packet r packet.l4header packet.s_addr packet.d_addr then
      if !r.next_rule then (count r packet.d_addr packet.len :: rest,true)
      else
        let (rest',verdict) := check_rules packet rest
        (count r packet.d_addr packet.len :: rest',verdict)
    else
      let (rest',verdict) := check_rules packet rest
      (r :: rest',verdict)

def check_list (l : RulesList Fields) (packet : Packet Header) : RulesList Fields × Bool :=
  ({ l with rules_ := (check_rules packet l.rules_).1 },(check_rules packet l.rules_).2)

/-! ### The rules as entered -/

/-- The rules of the list as they were entered. -/
def entered (l : RulesList Fields) : List (Rule Fields) := l.rules_.map Rule.entered

theorem entered_length {l m : RulesList Fields} (same : l.entered = m.entered) :
    l.rules_.length = m.rules_.length := by
  simpa [entered] using congrArg List.length same

theorem entered_getElem? {l m : RulesList Fields} (same : l.entered = m.entered) (k : Nat) :
    l.rules_[k]?.map Rule.entered = m.rules_[k]?.map Rule.entered := by
  simpa [entered] using congrArg (·[k]?) same

private theorem isEqv_entered (rules others : List (Rule Fields)) :
    (rules.map Rule.entered).isEqv (others.map Rule.entered) ProtoRule.eq = rules.isEqv others ProtoRule.eq := by
  induction rules generalizing others with
  | nil => cases others <;> rfl
  | cons r rest ih =>
    cases others with
    | nil => rfl
    | cons other others => simp [List.isEqv,ih,ProtoRule.eq_entered]

/-- Whether two lists compare equal depends on the rules as entered only. -/
theorem eq_congr {l m l' m' : RulesList Fields} (left : l.entered = l'.entered) (right : m.entered = m'.entered) :
    l.eq m = l'.eq m' := by
  rw [eq,← isEqv_entered,← entered,← entered,left,right,entered,entered,isEqv_entered,eq]

theorem eq_iff_getElem? {l m : RulesList Fields} : l.eq m = true ↔
    l.rules_.length = m.rules_.length ∧
      ∀ (k : Nat) (r r' : Rule Fields), l.rules_[k]? = some r → m.rules_[k]? = some r' →
        ProtoRule.eq r r' = true := by
  unfold eq
  generalize l.rules_ = rules
  generalize m.rules_ = others
  induction rules generalizing others with
  | nil => cases others <;> simp [List.isEqv]
  | cons r rest ih =>
    cases others with
    | nil => simp [List.isEqv]
    | cons other others =>
      simp only [List.isEqv,Bool.and_eq_true,ih,List.length_cons,Nat.add_right_cancel_iff]
      constructor
      · rintro ⟨head,size,tail⟩
        refine ⟨size,?_⟩
        intro k a b
        cases k with
        | zero => simp only [List.getElem?_cons_zero,Option.some.injEq]; rintro rfl rfl; exact head
        | succ k => simpa using tail k a b
      · rintro ⟨size,all⟩
        exact ⟨all 0 r other rfl rfl,size,fun k a b left right => all (k+1) a b (by simpa using left) (by simpa using right)⟩

theorem eq_self (l : RulesList Fields) : l.eq l = true :=
  eq_iff_getElem?.mpr ⟨rfl,fun k r r' left right => by
    rw [left] at right
    exact Option.some.inj right ▸ ProtoRule.eq_self r⟩

theorem eq_of_entered {l m : RulesList Fields} (same : l.entered = m.entered) : l.eq m = true :=
  (eq_congr same rfl).trans (eq_self m)

theorem length_of_eq {l m : RulesList Fields} (same : l.eq m = true) : l.rules_.length = m.rules_.length :=
  (eq_iff_getElem?.mp same).1

@[simp] theorem entered_assign (l other : RulesList Fields) : (l.assign other).entered = other.entered := rfl
@[simp] theorem entered_touch (l : RulesList Fields) (now : time_point) : (l.touch now).entered = l.entered := rfl
@[simp] theorem rules_touch (l : RulesList Fields) (now : time_point) : (l.touch now).rules_ = l.rules_ := rfl
@[simp] theorem rules_assign (l other : RulesList Fields) : (l.assign other).rules_ = other.rules_ := rfl

@[simp] theorem entered_count (r : Rule Fields) (d_addr len : UInt32) : (count r d_addr len).entered = r.entered := rfl

theorem entered_check_list (l : RulesList Fields) (packet : Packet Header) :
    (l.check_list packet).1.entered = l.entered := by
  unfold check_list entered
  induction l.rules_ with
  | nil => rfl
  | cons r rest ih =>
    simp only [check_rules]
    split_ifs <;> simp_all

/-- A merge succeeds exactly on lists of one size. -/
theorem merge_ok_iff (l other : RulesList Fields) :
    (∃ pair, l.merge other = .ok pair) ↔ l.rules_.length = other.rules_.length := by
  unfold merge
  split_ifs with size <;> simp [size]

theorem sizes_of_merge_error {l other : RulesList Fields} {error : Exn} (thrown : l.merge other = .error error) :
    l.rules_.length ≠ other.rules_.length := by
  intro equal
  obtain ⟨pair,merged⟩ := (merge_ok_iff l other).mpr equal
  cases merged.symm.trans thrown

theorem merge_spec {l other l' other' : RulesList Fields} (merged : l.merge other = .ok (l',other')) :
    l.rules_.length = other.rules_.length ∧
      l' = { l with rules_ := (List.zipWith Rule.add l.rules_ other.rules_).map Prod.fst } ∧
      other' = { other with rules_ := (List.zipWith Rule.add l.rules_ other.rules_).map Prod.snd } := by
  unfold merge at merged
  split_ifs at merged with size
  cases merged
  exact ⟨size,rfl,rfl⟩

private theorem zip_entered (rules others : List (Rule Fields)) (size : rules.length = others.length) :
    ((List.zipWith Rule.add rules others).map Prod.fst).map Rule.entered = rules.map Rule.entered ∧
      ((List.zipWith Rule.add rules others).map Prod.snd).map Rule.entered = others.map Rule.entered := by
  induction rules generalizing others with
  | nil => cases others <;> simp_all
  | cons r rest ih =>
    cases others with
    | nil => simp at size
    | cons other others => simpa using ih others (by simpa using size)

theorem entered_merge {l other l' other' : RulesList Fields} (merged : l.merge other = .ok (l',other')) :
    l'.entered = l.entered ∧ other'.entered = other.entered := by
  obtain ⟨size,rfl,rfl⟩ := merge_spec merged
  exact zip_entered l.rules_ other.rules_ size

theorem entered_calc_delta (platform : Platform) (l rules_old : RulesList Fields) :
    (l.calc_delta platform rules_old).entered = l.entered := by
  unfold calc_delta entered
  split_ifs with size
  · apply List.ext_getElem? fun k => ?_
    simp only [List.map_zipWith,List.getElem?_zipWith,List.getElem?_map]
    cases left : l.rules_[k]? with
    | none => rfl
    | some r =>
      have inside : k < rules_old.rules_.length := size ▸ (List.getElem?_eq_some_iff.mp left).1
      simp [List.getElem?_eq_getElem inside,Rule.entered,rate]
  · rfl

theorem entered_check_trigger (platform : Platform) (r : Rule Fields) (cur_time : Int) :
    (check_trigger platform r cur_time).1.entered = r.entered := by
  unfold check_trigger BaseRule.is_triggered Rule.entered
  split_ifs <;> rfl

theorem entered_check_triggers (platform : Platform) (cur_time : Nat → Int) (l : RulesList Fields) :
    (l.check_triggers platform cur_time).1.entered = l.entered := by
  apply List.ext_getElem? fun k => ?_
  simp only [entered,check_triggers,List.getElem?_map,List.getElem?_mapIdx]
  cases l.rules_[k]? with
  | none => rfl
  | some r => simp [entered_check_trigger]

end RulesList
end DdosDetector
