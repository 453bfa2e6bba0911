import DdosDetector.Counters
import DdosDetector.Numerals
import DdosDetector.Parses

/-!
The thresholds as they are written: a decimal numeral and a unit. The number goes
through 64-bit multiplications, a division by 8 for bits, and a cut to 32 bits; a
threshold that comes out as zero is off.
-/
namespace DdosDetector

/-- The trigger comparison of `is_triggered`, made only if the trigger is set. -/
def exceeds (trigger : UInt32) (rate : UInt64) : Prop := trigger > 0 ∧ rate > trigger.toUInt64

namespace Counter

def option : Counter → String
  | .packets => "pps-th"
  | .bytes => "bps-th"
/-- The units of the option, by rank. -/
def units : Counter → List Text
  | .packets => size_p
  | .bytes => size_b
/-- How many of the smallest unit one of what is counted makes. -/
def scale : Counter → Nat
  | .packets => 1
  | .bytes => 8
def trigger : Counter → BaseRule → UInt32
  | .packets, r => r.pps_trigger
  | .bytes, r => r.bps_trigger
def its_byte : Counter → Bool
  | .packets => false
  | .bytes => true

end Counter

theorem toNat_multiplied (num : UInt64) (pos : Nat) :
    ((List.range pos).foldl (fun num _ => num * 1000) num).toNat = num.toNat * 1000^pos % 2^64 := by
  induction pos with
  | zero => simp [Nat.mod_eq_of_lt num.toNat_lt]
  | succ pos ih =>
    rw [List.range_succ,List.foldl_append,List.foldl_cons,List.foldl_nil,UInt64.toNat_mul,ih]
    show num.toNat * 1000^pos % 2^64 * 1000 % 2^64 = num.toNat * 1000^(pos + 1) % 2^64
    rw [Nat.mod_mul_mod,Nat.mul_assoc,pow_succ 1000 pos]

theorem get_index_of_getElem? {α : Type} [DecidableEq α] {vec : List α} (nodup : vec.Nodup) {k : Nat} {value : α}
    (here : vec[k]? = some value) : get_index vec value = .ok k := by
  obtain ⟨inside,rfl⟩ := List.getElem?_eq_some_iff.mp here
  rw [get_index,if_pos (List.getElem_mem inside),nodup.idxOf_getElem k inside]

/-- A unit begins with a letter, and no two units are equal. -/
theorem units_end (c : Counter) : ∀ unit ∈ c.units, unit ≠ [] ∧ EndsNumber unit := by
  cases c <;> decide

theorem units_nodup (c : Counter) : c.units.Nodup := by
  cases c <;> decide

/-- `from_short_size` of a numeral and a unit. -/
theorem from_short_size_written {c : Counter} {digits unit : Text} {k : Nat} (numeral : IsNumeral digits)
    (rank : c.units[k]? = some unit) : from_short_size (digits ++ unit) c.its_byte =
      if decimal digits ≥ 2^64 then .error (.out_of_range "stoul")
      else .ok ((List.range k).foldl (fun num _ => num * 1000) (UInt64.ofNat (decimal digits)) / UInt64.ofNat c.scale) := by
  obtain ⟨nonempty,ends⟩ := units_end c unit (List.mem_of_getElem? rank)
  have longer : digits.length ≠ (digits ++ unit).length := by simpa using nonempty
  have found := get_index_of_getElem? (units_nodup c) rank
  have list : (if c.its_byte then size_b else size_p) = c.units := by cases c <;> rfl
  have divisor : (if c.its_byte then 8 else 1 : UInt64) = UInt64.ofNat c.scale := by cases c <;> rfl
  rw [from_short_size,stoul_digits numeral ends,list,divisor]
  by_cases large : decimal digits ≥ 2^64
  · rw [if_pos large,if_pos large]
    rfl
  · rw [if_neg large,if_neg large]
    show (if digits.length = (digits ++ unit).length then _ else _) = _
    rw [if_neg longer]
    show (get_index c.units ((digits ++ unit).drop digits.length)).bind _ = _
    rw [List.drop_left,found]
    rfl

/-- The trigger is what is written, in what is counted, modulo 2^32. -/
theorem trigger_written {platform : Platform} {vm : variables_map} {r made : BaseRule}
    (accepted : r.BaseRule_parse platform vm = .ok made) {c : Counter} {digits unit : Text} {k : Nat}
    (numeral : IsNumeral digits) (rank : c.units[k]? = some unit) (written : vm.value c.option = some (digits ++ unit)) :
    (c.trigger made).toNat = decimal digits * 1000^k / c.scale % 2^32 := by
  have field : given (vm.value c.option) (c.trigger r) (fun v => (from_short_size v c.its_byte).map UInt64.toUInt32) =
      .ok (c.trigger made) := by
    cases c with
    | packets => exact (base_parsed accepted).pps_trigger
    | bytes => exact (base_parsed accepted).bps_trigger
  have read : (from_short_size (digits ++ unit) c.its_byte).map UInt64.toUInt32 = .ok (c.trigger made) := by
    rwa [written] at field
  rw [from_short_size_written numeral rank] at read
  split_ifs at read with large
  · cases read
  rw [← Except.ok.inj read]
  have number : (UInt64.ofNat (decimal digits)).toNat = decimal digits := UInt64.toNat_ofNat_of_lt' (not_le.mp large)
  rw [UInt64.toNat_toUInt32,UInt64.toNat_div,toNat_multiplied,number]
  cases c with
  | packets => simp [Counter.scale]
  | bytes =>
    show decimal digits * 1000^k % (8 * 2^61) / 8 % 2^32 = _
    rw [Nat.mod_mul_right_div_self]
    exact Nat.mod_mod_of_dvd _ (by norm_num)

/-- A trigger stands for the threshold `size` in the smallest unit. -/
def StandsFor (trigger : UInt32) (c : Counter) (size : Nat) : Prop :=
  ∀ rate : UInt64, exceeds trigger rate ↔ size < c.scale * rate.toNat

theorem scale_pos (c : Counter) : 0 < c.scale := by
  cases c <;> decide

theorem exceeds_iff (trigger : UInt32) (rate : UInt64) :
    exceeds trigger rate ↔ 0 < trigger.toNat ∧ trigger.toNat < rate.toNat := by
  rw [exceeds,gt_iff_lt,gt_iff_lt,UInt32.lt_iff_toNat_lt,UInt64.lt_iff_toNat_lt,UInt32.toNat_toUInt64]
  rfl

/-- It is set and the quotient itself, or off, where no 64-bit rate goes beyond. -/
theorem stands_for_iff (trigger : UInt32) (c : Counter) (size : Nat) : StandsFor trigger c size ↔
    (0 < trigger.toNat ∧ trigger.toNat = size / c.scale) ∨ (trigger.toNat = 0 ∧ 2^64 - 1 ≤ size / c.scale) := by
  have compare (rate : UInt64) : size < c.scale * rate.toNat ↔ size / c.scale < rate.toNat := by
    rw [Nat.div_lt_iff_lt_mul (scale_pos c),Nat.mul_comm]
  have small := trigger.toNat_lt
  constructor
  · intro exact_for
    by_cases off : trigger.toNat = 0
    · -- the largest rate does not exceed a trigger that is off
      have top := (exact_for (UInt64.ofNat (2^64 - 1))).not.mp (by simp [exceeds_iff,off])
      rw [compare,UInt64.toNat_ofNat_of_lt' (by decide)] at top
      exact .inr ⟨off,not_lt.mp top⟩
    · have at_trigger := exact_for (UInt64.ofNat trigger.toNat)
      have above := exact_for (UInt64.ofNat (trigger.toNat + 1))
      rw [exceeds_iff,compare,UInt64.toNat_ofNat_of_lt' (by change _ < 2^64; omega)] at at_trigger above
      refine .inl ⟨by omega,?_⟩
      omega
  · rintro (⟨set,same⟩ | ⟨off,beyond⟩) rate
    · rw [exceeds_iff,compare,← same]
      exact and_iff_right set
    · have range := rate.toNat_lt
      rw [exceeds_iff,compare,off]
      omega

/-- What a written threshold triggers on is what is written exactly if it makes at
    least one packet or byte and less than 2^32, or is beyond every rate and comes out
    as off. -/
theorem threshold_exact_iff {platform : Platform} {vm : variables_map} {r made : BaseRule}
    (accepted : r.BaseRule_parse platform vm = .ok made) {c : Counter} {digits unit : Text} {k : Nat}
    (numeral : IsNumeral digits) (rank : c.units[k]? = some unit) (written : vm.value c.option = some (digits ++ unit)) :
    StandsFor (c.trigger made) c (decimal digits * 1000^k) ↔
      (0 < decimal digits * 1000^k / c.scale ∧ decimal digits * 1000^k / c.scale < 2^32) ∨
        (2^64 - 1 ≤ decimal digits * 1000^k / c.scale ∧ decimal digits * 1000^k / c.scale % 2^32 = 0) := by
  rw [stands_for_iff,trigger_written accepted numeral rank written]
  generalize decimal digits * 1000^k / c.scale = quotient
  omega

/-- A command line with one threshold and nothing else. -/
def one_threshold (c : Counter) (size : Text) : variables_map :=
  ⟨fun name => if name = c.option then some size else none,fun _ => none,fun _ => false⟩

/-- Five gigapackets are accepted, and an alarm is raised from 705032705 packets on. -/
theorem five_gigapackets : ∃ made, ({} : BaseRule).BaseRule_parse documented (one_threshold .packets "5Gp") = .ok made ∧
    ¬ StandsFor (Counter.packets.trigger made) .packets (decimal "5" * 1000^3) ∧
    exceeds (Counter.packets.trigger made) 705032705 := by
  refine ⟨_,rfl,?_,?_⟩
  · rw [stands_for_iff]
    decide +kernel
  · rw [exceeds_iff]
    decide +kernel

/-- 100 megabits are what they say. -/
theorem threshold_exact_megabits : ∃ made,
    ({} : BaseRule).BaseRule_parse documented (one_threshold .bytes "100Mb") = .ok made ∧
      (StandsFor (Counter.bytes.trigger made) .bytes (decimal "100" * 1000^2) ↔
        (0 < decimal "100" * 1000^2 / Counter.bytes.scale ∧ decimal "100" * 1000^2 / Counter.bytes.scale < 2^32) ∨
          (2^64 - 1 ≤ decimal "100" * 1000^2 / Counter.bytes.scale ∧
            decimal "100" * 1000^2 / Counter.bytes.scale % 2^32 = 0)) := by
  have accepted : ({} : BaseRule).BaseRule_parse documented (one_threshold .bytes "100Mb") = .ok _ := rfl
  have numeral : IsNumeral "100" := by decide
  have rank : Counter.bytes.units[2]? = some ("Mb" : Text) := rfl
  have written : (one_threshold .bytes "100Mb").value Counter.bytes.option = some (("100" : Text) ++ ("Mb" : Text)) := rfl
  exact ⟨_,accepted,threshold_exact_iff accepted numeral rank written⟩

end DdosDetector
