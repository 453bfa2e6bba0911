import DdosDetector.Loops
import DdosDetector.Control

/-!
How `get_rules` shows a rate. `to_short_size` divides by 1000 until less than that is
left; its bound on the number of divisions is tested before the last of them, so that
sizes from 1000^6 on are given a prefix past the end of the list, and bits are counted
modulo 2^64.
-/
namespace DdosDetector
open Loops (Loop)

def pref_b : List Text := ["b/s","Kb/s","Mb/s","Gb/s","Tb/s","Pb/s"]
def pref_p : List Text := ["p/s","Kp/s","Mp/s","Gp/s","Tp/s","Pp/s"]

/-- The variables of `to_short_size`. -/
structure ShortSize where
  size : UInt64
  rem : UInt64 := 0
  cur : Nat := 0
deriving DecidableEq

namespace ShortSize

/-- The variables before the loop, with bytes converted to bits. -/
def start (size : UInt64) (its_byte : Bool) : ShortSize := { size := size * (if its_byte then 8 else 1) }

/-- A round of the loop. -/
def round (v : ShortSize) : Option ShortSize :=
  if v.size ≥ 1000 ∧ v.cur < pref_b.length ∧ v.cur < pref_p.length then
    some { size := v.size / 1000, rem := v.size % 1000, cur := v.cur + 1 }
  else none

/-- The size, as it was given: exactly, in bits for bytes. -/
def exact (size : UInt64) (its_byte : Bool) : Nat := (if its_byte then 8 else 1) * size.toNat

/-- The prefix is in both lists; what is left of the size and the last remainder are
    those of the exact size. -/
structure Faithful (size : UInt64) (its_byte : Bool) (v : ShortSize) : Prop where
  in_range : v.cur < pref_b.length ∧ v.cur < pref_p.length
  quotient : ShortSize.exact size its_byte / 1000^v.cur = v.size.toNat
  remainder : 0 < v.cur → v.rem.toNat = ShortSize.exact size its_byte / 1000^(v.cur - 1) % 1000

/-- What the variables hold of the size that the loop starts with. -/
structure Divided (whole : Nat) (v : ShortSize) : Prop where
  quotient : whole / 1000^v.cur = v.size.toNat
  remainder : 0 < v.cur → v.rem.toNat = whole / 1000^(v.cur - 1) % 1000
  reached : 0 < v.cur → 1000^v.cur ≤ whole
  bound : v.cur ≤ 6

theorem round_eq_some {v v' : ShortSize} (taken : v.round = some v') :
    1000 ≤ v.size.toNat ∧ v.cur < 6 ∧ v' = { size := v.size / 1000, rem := v.size % 1000, cur := v.cur + 1 } := by
  unfold round at taken
  split_ifs at taken with go_on
  exact ⟨go_on.1,go_on.2.1,(Option.some.inj taken).symm⟩

theorem round_eq_none {v : ShortSize} (ended : v.round = none) : v.size.toNat < 1000 ∨ 6 ≤ v.cur := by
  unfold round at ended
  split_ifs at ended with go_on
  by_contra more
  rw [not_or,not_lt,not_le] at more
  exact go_on ⟨more.1,more.2,more.2⟩

theorem divided_start (size : UInt64) (its_byte : Bool) :
    Divided (start size its_byte).size.toNat (start size its_byte) :=
  ⟨by simp [start],by simp [start],by simp [start],by simp [start]⟩

theorem divided_round {whole : Nat} {v v' : ShortSize} (divided : Divided whole v) (taken : v.round = some v') :
    Divided whole v' := by
  obtain ⟨large,bound,rfl⟩ := round_eq_some taken
  have quotient := divided.quotient
  refine ⟨?_,fun _ => ?_,fun _ => ?_,bound⟩
  · rw [pow_succ,← Nat.div_div_eq_div_mul,quotient]
    rfl
  · rw [Nat.add_sub_cancel,quotient]
    rfl
  · rw [← quotient,Nat.le_div_iff_mul_le (Nat.pow_pos (by decide))] at large
    rw [pow_succ]
    omega

/-- The loop ends, after at most six rounds. -/
theorem loop_ends (v : ShortSize) : ∃ n t, Loop round v n t ∧ n ≤ 6 - v.cur := by
  refine Loops.ends_of_measure (fun v => 6 - v.cur) (fun v v' taken => ?_) v
  obtain ⟨_,bound,rfl⟩ := round_eq_some taken
  show 6 - (v.cur + 1) < 6 - v.cur
  omega

theorem loop_divided {size : UInt64} {its_byte : Bool} {n : Nat} {v : ShortSize}
    (loop : Loop round (start size its_byte) n v) :
    Divided (start size its_byte).size.toNat v ∧ (v.size.toNat < 1000 ∨ 6 ≤ v.cur) := by
  obtain ⟨divided,ended⟩ := loop.invariant (divided_start size its_byte) fun _ _ => divided_round
  exact ⟨divided,round_eq_none ended⟩

/-- The prefix is in the lists exactly where the size that the loop starts with is less
    than 1000^6. -/
theorem in_range_iff {size : UInt64} {its_byte : Bool} {n : Nat} {v : ShortSize}
    (loop : Loop round (start size its_byte) n v) : v.cur < 6 ↔ (start size its_byte).size.toNat < 1000^6 := by
  obtain ⟨divided,ended⟩ := loop_divided loop
  constructor
  · intro inside
    have small : v.size.toNat < 1000 := ended.resolve_right (not_le.mpr inside)
    rw [← divided.quotient,Nat.div_lt_iff_lt_mul (Nat.pow_pos (by decide)),← pow_succ'] at small
    exact small.trans_le (Nat.pow_le_pow_right (by decide) inside)
  · intro small
    by_contra outside
    have six : v.cur = 6 := le_antisymm divided.bound (not_lt.mp outside)
    have reached := divided.reached (by omega)
    rw [six] at reached
    omega

/-- The loop starts with the exact size, but for whole multiples of 2^64. -/
theorem start_size (size : UInt64) (its_byte : Bool) :
    (start size its_byte).size.toNat = exact size its_byte % 2^64 := by
  cases its_byte with
  | false => simp [start,exact]
  | true =>
    show (size * 8).toNat = 8 * size.toNat % 2^64
    rw [UInt64.toNat_mul,Nat.mul_comm]
    rfl

/-- The loop ends for every size, and is in range and faithful at its end exactly where
    the exact size is less than 1000^6. -/
theorem faithful_iff (size : UInt64) (its_byte : Bool) : ∃ n v, Loop round (start size its_byte) n v ∧
    (Faithful size its_byte v ↔ exact size its_byte < 1000^6) := by
  obtain ⟨n,v,loop,_⟩ := loop_ends (start size its_byte)
  refine ⟨n,v,loop,?_⟩
  obtain ⟨divided,ended⟩ := loop_divided loop
  constructor
  · intro faithful
    have small : v.size.toNat < 1000 := ended.resolve_right (not_le.mpr faithful.in_range.1)
    rw [← faithful.quotient,Nat.div_lt_iff_lt_mul (Nat.pow_pos (by decide)),← pow_succ'] at small
    exact small.trans_le (Nat.pow_le_pow_right (by decide) faithful.in_range.1)
  · intro small
    have whole : (start size its_byte).size.toNat = exact size its_byte := by
      rw [start_size]
      exact Nat.mod_eq_of_lt (by omega)
    have inside : v.cur < 6 := (in_range_iff loop).mpr (whole ▸ small)
    exact ⟨⟨inside,inside⟩,whole ▸ divided.quotient,whole ▸ divided.remainder⟩

/-- The largest rate in packets is shown with a prefix that is not there. -/
theorem largest_rate_out_of_range : ∃ size its_byte, ∀ n v, Loop round (start size its_byte) n v →
    ¬ Faithful size its_byte v := by
  refine ⟨0xFFFFFFFFFFFFFFFF,false,?_⟩
  intro n v loop faithful
  have small := (in_range_iff loop).mp faithful.in_range.1
  revert small
  decide

end ShortSize

end DdosDetector
