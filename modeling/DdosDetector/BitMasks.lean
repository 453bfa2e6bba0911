import Mathlib

/-!
Partial assignments of bits. A word of bits and a mask stand for the assignment that
gives each position in the mask its bit, and no other position a value; then all bits are
within the mask, and a word agrees with the assignment exactly if masking it leaves the
bits.
-/
namespace DdosDetector.BitMasks

variable {w : Nat} {assigned : Nat → Option Bool} {bits mask : BitVec w}

/-- The bits and the mask stand for the assignment. -/
def Stands (assigned : Nat → Option Bool) (bits mask : BitVec w) : Prop :=
  ∀ i < w, mask.getLsbD i = (assigned i).isSome ∧ bits.getLsbD i = (assigned i == some true)

theorem stands_none : Stands (fun _ => none) (0 : BitVec w) 0 := by
  intro i _
  simp

/-- One more value is stored by setting both bits of its position. -/
theorem Stands.update (stands : Stands assigned bits mask) {bits' mask' : BitVec w} {k : Nat} {v : Bool}
    (bit : ∀ i < w, bits'.getLsbD i = if i = k then v else bits.getLsbD i)
    (set : ∀ i < w, mask'.getLsbD i = if i = k then true else mask.getLsbD i) :
    Stands (Function.update assigned k (some v)) bits' mask' := by
  intro i inside
  rw [bit i inside,set i inside]
  by_cases here : i = k
  · subst here
    cases v <;> simp
  · simpa [here] using stands i inside

/-- Only the values of positions in the word matter. -/
theorem Stands.congr {other : Nat → Option Bool} (stands : Stands assigned bits mask)
    (same : ∀ i < w, assigned i = other i) : Stands other bits mask := by
  intro i inside
  rw [← same i inside]
  exact stands i inside

theorem Stands.contained (stands : Stands assigned bits mask) : bits &&& mask = bits := by
  refine BitVec.eq_of_getLsbD_eq ?_
  intro i inside
  obtain ⟨set,bit⟩ := stands i inside
  rw [BitVec.getLsbD_and,set,bit]
  cases assigned i <;> simp

/-- A word has the assigned bits exactly if masking it leaves the bits. -/
theorem Stands.masked_iff (stands : Stands assigned bits mask) (word : BitVec w) :
    word &&& mask = bits ↔ ∀ i < w, ∀ v, assigned i = some v → word.getLsbD i = v := by
  constructor
  · intro masked i inside v value
    obtain ⟨set,bit⟩ := stands i inside
    have both := congrArg (fun b => b.getLsbD i) masked
    simp only [BitVec.getLsbD_and,set,bit,value,Option.isSome_some,Bool.and_true] at both
    rw [both]
    cases v <;> rfl
  · intro values
    refine BitVec.eq_of_getLsbD_eq ?_
    intro i inside
    obtain ⟨set,bit⟩ := stands i inside
    rw [BitVec.getLsbD_and,set,bit]
    cases value : assigned i with
    | none => simp
    | some v =>
      rw [values i inside v value]
      cases v <;> rfl

/-! ### Words in the opposite order -/

theorem reverse_and (a b : BitVec w) : (a &&& b).reverse = a.reverse &&& b.reverse := by
  refine BitVec.eq_of_getLsbD_eq ?_
  intro i _
  simp [BitVec.getLsbD_reverse,BitVec.getMsbD_and]

/-- Bits and a mask that are the same in both orders do not tell the orders of a word. -/
theorem masked_reverse (mirrored : bits.reverse = bits ∧ mask.reverse = mask) (word : BitVec w) :
    word.reverse &&& mask = bits ↔ word &&& mask = bits := by
  have turned : (word &&& mask).reverse = word.reverse &&& mask := by rw [reverse_and,mirrored.2]
  rw [← turned]
  constructor
  · intro masked
    rw [← BitVec.reverse_reverse_eq (x := word &&& mask),masked,mirrored.1]
  · intro masked
    rw [masked,mirrored.1]

/-- A word is the same in both orders if its bits are set on both sides. -/
theorem reverse_eq_of_set {word : BitVec w} (both : ∀ i < w, word.getLsbD i = true → word.getLsbD (w - 1 - i) = true) :
    word.reverse = word := by
  refine BitVec.eq_of_getLsbD_eq ?_
  intro i inside
  rw [BitVec.getLsbD_reverse,BitVec.getMsbD_eq_getLsbD,decide_eq_true inside,Bool.true_and,Bool.eq_iff_iff]
  constructor
  · intro there
    have here := both (w - 1 - i) (by omega) there
    rwa [show w - 1 - (w - 1 - i) = i by omega] at here
  · exact both i inside

/-- Bits within a mask that do not tell the orders of any word are the same in both
    orders, and so is the mask. -/
theorem mirrored_of_masked (contained : bits &&& mask = bits)
    (same : ∀ word : BitVec w, word.reverse &&& mask = bits ↔ word &&& mask = bits) :
    bits.reverse = bits ∧ mask.reverse = mask := by
  have turned : bits.reverse &&& mask = bits := (same bits).mpr contained
  have opposite (word : BitVec w) (i : Nat) (inside : i < w) : word.reverse.getLsbD i = word.getLsbD (w - 1 - i) := by
    rw [BitVec.getLsbD_reverse,BitVec.getMsbD_eq_getLsbD,decide_eq_true inside,Bool.true_and]
  have bits_mirrored : bits.reverse = bits := by
    refine reverse_eq_of_set ?_
    intro i inside bit
    have both := congrArg (fun b => b.getLsbD i) turned
    simp only [BitVec.getLsbD_and,opposite bits i inside,bit,Bool.and_eq_true] at both
    exact both.1
  refine ⟨bits_mirrored,reverse_eq_of_set ?_⟩
  intro i inside set
  by_contra unset
  rw [Bool.not_eq_true] at unset
  -- a bit outside of the mask does not matter, but its mirror image would
  have within : bits.getLsbD (w - 1 - i) = false := by
    rw [← contained,BitVec.getLsbD_and,unset,Bool.and_false]
  have clear : bits.getLsbD i = false := by
    rw [← bits_mirrored,opposite bits i inside,within]
  have masked : (bits ||| BitVec.twoPow w (w - 1 - i)) &&& mask = bits := by
    refine BitVec.eq_of_getLsbD_eq ?_
    intro j _
    have kept := congrArg (fun b => b.getLsbD j) contained
    rw [BitVec.getLsbD_and] at kept
    rw [BitVec.getLsbD_and,BitVec.getLsbD_or,BitVec.getLsbD_twoPow]
    by_cases here : w - 1 - i = j
    · rw [← here,within,unset,Bool.and_false]
    · simpa [here] using kept
  have both := congrArg (fun b => b.getLsbD i) ((same _).mpr masked)
  simp only [BitVec.getLsbD_and,opposite _ i inside,BitVec.getLsbD_or,BitVec.getLsbD_twoPow,set,clear] at both
  have last : w - 1 - i < w := by omega
  simp [last] at both

end DdosDetector.BitMasks
