import Mathlib

/-!
Words that agree on their most significant bits. They make a block, which a mask tells
the first and the last word of.
-/
namespace DdosDetector.Blocks
variable {w : Nat}

/-- The words agree on their `n` most significant bits. -/
def Agree (n : Nat) (a x : BitVec w) : Prop := ∀ i < n, a.getMsbD i = x.getMsbD i

/-- The mask of the `n` most significant bits. -/
def mask (w n : Nat) : BitVec w := BitVec.allOnes w <<< (w - n)

theorem agree_iff_shift {n : Nat} (fits : n ≤ w) (a x : BitVec w) : Agree n a x ↔ a >>> (w - n) = x >>> (w - n) := by
  constructor
  · intro agree
    refine BitVec.eq_of_getLsbD_eq ?_
    intro i inside
    rw [BitVec.getLsbD_ushiftRight,BitVec.getLsbD_ushiftRight]
    by_cases above : w - n + i < w
    · have bit := agree (w - 1 - (w - n + i)) (by omega)
      have index : w - 1 - (w - 1 - (w - n + i)) = w - n + i := by omega
      have below : w - 1 - (w - n + i) < w := by omega
      rwa [BitVec.getMsbD_eq_getLsbD,BitVec.getMsbD_eq_getLsbD,index,decide_eq_true below,Bool.true_and,
        Bool.true_and] at bit
    · rw [BitVec.getLsbD_of_ge a _ (by omega),BitVec.getLsbD_of_ge x _ (by omega)]
  · intro same i below
    have bit := congrArg (fun y => y.getLsbD (n - 1 - i)) same
    have index : w - n + (n - 1 - i) = w - 1 - i := by omega
    simp only [BitVec.getLsbD_ushiftRight,index] at bit
    rw [BitVec.getMsbD_eq_getLsbD,BitVec.getMsbD_eq_getLsbD,bit]

theorem and_mask (n : Nat) (a : BitVec w) : a &&& mask w n = (a >>> (w - n)) <<< (w - n) := by
  refine BitVec.eq_of_getLsbD_eq ?_
  intro i inside
  by_cases low : i < w - n
  · simp [mask,low,inside]
  · have index : w - n + (i - (w - n)) = i := by omega
    simp [mask,low,inside,index]

theorem toNat_and_mask (n : Nat) (a : BitVec w) : (a &&& mask w n).toNat = 2^(w - n) * (a.toNat / 2^(w - n)) := by
  have small : 2^(w - n) * (a.toNat / 2^(w - n)) < 2^w := (Nat.mul_div_le _ _).trans_lt a.isLt
  rw [and_mask,BitVec.toNat_shiftLeft,BitVec.toNat_ushiftRight,Nat.shiftLeft_eq,Nat.shiftRight_eq_div_pow,Nat.mul_comm,
    Nat.mod_eq_of_lt small]

theorem toNat_not_mask (w n : Nat) : (~~~(mask w n)).toNat = 2^(w - n) - 1 := by
  refine Nat.eq_of_testBit_eq ?_
  intro i
  rw [Nat.testBit_two_pow_sub_one,BitVec.testBit_toNat,BitVec.getLsbD_not]
  by_cases inside : i < w
  · by_cases low : i < w - n
    · simp [mask,low,inside]
    · simp [mask,low,inside]
  · have high : ¬ i < w - n := by omega
    simp [inside,high]

theorem or_not_mask (n : Nat) (a : BitVec w) : a ||| ~~~(mask w n) = (a &&& mask w n) ||| ~~~(mask w n) := by
  refine BitVec.eq_of_getLsbD_eq ?_
  intro i inside
  rw [BitVec.getLsbD_or,BitVec.getLsbD_or,BitVec.getLsbD_and,BitVec.getLsbD_not]
  cases (mask w n).getLsbD i <;> simp [inside]

theorem toNat_or_not_mask (n : Nat) (a : BitVec w) :
    (a ||| ~~~(mask w n)).toNat = 2^(w - n) * (a.toNat / 2^(w - n)) + (2^(w - n) - 1) := by
  have below : 2^(w - n) - 1 < 2^(w - n) := Nat.sub_lt (Nat.two_pow_pos _) Nat.one_pos
  rw [or_not_mask,BitVec.toNat_or,toNat_and_mask,toNat_not_mask,Nat.two_pow_add_eq_or_of_lt below]

/-- The words that agree with `a` are those from the first of its block to the last. -/
theorem agree_iff_between {n : Nat} (fits : n ≤ w) (a x : BitVec w) :
    Agree n a x ↔ a &&& mask w n ≤ x ∧ x ≤ a ||| ~~~(mask w n) := by
  have positive : 0 < 2^(w - n) := Nat.two_pow_pos _
  rw [agree_iff_shift fits,← BitVec.toNat_inj,BitVec.toNat_ushiftRight,BitVec.toNat_ushiftRight,
    Nat.shiftRight_eq_div_pow,Nat.shiftRight_eq_div_pow,BitVec.le_def,BitVec.le_def,toNat_and_mask,toNat_or_not_mask,
    eq_comm,Nat.div_eq_iff positive]
  constructor
  · rintro ⟨least,most⟩
    constructor
    · rwa [Nat.mul_comm]
    · rw [Nat.mul_comm]
      omega
  · rintro ⟨least,most⟩
    rw [Nat.mul_comm] at least most
    constructor
    · exact least
    · omega

theorem agree_zero (a x : BitVec w) : Agree 0 a x := fun i below => absurd below (Nat.not_lt_zero i)

theorem agree_all (a x : BitVec w) : Agree w a x ↔ x = a := by
  rw [agree_iff_shift (le_refl w),Nat.sub_self,BitVec.ushiftRight_zero,BitVec.ushiftRight_zero,eq_comm]

/-- The block of `a` holds the word zero if `a` is below its size. -/
theorem agree_zero_word_iff {n : Nat} (fits : n ≤ w) (a : BitVec w) : Agree n a 0 ↔ a.toNat < 2^(w - n) := by
  rw [agree_iff_shift fits,← BitVec.toNat_inj,BitVec.toNat_ushiftRight,BitVec.toNat_ushiftRight,
    Nat.shiftRight_eq_div_pow,Nat.shiftRight_eq_div_pow]
  simp [Nat.div_eq_zero_iff]

end DdosDetector.Blocks
