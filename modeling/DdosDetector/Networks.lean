import DdosDetector.Blocks
import DdosDetector.Numerals
import DdosDetector.Parses

/-!
The addresses that a network option selects: those of the CIDR block that is written,
but for the address zero, which no range holds, and for the blocks of no bits and of the
address zero, which the mask and the pair of zeros do not tell apart.
-/
namespace DdosDetector

/-- The range is enabled, and holds the address exactly if it is wanted. -/
def Selects (r : NumRange UInt32) (x : UInt32) (wanted : Prop) : Prop := r.stat = true ∧ (r.in_this x = true ↔ wanted)

/-- The range of an option, assigned to a criterion that is not given otherwise. -/
def option_range (platform : Platform) (ipstr : Text) : NumRange UInt32 :=
  NumRange.empty.assign (range_from_ip_string platform ipstr)

theorem selects_assigned {range : UInt32 × UInt32} (set : range.1 ≠ 0 ∨ range.2 ≠ 0) (x : UInt32) (wanted : Prop) :
    Selects (NumRange.empty.assign range) x wanted ↔ ((x ≠ 0 ∧ range.1 ≤ x ∧ x ≤ range.2) ↔ wanted) := by
  have assigned : NumRange.empty.assign range = ⟨range.1,range.2,true⟩ := if_pos set
  simp [Selects,assigned,NumRange.stat,NumRange.in_this]

theorem range_plain {platform : Platform} {text : Text} {a : UInt32} (address : platform.address_from_string text = .ok a)
    (plain : '/' ∉ text) : range_from_ip_string platform text = (a,a) := by
  simp only [range_from_ip_string,plain,↓reduceIte,address]
  rfl

theorem range_masked {platform : Platform} {text : Text} {a : UInt32} (address : platform.address_from_string text = .ok a)
    (plain : '/' ∉ text) (bits : Text) : range_from_ip_string platform (text ++ '/' :: bits) = network_range a (atoi bits) := by
  have member : '/' ∈ text ++ '/' :: bits := by simp
  simp only [range_from_ip_string,member,↓reduceIte,takeWhile_separator plain,dropWhile_separator plain,List.drop_one,
    List.tail_cons,address]
  rfl

theorem shifted_mask {n : Nat} (positive : 0 < n) (fits : n ≤ 32) :
    (0 - ((1 : UInt32) <<< UInt32.ofInt (32 - (n : Int)))).toBitVec = Blocks.mask 32 n := by
  have all : ∀ n : Nat, n ≤ 32 → 0 < n →
      (0 - ((1 : UInt32) <<< UInt32.ofInt (32 - (n : Int)))).toBitVec = Blocks.mask 32 n := by decide
  exact all n fits positive

/-- The range of a mask of one bit or more, as the bits that `a` keeps and those that
    are free. -/
theorem network_range_mask {n : Nat} (positive : 0 < n) (fits : n ≤ 32) (a : UInt32) :
    ∃ mask : UInt32, mask.toBitVec = Blocks.mask 32 n ∧ network_range a n = (a &&& mask,
      if a = 0 ∧ mask = 0xFFFFFFFF then 0xFFFFFFFF else if a = 0 then ~~~a &&& ~~~mask else a ||| ~~~mask) := by
  have bits : (n : Int) > 0 := by omega
  refine ⟨_,shifted_mask positive fits,?_⟩
  simp only [network_range,bits,↓reduceIte]

theorem between_iff_agree {n : Nat} (fits : n ≤ 32) {mask : UInt32} (bits : mask.toBitVec = Blocks.mask 32 n) (a x : UInt32) :
    (a &&& mask ≤ x ∧ x ≤ a ||| ~~~mask) ↔ Blocks.Agree n a.toBitVec x.toBitVec := by
  rw [Blocks.agree_iff_between fits,UInt32.le_iff_toBitVec_le,UInt32.le_iff_toBitVec_le,UInt32.toBitVec_and,
    UInt32.toBitVec_or,UInt32.toBitVec_not,bits]

theorem free_bits_zero {n : Nat} {mask : UInt32} (bits : mask.toBitVec = Blocks.mask 32 n) :
    ~~~mask = 0 ↔ 32 ≤ n := by
  have size := Blocks.toNat_not_mask 32 n
  have range : 0 < 2^(32 - n) := Nat.two_pow_pos _
  rw [← bits,← UInt32.toBitVec_not] at size
  rw [← UInt32.toNat_inj]
  show (~~~mask).toBitVec.toNat = 0 ↔ 32 ≤ n
  rw [size]
  constructor
  · intro none
    have one : 2^(32 - n) = 1 := by omega
    rcases Nat.pow_eq_one.mp one with base | exponent
    · exact absurd base (by decide)
    · omega
  · intro all
    rw [Nat.sub_eq_zero_of_le all]
    rfl

theorem whole_mask_iff {n : Nat} (fits : n ≤ 32) {mask : UInt32} (bits : mask.toBitVec = Blocks.mask 32 n) :
    mask = 0xFFFFFFFF ↔ n = 32 := by
  have free := free_bits_zero bits
  constructor
  · intro ones
    have none : ~~~mask = 0 := by
      rw [ones]
      rfl
    exact le_antisymm fits (free.mp none)
  · intro all
    have none : ~~~mask = 0 := free.mpr all.ge
    rw [← UInt32.not_not (a := mask),none]
    rfl

/-- The three branches for the end of the range store the last address of the block,
    but for the address zero alone. -/
theorem range_end {n : Nat} (fits : n ≤ 32) {mask : UInt32} (bits : mask.toBitVec = Blocks.mask 32 n) {a : UInt32}
    (alone : ¬ (a = 0 ∧ n = 32)) :
    (if a = 0 ∧ mask = 0xFFFFFFFF then 0xFFFFFFFF else if a = 0 then ~~~a &&& ~~~mask else a ||| ~~~mask) =
      a ||| ~~~mask := by
  have some_free : ¬ (a = 0 ∧ mask = 0xFFFFFFFF) := by
    rwa [whole_mask_iff fits bits]
  rw [if_neg some_free]
  split_ifs with address
  · subst address
    simp
  · rfl

/-- The range from the first to the last address of a block selects the block but for
    the address zero. -/
theorem selects_block {n : Nat} (fits : n ≤ 32) {mask : UInt32} (bits : mask.toBitVec = Blocks.mask 32 n) {a : UInt32}
    (set : a ≠ 0 ∨ n < 32) (x : UInt32) :
    Selects (NumRange.empty.assign (a &&& mask,a ||| ~~~mask)) x (Blocks.Agree n a.toBitVec x.toBitVec) ↔
      (x = 0 → 2^(32 - n) ≤ a.toNat) := by
  have last : a ||| ~~~mask ≠ 0 := by
    intro zero
    rw [UInt32.or_eq_zero_iff,free_bits_zero bits] at zero
    rcases set with address | some_free
    · exact address zero.1
    · exact absurd zero.2 (not_le.mpr some_free)
  have zero_free : Blocks.Agree n a.toBitVec (0 : UInt32).toBitVec ↔ a.toNat < 2^(32 - n) :=
    Blocks.agree_zero_word_iff fits a.toBitVec
  rw [selects_assigned (.inr last),between_iff_agree fits bits]
  constructor
  · rintro same rfl
    rw [zero_free] at same
    simpa using same
  · intro large
    by_cases zero : x = 0
    · subst zero
      rw [zero_free]
      simpa using large rfl
    · simp [zero]

theorem between_self {a : UInt32} (nonzero : a ≠ 0) (x : UInt32) : (x ≠ 0 ∧ a ≤ x ∧ x ≤ a) ↔ x = a := by
  constructor
  · rintro ⟨_,least,most⟩
    exact UInt32.le_antisymm most least
  · rintro rfl
    exact ⟨nonzero,UInt32.le_refl x,UInt32.le_refl x⟩

theorem le_top_address (x : UInt32) : x ≤ 0xFFFFFFFF := by
  have range := x.toNat_lt
  rw [UInt32.le_iff_toNat_le]
  show x.toNat ≤ 4294967295
  omega

/-- A network option of `a` and `n` bits selects `x` as the block does exactly if the
    block has some bits, or is that of zero or of `x` itself; it is not the address zero
    alone; and `x` is not the address zero in it. -/
theorem selects_network_iff {n : Nat} (fits : n ≤ 32) (a x : UInt32) :
    Selects (NumRange.empty.assign (network_range a n)) x (Blocks.Agree n a.toBitVec x.toBitVec) ↔
      (n = 0 → a = 0 ∨ x = a) ∧ (n = 32 → a ≠ 0) ∧ (x = 0 → 2^(32 - n) ≤ a.toNat) := by
  rcases Nat.eq_zero_or_pos n with rfl | positive
  · have all : Blocks.Agree 0 a.toBitVec x.toBitVec ↔ True := iff_true_intro (Blocks.agree_zero _ _)
    rw [all]
    by_cases zero : a = 0
    · have range : network_range 0 (0 : Nat) = (0,0xFFFFFFFF) := by decide
      have top := le_top_address x
      rw [zero,range,selects_assigned (.inr (by decide))]
      simp [top]
    · have ones : (0xFFFFFFFF : UInt32) = -1 := by decide
      have range : network_range a (0 : Nat) = (a,a) := by
        simp [network_range,zero,ones]
      rw [range,selects_assigned (.inl zero),between_self zero]
      constructor
      · intro same
        have here := same.mpr trivial
        exact ⟨fun _ => .inr here,by simp,fun none => absurd (here ▸ none) zero⟩
      · rintro ⟨block,_,_⟩
        exact iff_true_intro ((block rfl).resolve_left zero)
  · obtain ⟨mask,bits,range⟩ := network_range_mask positive fits a
    rw [range]
    by_cases alone : a = 0 ∧ n = 32
    · obtain ⟨rfl,rfl⟩ := alone
      have same : Blocks.Agree 32 (0 : UInt32).toBitVec x.toBitVec ↔ x = 0 := by
        rw [Blocks.agree_all,UInt32.toBitVec_inj]
      have top := le_top_address x
      rw [if_pos ⟨rfl,(whole_mask_iff fits bits).mpr rfl⟩,selects_assigned (.inr (show (0xFFFFFFFF : UInt32) ≠ 0 by decide)),same]
      constructor
      · intro only_zero
        exact absurd only_zero (by simp [top])
      · rintro ⟨_,not_zero,_⟩
        exact absurd rfl (not_zero rfl)
    · have set : a ≠ 0 ∨ n < 32 := by
        by_cases address : a = 0
        · have short : n ≠ 32 := fun all => alone ⟨address,all⟩
          exact .inr (by omega)
        · exact .inl address
      rw [range_end fits bits alone,selects_block fits bits set]
      constructor
      · intro large
        refine ⟨fun none => absurd none (by omega),fun all address => alone ⟨address,all⟩,large⟩
      · exact fun condition => condition.2.2

/-- The range of one address selects it unless it is zero, which is taken for no range. -/
theorem selects_plain_iff (a x : UInt32) : Selects (NumRange.empty.assign (a,a)) x (x = a) ↔ a ≠ 0 := by
  by_cases zero : a = 0
  · subst zero
    have off : (NumRange.empty : NumRange UInt32).assign (0,0) = .empty := if_neg (by simp)
    rw [off]
    constructor
    · intro selected
      exact absurd selected.1 (by decide)
    · intro nonzero
      exact absurd rfl nonzero
  · rw [selects_assigned (.inl zero),between_self zero]
    simp [zero]

/-- What a network option selects is its CIDR block for these blocks and addresses
    only; what a plain address selects is the address, unless it is zero. -/
theorem network_option_iff {platform : Platform} {text : Text} {a : UInt32}
    (address : platform.address_from_string text = .ok a) (plain : '/' ∉ text) (x : UInt32) :
    (∀ bits, IsNumeral bits → decimal bits ≤ 32 →
      (Selects (option_range platform (text ++ '/' :: bits)) x (Blocks.Agree (decimal bits) a.toBitVec x.toBitVec) ↔
        (decimal bits = 0 → a = 0 ∨ x = a) ∧ (decimal bits = 32 → a ≠ 0) ∧ (x = 0 → 2^(32 - decimal bits) ≤ a.toNat))) ∧
      (Selects (option_range platform text) x (x = a) ↔ a ≠ 0) := by
  constructor
  · intro bits numeral fits
    rw [option_range,range_masked address plain,atoi_small numeral (by omega)]
    exact selects_network_iff fits a x
  · rw [option_range,range_plain address plain]
    exact selects_plain_iff a x

theorem network_option_private :
    (∀ bits, IsNumeral bits → decimal bits ≤ 32 →
      (Selects (option_range documented ("10.0.0.0".toList ++ '/' :: bits)) 0x0A010203
          (Blocks.Agree (decimal bits) (0x0A000000 : UInt32).toBitVec (0x0A010203 : UInt32).toBitVec) ↔
        (decimal bits = 0 → (0x0A000000 : UInt32) = 0 ∨ (0x0A010203 : UInt32) = 0x0A000000) ∧
          (decimal bits = 32 → (0x0A000000 : UInt32) ≠ 0) ∧
          ((0x0A010203 : UInt32) = 0 → 2^(32 - decimal bits) ≤ (0x0A000000 : UInt32).toNat))) ∧
      (Selects (option_range documented "10.0.0.0".toList) 0x0A010203 ((0x0A010203 : UInt32) = 0x0A000000) ↔
        (0x0A000000 : UInt32) ≠ 0) := by
  have address : documented.address_from_string "10.0.0.0".toList = .ok 0x0A000000 := by decide +kernel
  exact network_option_iff address (by decide) 0x0A010203

/-- The network `10.0.0.0/0` holds one address only. -/
theorem no_bits_one_address : ¬ ∀ (text bits : Text) (a x : UInt32), documented.address_from_string text = .ok a →
    '/' ∉ text → IsNumeral bits → decimal bits ≤ 32 →
      Selects (option_range documented (text ++ '/' :: bits)) x (Blocks.Agree (decimal bits) a.toBitVec x.toBitVec) := by
  intro every
  have address : documented.address_from_string "10.0.0.0".toList = .ok 0x0A000000 := by decide +kernel
  have selected := every "10.0.0.0".toList "0".toList 0x0A000000 0x0A010203 address (by decide) (by decide) (by decide)
  have range : option_range documented ("10.0.0.0".toList ++ '/' :: "0".toList) = ⟨0x0A000000,0x0A000000,true⟩ := by
    decide +kernel
  rw [range] at selected
  exact absurd (selected.2.mpr (Blocks.agree_zero _ _)) (by decide)

end DdosDetector
