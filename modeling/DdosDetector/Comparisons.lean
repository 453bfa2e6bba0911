import DdosDetector.Numerals
import DdosDetector.Parser

/-!
The comparisons of a field with a number. `numcomp_from_string` leaves the number to
`std::stoul`, which takes blanks and a sign before it, and cuts it to the type of the
field.
-/
namespace DdosDetector

/-- The types of compared fields: their numbers, and the conversion that keeps the low
    bits of a 64-bit number. -/
class FieldType (T : Type) [LT T] where
  bits : Nat
  cast : UInt64 → T
  toNat : T → Nat
  toNat_cast : ∀ num, toNat (cast num) = num.toNat % 2^bits
  toNat_inj : ∀ {x y : T}, toNat x = toNat y ↔ x = y
  lt_iff : ∀ {x y : T}, x < y ↔ toNat x < toNat y
  narrow : bits < 64

instance : FieldType UInt8 where
  bits := 8
  cast := UInt64.toUInt8
  toNat := UInt8.toNat
  toNat_cast num := UInt64.toNat_toUInt8 num
  toNat_inj := UInt8.toNat_inj
  lt_iff := UInt8.lt_iff_toNat_lt
  narrow := by decide

instance : FieldType UInt16 where
  bits := 16
  cast := UInt64.toUInt16
  toNat := UInt16.toNat
  toNat_cast num := UInt64.toNat_toUInt16 num
  toNat_inj := UInt16.toNat_inj
  lt_iff := UInt16.lt_iff_toNat_lt
  narrow := by decide

instance : FieldType UInt32 where
  bits := 32
  cast := UInt64.toUInt32
  toNat := UInt32.toNat
  toNat_cast num := UInt64.toNat_toUInt32 num
  toNat_inj := UInt32.toNat_inj
  lt_iff := UInt32.lt_iff_toNat_lt
  narrow := by decide

/-- `x` is equal to, greater or less than `n`, as the operator says. -/
def Compared {N : Type} [LT N] (op : Char) (x n : N) : Prop := op = '=' ∧ x = n ∨ op = '>' ∧ n < x ∨ op = '<' ∧ x < n

/-- An operator and a decimal numeral of a number with so many bits. -/
structure ComparisonText (bits : Nat) (v : Text) (op : Char) (n : Nat) : Prop where
  operator : op ∈ comp_t
  digits : ∃ digits, v = op :: digits ∧ IsNumeral digits ∧ decimal digits = n
  fits : n < 2^bits

/-- A text is accepted exactly if it is an operator and a numeral that fits, and then
    the field is compared with the number written. -/
def NeverReinterpreted (T : Type) [DecidableEq T] [LT T] [DecidableLT T] [FieldType T] (v : Text) : Prop :=
  (∀ pair : T × Nat, numcomp_from_string FieldType.cast v = .ok pair →
      ∃ op n, ComparisonText (FieldType.bits T) v op n ∧
        ∀ x : T, (⟨pair.1,true,pair.2⟩ : NumComparable T).in_this x = true ↔ Compared op (FieldType.toNat x) n) ∧
    ((∃ op n, ComparisonText (FieldType.bits T) v op n) →
      ∃ pair : T × Nat, numcomp_from_string FieldType.cast v = .ok pair)

/-- What is accepted: an operator, and anything that `std::stoul` takes whole. -/
theorem numcomp_ok_iff {T : Type} (cast : UInt64 → T) (v : Text) (pair : T × Nat) : numcomp_from_string cast v = .ok pair ↔
    ∃ op rest num, v = op :: rest ∧ op ∈ comp_t ∧ stoul rest = .ok (num,rest.length) ∧
      pair = (cast num,comp_t.idxOf op) := by
  constructor
  · intro accepted
    unfold numcomp_from_string at accepted
    by_cases short : v.length < 2
    · simp only [short,↓reduceIte] at accepted
      cases accepted
    simp only [short,↓reduceIte] at accepted
    obtain ⟨op,rest,rfl⟩ := List.exists_cons_of_length_pos (l := v) (by omega)
    simp only [List.drop_succ_cons,List.drop_zero,List.headD_cons,List.length_cons] at accepted
    cases whole : stoul rest with
    | error e =>
      rw [whole] at accepted
      cases e <;> cases accepted
    | ok read =>
      obtain ⟨num,bad⟩ := read
      rw [whole] at accepted
      change (if bad + 1 ≠ rest.length + 1 then _ else _) = _ at accepted
      by_cases leftover : bad + 1 = rest.length + 1
      · obtain rfl : bad = rest.length := by omega
        rw [if_neg (not_not.mpr leftover)] at accepted
        obtain ⟨type_,found,stored⟩ := bind_ok accepted
        rw [get_index] at found
        split_ifs at found with known
        obtain rfl := Except.ok.inj found
        exact ⟨op,rest,num,rfl,known,whole,(Except.ok.inj stored).symm⟩
      · rw [if_pos leftover] at accepted
        cases accepted
  · rintro ⟨op,rest,num,rfl,known,whole,rfl⟩
    have long : ¬ rest.length + 1 < 2 := by
      intro short
      obtain rfl : rest = [] := List.eq_nil_of_length_eq_zero (by omega)
      cases whole
    simp only [numcomp_from_string,long,List.drop_succ_cons,List.drop_zero,List.headD_cons,List.length_cons,whole,
      get_index,known,↓reduceIte]
    show (if rest.length + 1 ≠ rest.length + 1 then _ else _) = _
    rw [if_neg (by simp)]
    rfl

section stored
variable {T : Type} [DecidableEq T] [LT T] [DecidableLT T] [FieldType T]

/-- The stored comparison, by its operator. -/
theorem in_this_stored {op : Char} (known : op ∈ comp_t) (num x : T) :
    (⟨num,true,comp_t.idxOf op⟩ : NumComparable T).in_this x = true ↔
      Compared op (FieldType.toNat x) (FieldType.toNat num) := by
  simp only [NumComparable.in_this,Compared,Bool.not_true,Bool.false_eq_true,↓reduceIte,gt_iff_lt,
    FieldType.lt_iff,← FieldType.toNat_inj (x := x)]
  simp only [comp_t,List.mem_cons,List.not_mem_nil,or_false] at known
  rcases known with rfl | rfl | rfl <;> simp [comp_t]

theorem nothing_before_numeral {w blanks sign digits : Text} (numeral : IsNumeral w)
    (number : SignedNumber w blanks sign digits) : blanks = [] ∧ sign = [] := by
  have all : ∀ c ∈ blanks ++ sign ++ digits, c.isDigit = true := number.text ▸ numeral.2
  constructor
  · rw [List.eq_nil_iff_forall_not_mem]
    intro c member
    have digit := all c (by simp [member])
    have blank := number.blanks c member
    rw [not_space_of_digit digit] at blank
    cases blank
  · rcases number.sign with none | rfl | rfl
    · exact none
    · exact absurd (all '-' (by simp)) (by decide)
    · exact absurd (all '+' (by simp)) (by decide)

/-- A text is never reinterpreted exactly if, where it is an operator and something that
    `std::stoul` takes whole, that has neither blanks nor a sign and fits the type. -/
theorem never_reinterpreted_iff (v : Text) : NeverReinterpreted T v ↔
    ∀ op rest blanks sign digits, v = op :: rest → op ∈ comp_t → SignedNumber rest blanks sign digits →
      blanks = [] ∧ sign = [] ∧ decimal digits < 2^(FieldType.bits T) := by
  have narrow : 2^(FieldType.bits T) < 2^64 := Nat.pow_lt_pow_right (by decide) (FieldType.narrow (T := T))
  constructor
  · rintro ⟨sound,_⟩ op rest blanks sign digits rfl known number
    obtain ⟨num,whole⟩ := (stoul_whole_iff rest).mpr ⟨blanks,sign,digits,number⟩
    have accepted := (numcomp_ok_iff (FieldType.cast (T := T)) (op :: rest) _).mpr ⟨op,rest,num,rfl,known,whole,rfl⟩
    obtain ⟨op',n,⟨_,⟨digits',text,numeral,rfl⟩,fits⟩,_⟩ := sound _ accepted
    obtain ⟨rfl,rfl⟩ := List.cons.inj text
    obtain ⟨rfl,rfl⟩ := nothing_before_numeral numeral number
    obtain rfl : rest = digits := by simpa using number.text
    exact ⟨rfl,rfl,fits⟩
  · intro plain
    constructor
    · intro pair accepted
      obtain ⟨op,rest,num,rfl,known,whole,rfl⟩ := (numcomp_ok_iff _ _ _).mp accepted
      obtain ⟨blanks,sign,digits,number⟩ := (stoul_whole_iff rest).mp ⟨num,whole⟩
      obtain ⟨rfl,rfl,fits⟩ := plain op rest blanks sign digits rfl known number
      obtain rfl : rest = digits := by simpa using number.text
      rw [stoul_numeral number.numeral number.fits] at whole
      obtain rfl := (Prod.mk.inj (Except.ok.inj whole)).1
      refine ⟨op,decimal rest,⟨known,⟨rest,rfl,number.numeral,rfl⟩,fits⟩,?_⟩
      intro x
      have stored : FieldType.toNat (FieldType.cast (T := T) (UInt64.ofNat (decimal rest))) = decimal rest := by
        rw [FieldType.toNat_cast,UInt64.toNat_ofNat_of_lt' number.fits]
        exact Nat.mod_eq_of_lt fits
      rw [in_this_stored known,stored]
    · rintro ⟨op,n,known,⟨digits,rfl,numeral,rfl⟩,fits⟩
      exact ⟨_,(numcomp_ok_iff _ _ _).mpr ⟨op,digits,_,rfl,known,stoul_numeral numeral (fits.trans narrow),rfl⟩⟩

/-- 300 is compared as 44. -/
theorem number_cut : ¬ NeverReinterpreted UInt8 "=300" := by
  intro exact
  obtain ⟨op,n,⟨_,⟨digits,text,_,rfl⟩,fits⟩,_⟩ := exact.1 (44,0) (by decide)
  obtain ⟨rfl,rfl⟩ := List.cons.inj text
  revert fits
  decide

end stored

/-! ### Options -/

/-- An operator and an integer, with blanks and a sign before its digits at most: all that
    `numcomp_from_string` accepts. -/
structure NumberText (v : Text) (op : Char) (n : Int) : Prop where
  operator : op ∈ comp_t
  number : ∃ rest blanks sign digits, v = op :: rest ∧ SignedNumber rest blanks sign digits ∧ signed sign digits = n

theorem number_text_unique {v : Text} {op op' : Char} {n n' : Int} (written : NumberText v op n)
    (written' : NumberText v op' n') : op = op' ∧ n = n' := by
  obtain ⟨_,rest,_,_,_,rfl,number,rfl⟩ := written
  obtain ⟨_,rest',_,_,_,text,number',rfl⟩ := written'
  obtain ⟨rfl,rfl⟩ := List.cons.inj text
  exact ⟨rfl,signed_unique number number'⟩

/-- Of the integer that is written the low bits are stored. -/
theorem number_text_stored {T : Type} [LT T] [FieldType T] {v : Text} {op : Char} {n : Int} (written : NumberText v op n) :
    ∃ num : T, numcomp_from_string FieldType.cast v = .ok (num,comp_t.idxOf op) ∧
      (FieldType.toNat num : Int) = n % (2^(FieldType.bits T) : Nat) := by
  obtain ⟨known,rest,blanks,sign,digits,rfl,number,rfl⟩ := written
  obtain ⟨num,whole,value⟩ := stoul_signed number
  refine ⟨FieldType.cast num,(numcomp_ok_iff _ _ _).mpr ⟨op,rest,num,rfl,known,whole,rfl⟩,?_⟩
  have narrow : ((2^(FieldType.bits T) : Nat) : Int) ∣ 2^64 := by
    exact_mod_cast Nat.pow_dvd_pow 2 (Nat.le_of_lt (FieldType.narrow (T := T)))
  rw [FieldType.toNat_cast,Int.natCast_emod,value,Int.emod_emod_of_dvd _ narrow]

theorem accepted_number_text {T : Type} [LT T] [FieldType T] {v : Text} {pair : T × Nat}
    (accepted : numcomp_from_string FieldType.cast v = .ok pair) :
    ∃ op n, NumberText v op n := by
  obtain ⟨op,rest,num,rfl,known,whole,_⟩ := (numcomp_ok_iff _ _ _).mp accepted
  obtain ⟨blanks,sign,digits,number⟩ := (stoul_whole_iff rest).mp ⟨num,whole⟩
  exact ⟨op,_,known,rest,blanks,sign,digits,rfl,number,rfl⟩

/-- A numeral that fits is the integer that it writes. -/
theorem number_text_of_comparison {bits : Nat} (narrow : bits < 64) {v : Text} {op : Char} {n : Nat}
    (written : ComparisonText bits v op n) : NumberText v op n := by
  obtain ⟨known,⟨digits,rfl,numeral,rfl⟩,fits⟩ := written
  have small : decimal digits < 2^64 := fits.trans (Nat.pow_lt_pow_right (by decide) narrow)
  exact ⟨known,digits,[],[],digits,rfl,⟨rfl,by simp,.inl rfl,numeral,small⟩,rfl⟩

/-- The option, if given, writes a comparison that holds of the number. -/
def ComparisonHolds (vm : variables_map) (name : String) (x : Nat) : Prop :=
  ∀ text, vm.value name = some text → ∃ op n, NumberText text op n ∧ Compared op (x : Int) n

/-- The option is assigned to the criterion. -/
def ComparisonRead {T : Type} [LT T] [FieldType T] [OfNat T 0] (vm : variables_map) (name : String)
    (c : NumComparable T) : Prop :=
  given (vm.value name) .empty (fun v => (numcomp_from_string FieldType.cast v).map NumComparable.empty.assign) = .ok c

section option
variable {T : Type} [LT T] [FieldType T] [OfNat T 0] {vm : variables_map} {name : String} {c : NumComparable T}

theorem comparison_absent (read : ComparisonRead vm name c) (absent : vm.value name = none) : c = .empty := by
  rw [ComparisonRead,absent] at read
  exact (Except.ok.inj read).symm

/-- An option that has been accepted writes a comparison. -/
theorem comparison_written (read : ComparisonRead vm name c) {text : Text} (value : vm.value name = some text) :
    ∃ op n, NumberText text op n := by
  rw [ComparisonRead,value] at read
  change (numcomp_from_string FieldType.cast text).map _ = _ at read
  cases taken : numcomp_from_string (FieldType.cast (T := T)) text with
  | error e => rw [taken] at read; cases read
  | ok pair => exact accepted_number_text taken

/-- What is written is what the option says, … -/
theorem comparison_holds_iff {text : Text} (value : vm.value name = some text) {op : Char} {n : Int}
    (written : NumberText text op n) (x : Nat) : ComparisonHolds vm name x ↔ Compared op (x : Int) n := by
  constructor
  · intro holds
    obtain ⟨op',n',written',compared⟩ := holds text value
    obtain ⟨rfl,rfl⟩ := number_text_unique written written'
    exact compared
  · intro compared text' value'
    obtain rfl := Option.some.inj (value.symm.trans value')
    exact ⟨op,n,written,compared⟩

/-- … and its number is compared as its low bits. -/
theorem in_this_written [DecidableEq T] [DecidableLT T] (read : ComparisonRead vm name c) {text : Text}
    (value : vm.value name = some text) {op : Char} {n : Int} (written : NumberText text op n) (x : T) :
    c.in_this x = true ↔ Compared op (FieldType.toNat x : Int) (n % (2^(FieldType.bits T) : Nat)) := by
  obtain ⟨num,stored,low⟩ := number_text_stored (T := T) written
  rw [ComparisonRead,value] at read
  change (numcomp_from_string FieldType.cast text).map _ = _ at read
  rw [stored] at read
  obtain rfl := Except.ok.inj read
  show (⟨num,true,comp_t.idxOf op⟩ : NumComparable T).in_this x = true ↔ _
  rw [in_this_stored written.operator,← low]
  simp only [Compared,Int.natCast_inj,Int.ofNat_lt]

end option

end DdosDetector
