import DdosDetector.Functions

/-!
What the conversions of the C library make of decimal numerals, alone or with other
characters behind them.
-/
namespace DdosDetector

/-- A decimal numeral: digits only, and at least one. -/
def IsNumeral (w : Text) : Prop := w ≠ [] ∧ ∀ c ∈ w, c.isDigit = true

instance (w : Text) : Decidable (IsNumeral w) :=
  decidable_of_iff (w ≠ [] ∧ w.all Char.isDigit = true) (by simp [IsNumeral])

theorem not_space_of_digit {c : Char} (digit : c.isDigit = true) : isspace c = false := by
  simp only [Char.isDigit,Bool.and_eq_true,decide_eq_true_eq] at digit
  by_contra space
  simp only [isspace,List.mem_cons,List.not_mem_nil,or_false,Bool.not_eq_false,decide_eq_true_eq] at space
  rcases space with rfl | rfl | rfl | rfl | rfl | rfl <;> revert digit <;> decide

/-- The character behind a numeral, if there is one, is not a digit. -/
def EndsNumber (rest : Text) : Prop := ∀ c ∈ rest.head?, c.isDigit = false

instance (rest : Text) : Decidable (EndsNumber rest) :=
  decidable_of_iff (rest.head?.all (fun c => !c.isDigit) = true) (by cases rest <;> simp [EndsNumber])

theorem takeWhile_digits {digits rest : Text} (all : ∀ c ∈ digits, c.isDigit = true) (ends : EndsNumber rest) :
    (digits ++ rest).takeWhile Char.isDigit = digits := by
  rw [List.takeWhile_append_of_pos all]
  cases rest with
  | nil => simp
  | cons c rest => simp [ends c rfl]

/-- The number at the start of a text that begins with a numeral. -/
theorem leading_number_digits {digits rest : Text} (numeral : IsNumeral digits) (ends : EndsNumber rest) :
    leading_number (digits ++ rest) = (false,digits,digits.length) := by
  obtain ⟨first,others,rfl⟩ := List.exists_cons_of_ne_nil numeral.1
  have digit : first.isDigit = true := numeral.2 first (by simp)
  have no_blank : isspace first = false := not_space_of_digit digit
  have no_minus : first ≠ '-' := by rintro rfl; revert digit; decide
  have no_plus : first ≠ '+' := by rintro rfl; revert digit; decide
  have run := takeWhile_digits numeral.2 ends
  rw [List.cons_append] at run
  simp only [leading_number,List.cons_append,List.takeWhile_cons,List.dropWhile_cons,no_blank,Bool.false_eq_true,
    ↓reduceIte]
  split
  · rename_i body minus
    exact absurd (List.cons.inj minus).1 no_minus
  · rename_i body plus
    exact absurd (List.cons.inj plus).1 no_plus
  · rw [run]
    simp

theorem leading_number_numeral {w : Text} (numeral : IsNumeral w) : leading_number w = (false,w,w.length) := by
  have alone : leading_number (w ++ []) = (false,w,w.length) := leading_number_digits numeral (by simp [EndsNumber])
  rwa [List.append_nil] at alone

/-- `strtol` saturates, and `atoi` keeps the low bits. -/
theorem atoi_numeral {w : Text} (numeral : IsNumeral w) :
    atoi w = (min (decimal w : Int) (2^63 - 1)).bmod (2^32) := by
  rw [atoi,leading_number_numeral numeral]
  rfl

theorem atoi_small {w : Text} (numeral : IsNumeral w) (small : decimal w < 2^31) : atoi w = decimal w := by
  rw [atoi_numeral numeral,min_eq_left (by omega)]
  exact Int.bmod_eq_of_le (by omega) (by omega)

/-- `std::stoul` of a numeral with something behind it. -/
theorem stoul_digits {digits rest : Text} (numeral : IsNumeral digits) (ends : EndsNumber rest) :
    stoul (digits ++ rest) =
      if decimal digits ≥ 2^64 then .error (.out_of_range "stoul")
      else .ok (UInt64.ofNat (decimal digits),digits.length) := by
  have some_digit : digits.isEmpty = false := by simpa using numeral.1
  rw [stoul,leading_number_digits numeral ends]
  simp only [some_digit,Bool.false_eq_true,↓reduceIte]

/-! ### Numbers with blanks and a sign -/

/-- What `std::stoul` takes whole: blanks, one sign at most, and a numeral below 2^64. -/
structure SignedNumber (w blanks sign digits : Text) : Prop where
  text : w = blanks ++ sign ++ digits
  blanks : ∀ c ∈ blanks, isspace c = true
  sign : sign = [] ∨ sign = ['-'] ∨ sign = ['+']
  numeral : IsNumeral digits
  fits : decimal digits < 2^64

theorem takeWhile_dropWhile_blanks {blanks rest : Text} (all : ∀ c ∈ blanks, isspace c = true)
    (other : ∀ c ∈ rest.head?, isspace c = false) :
    (blanks ++ rest).takeWhile isspace = blanks ∧ (blanks ++ rest).dropWhile isspace = rest := by
  rw [List.takeWhile_append_of_pos all,List.dropWhile_append_of_pos all]
  cases rest with
  | nil => simp
  | cons c rest => simp [other c rfl]

/-- The integer that a sign and digits write. -/
def signed (sign digits : Text) : Int := if sign = ['-'] then -(decimal digits) else decimal digits

theorem leading_number_signed {w blanks sign digits : Text} (number : SignedNumber w blanks sign digits) :
    leading_number w = (decide (sign = ['-']),digits,w.length) := by
  obtain ⟨rfl,all,sign,numeral,_⟩ := number
  obtain ⟨first,others,rfl⟩ := List.exists_cons_of_ne_nil numeral.1
  have digit : first.isDigit = true := numeral.2 first (by simp)
  have whole : (first :: others).takeWhile Char.isDigit = first :: others :=
    List.takeWhile_eq_self_iff.mpr numeral.2
  rcases sign with rfl | rfl | rfl
  · have plain := leading_number_numeral numeral
    have other : ∀ c ∈ (first :: others).head?, isspace c = false := by
      simpa using not_space_of_digit digit
    have none : ∀ c ∈ ([] : Text), isspace c = true := by simp
    obtain ⟨before,behind⟩ := takeWhile_dropWhile_blanks all other
    obtain ⟨before',behind'⟩ := takeWhile_dropWhile_blanks none other
    rw [List.nil_append] at before' behind'
    simp only [leading_number,before',behind'] at plain
    simp only [leading_number,List.append_nil,before,behind]
    have no_minus : first ≠ '-' := by rintro rfl; revert digit; decide
    have no_plus : first ≠ '+' := by rintro rfl; revert digit; decide
    split
    · rename_i body minus
      exact absurd (List.cons.inj minus).1 no_minus
    · rename_i body plus
      exact absurd (List.cons.inj plus).1 no_plus
    · rw [whole]
      simp
  · obtain ⟨before,behind⟩ := @takeWhile_dropWhile_blanks _ ('-' :: first :: others) all (by simp [isspace])
    simp only [leading_number,List.append_assoc,List.singleton_append,before,behind,whole]
    simp
    omega
  · obtain ⟨before,behind⟩ := @takeWhile_dropWhile_blanks _ ('+' :: first :: others) all (by simp [isspace])
    simp only [leading_number,List.append_assoc,List.singleton_append,before,behind,whole]
    simp
    omega

theorem takeWhile_of_length {α : Type} {p : α → Bool} {l : List α} (whole : l.length ≤ (l.takeWhile p).length) :
    l.takeWhile p = l :=
  (List.takeWhile_prefix p).eq_of_length_le whole

theorem signed_of_leading {w digits : Text} {minus : Bool} (read : leading_number w = (minus,digits,w.length))
    (some_digit : digits ≠ []) (fits : decimal digits < 2^64) : ∃ blanks sign, SignedNumber w blanks sign digits := by
  have parts := List.takeWhile_append_dropWhile (p := isspace) (l := w)
  have all : ∀ c ∈ w.takeWhile isspace, isspace c = true := fun c member => List.mem_takeWhile_imp member
  have length := congrArg List.length parts
  rw [List.length_append] at length
  have digits_of (body : Text) (whole : body.length ≤ (body.takeWhile Char.isDigit).length) :
      ∀ c ∈ body, c.isDigit = true := by
    rw [← takeWhile_of_length whole]
    exact fun c member => List.mem_takeWhile_imp member
  simp only [leading_number] at read
  split at read
  · rename_i body minus_sign
    rw [minus_sign] at parts length
    simp only [Prod.mk.injEq,List.length_cons] at read length
    obtain ⟨_,rfl,size⟩ := read
    have whole : body.length ≤ (body.takeWhile Char.isDigit).length := by omega
    rw [takeWhile_of_length whole] at some_digit fits ⊢
    exact ⟨_,['-'],by simp [parts],all,.inr (.inl rfl),⟨some_digit,digits_of body whole⟩,fits⟩
  · rename_i body plus_sign
    rw [plus_sign] at parts length
    simp only [Prod.mk.injEq,List.length_cons] at read length
    obtain ⟨_,rfl,size⟩ := read
    have whole : body.length ≤ (body.takeWhile Char.isDigit).length := by omega
    rw [takeWhile_of_length whole] at some_digit fits ⊢
    exact ⟨_,['+'],by simp [parts],all,.inr (.inr rfl),⟨some_digit,digits_of body whole⟩,fits⟩
  · simp only [Prod.mk.injEq] at read
    obtain ⟨_,rfl,size⟩ := read
    have whole : (w.dropWhile isspace).length ≤ ((w.dropWhile isspace).takeWhile Char.isDigit).length := by omega
    rw [takeWhile_of_length whole] at some_digit fits ⊢
    exact ⟨_,[],by simp [parts],all,.inl rfl,⟨some_digit,digits_of _ whole⟩,fits⟩

/-- A text is read as one integer only. -/
theorem signed_unique {w blanks sign digits blanks' sign' digits' : Text} (number : SignedNumber w blanks sign digits)
    (number' : SignedNumber w blanks' sign' digits') : signed sign digits = signed sign' digits' := by
  have same := (leading_number_signed number).symm.trans (leading_number_signed number')
  obtain ⟨minus,rest⟩ := Prod.mk.inj same
  obtain rfl := (Prod.mk.inj rest).1
  have sign_iff : sign = ['-'] ↔ sign' = ['-'] := decide_eq_decide.mp minus
  simp only [signed,sign_iff]

/-- `std::stoul` takes the integer modulo 2^64. -/
theorem stoul_signed {w blanks sign digits : Text} (number : SignedNumber w blanks sign digits) :
    ∃ num, stoul w = .ok (num,w.length) ∧ (num.toNat : Int) = signed sign digits % 2^64 := by
  have some_digit : digits.isEmpty = false := by simpa using number.numeral.1
  have fits := number.fits
  have kept : (UInt64.ofNat (decimal digits)).toNat = decimal digits := UInt64.toNat_ofNat_of_lt' fits
  rw [stoul,leading_number_signed number]
  simp only [some_digit,not_le.mpr fits,Bool.false_eq_true,↓reduceIte,decide_eq_true_eq]
  refine ⟨_,rfl,?_⟩
  unfold signed
  split_ifs
  · rw [UInt64.toNat_sub,kept]
    show (((2^64 - decimal digits + 0) % 2^64 : Nat) : Int) = _
    omega
  · rw [kept]
    omega

/-- The texts that `std::stoul` takes whole. -/
theorem stoul_whole_iff (w : Text) : (∃ num, stoul w = .ok (num,w.length)) ↔
    ∃ blanks sign digits, SignedNumber w blanks sign digits := by
  constructor
  · rintro ⟨num,read⟩
    rw [stoul] at read
    rcases number : leading_number w with ⟨minus,digits,bad⟩
    simp only [number] at read
    split_ifs at read with empty large
    all_goals
      obtain rfl := (Prod.mk.inj (Except.ok.inj read)).2
      obtain ⟨blanks,sign,signed⟩ := signed_of_leading number (by simpa using empty) (by omega)
      exact ⟨blanks,sign,digits,signed⟩
  · rintro ⟨blanks,sign,digits,number⟩
    obtain ⟨num,read,_⟩ := stoul_signed number
    exact ⟨num,read⟩

theorem stoul_numeral {w : Text} (numeral : IsNumeral w) (fits : decimal w < 2^64) :
    stoul w = .ok (UInt64.ofNat (decimal w),w.length) := by
  have read := @stoul_digits w [] numeral (by simp [EndsNumber])
  rwa [List.append_nil,if_neg (not_le.mpr fits)] at read

/-! ### A text in two parts -/

theorem takeWhile_whole {separator : Char} {text : Text} (apart : separator ∉ text) :
    text.takeWhile (· ≠ separator) = text := by
  rw [List.takeWhile_eq_self_iff]
  intro c member
  exact decide_eq_true fun same => apart (same ▸ member)

theorem takeWhile_separator {separator : Char} {text : Text} (apart : separator ∉ text) (rest : Text) :
    (text ++ separator :: rest).takeWhile (· ≠ separator) = text := by
  have all : ∀ c ∈ text, decide (c ≠ separator) = true := by
    intro c member
    exact decide_eq_true fun same => apart (same ▸ member)
  rw [List.takeWhile_append_of_pos all]
  simp

theorem dropWhile_separator {separator : Char} {text : Text} (apart : separator ∉ text) (rest : Text) :
    (text ++ separator :: rest).dropWhile (· ≠ separator) = separator :: rest := by
  have all : ∀ c ∈ text, decide (c ≠ separator) = true := by
    intro c member
    exact decide_eq_true fun same => apart (same ▸ member)
  rw [List.dropWhile_append_of_pos all]
  simp

/-! ### The unsigned number that a console command takes -/

theorem toNat_ofInt_atoi {w : Text} (numeral : IsNumeral w) (fits : decimal w < 2^32) :
    (UInt32.ofInt (atoi w)).toNat = decimal w := by
  have low : (decimal w : Int).bmod (2^32) % ((2^32 : Nat) : Int) = decimal w := by
    rw [Int.bmod_emod]
    exact Int.emod_eq_of_lt (by omega) (by omega)
  have low' : (decimal w : Int).bmod (2^32) % 2^32 = decimal w := by simpa using low
  rw [atoi_numeral numeral,min_eq_left (by omega),UInt32.ofInt,low',Int.toNat_natCast,UInt32.toNat_ofNat']
  exact Nat.mod_eq_of_lt fits

end DdosDetector
