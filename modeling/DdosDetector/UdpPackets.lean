import DdosDetector.Comparisons
import DdosDetector.Ports
import DdosDetector.Receiver

/-!
UDP rules on the bytes of a header. The ports are decoded from network order; the length
is compared as a little-endian host loads it, so that only comparisons that do not tell a
number from the one with its bytes swapped mean what they say.
-/
namespace DdosDetector
open NetmapReceiver (l4header)

/-- The field of two bytes at an offset, in network order. -/
def field16 (packet : Memory) (i : Nat) : Nat := (packet i).toNat * 256 + (packet (i + 1)).toNat

/-- The number with its two bytes swapped. -/
def swapped (n : Nat) : Nat := n % 256 * 256 + n / 256

theorem toNat_ntohs (x : UInt16) : (ntohs x).toNat = swapped x.toNat := by
  have range := x.toNat_lt
  have low : x.toNat / 256 < 2^8 := by omega
  have shifted : x.toNat <<< 8 % 2^16 = 2^8 * (x.toNat % 256) := by
    rw [Nat.shiftLeft_eq]
    omega
  show ((x <<< 8) ||| (x >>> 8)).toNat = swapped x.toNat
  rw [UInt16.toNat_or,UInt16.toNat_shiftLeft,UInt16.toNat_shiftRight]
  show x.toNat <<< 8 % 2^16 ||| x.toNat >>> 8 = swapped x.toNat
  rw [shifted,Nat.shiftRight_eq_div_pow,← Nat.two_pow_add_eq_or_of_lt low,swapped]
  omega

theorem toNat_load16 (packet : Memory) (i : Nat) : (load16 packet i).toNat = swapped (field16 packet i) := by
  have first := (packet i).toNat_lt
  have last := (packet (i + 1)).toNat_lt
  have shifted : (packet (i + 1)).toNat <<< 8 % 2^16 = 2^8 * (packet (i + 1)).toNat := by
    rw [Nat.shiftLeft_eq]
    omega
  rw [load16,UInt16.toNat_or,UInt16.toNat_shiftLeft,UInt8.toNat_toUInt16,UInt8.toNat_toUInt16]
  show (packet i).toNat ||| (packet (i + 1)).toNat <<< 8 % 2^16 = _
  rw [shifted,Nat.or_comm,← Nat.two_pow_add_eq_or_of_lt (by omega),swapped,field16]
  omega

theorem swapped_swapped {n : Nat} (range : n < 65536) : swapped (swapped n) = n := by
  unfold swapped
  omega

theorem field16_lt (packet : Memory) (i : Nat) : field16 packet i < 65536 := by
  have first := (packet i).toNat_lt
  have last := (packet (i + 1)).toNat_lt
  unfold field16
  omega

/-- A field is decoded by `ntohs` of what is loaded. -/
theorem field16_eq (packet : Memory) (i : Nat) : field16 packet i = (ntohs (load16 packet i)).toNat := by
  rw [toNat_ntohs,toNat_load16,swapped_swapped (field16_lt packet i)]

/-! ### What the options say -/

/-- A number, or two with a hyphen between them, of any size: the bounds written. -/
inductive IntervalText : Text → Nat → Nat → Prop
  | one {v : Text} (numeral : IsNumeral v) : IntervalText v (decimal v) (decimal v)
  | range {first last : Text} (numerals : IsNumeral first ∧ IsNumeral last) :
      IntervalText (first ++ '-' :: last) (decimal first) (decimal last)

/-- A port option, if given, writes an interval with the port in it. -/
def PortHolds (vm : variables_map) (o : PortOption) (port : Nat) : Prop :=
  ∀ text, vm.value o.name = some text → ∃ first last, IntervalText text first last ∧ first ≤ port ∧ port ≤ last

/-- The rule matches exactly the headers that its options describe, between addresses
    in its ranges. -/
def Described (vm : variables_map) (made : UdpRule) : Prop :=
  ∀ (packet : Memory) (i : Nat) (s_addr d_addr : UInt32),
    UdpRule.check_packet made (l4header packet i .UDP) s_addr d_addr = true ↔
      made.ip_src.in_this s_addr = true ∧ made.ip_dst.in_this d_addr = true ∧
        PortHolds vm .sport (field16 packet i) ∧ PortHolds vm .dport (field16 packet (i + 2)) ∧
        ComparisonHolds vm "hlen" (field16 packet (i + 4))

/-! ### Ports -/

/-- What is stored of a bound: `atoi` saturates it, and the range keeps 16 bits. -/
def port_stored (n : Nat) : Nat := min n (2^63 - 1) % 65536

/-- A port option, if given, writes an interval of ports that is stored as it is: it begins
    with another port than zero, and what is stored of the last bound is that bound or, for
    one that is no port, the last port; or it is the interval of all ports and beyond, of
    which zeros are stored, that is no range. -/
def PortWritten (vm : variables_map) (o : PortOption) : Prop :=
  ∀ text, vm.value o.name = some text → ∃ first last, IntervalText text first last ∧ first ≤ 65535 ∧ first ≤ last ∧
    (0 < first ∧ port_stored last = min last 65535 ∨ first = 0 ∧ 65535 < last ∧ port_stored last = 0)

/-- No port can meet the option as it is stored, since the first is above the last, … -/
def NoPortStored (vm : variables_map) (o : PortOption) : Prop :=
  ∃ text, vm.value o.name = some text ∧ (range_from_port_string text).2 < (range_from_port_string text).1

/-- … or as it is written: it is no interval, or one without a port. -/
def NoPortWritten (vm : variables_map) (o : PortOption) : Prop :=
  ∃ text, vm.value o.name = some text ∧ ∀ first last, IntervalText text first last → last < first ∨ 65535 < first

theorem interval_unique {text : Text} {first last first' last' : Nat} (written : IntervalText text first last)
    (written' : IntervalText text first' last') : first = first' ∧ last = last' := by
  cases written with
  | one numeral =>
    generalize same : text = text' at written'
    cases written' with
    | one numeral' => exact ⟨rfl,rfl⟩
    | range numerals => exact absurd (same ▸ by simp : '-' ∈ text) (numeral_no_dash numeral)
  | @range v w numerals =>
    generalize same : v ++ '-' :: w = text' at written'
    cases written' with
    | one numeral' => exact absurd (same ▸ by simp : '-' ∈ text') (numeral_no_dash numeral')
    | @range v' w' numerals' =>
      have before := takeWhile_separator (numeral_no_dash numerals.1) w
      have behind := dropWhile_separator (numeral_no_dash numerals.1) w
      rw [same,takeWhile_separator (numeral_no_dash numerals'.1)] at before
      rw [same,dropWhile_separator (numeral_no_dash numerals'.1)] at behind
      obtain ⟨_,rfl⟩ := List.cons.inj behind
      exact ⟨by rw [before],rfl⟩

theorem bound_stored {w : Text} (numeral : IsNumeral w) : (UInt16.ofInt (atoi w)).toNat = port_stored (decimal w) := by
  have low : atoi w % 2^16 = min (decimal w : Int) (2^63 - 1) % 2^16 := by
    have cut := Int.bmod_emod (x := min (decimal w : Int) (2^63 - 1)) (m := 2^32)
    rw [atoi_numeral numeral]
    omega
  rw [UInt16.ofInt,low,UInt16.toNat_ofNat']
  unfold port_stored
  omega

theorem interval_stored {text : Text} {first last : Nat} (interval : IntervalText text first last) :
    (range_from_port_string text).1.toNat = port_stored first ∧
      (range_from_port_string text).2.toNat = port_stored last := by
  cases interval with
  | one numeral =>
    simp only [range_from_port_string,numeral_no_dash numeral,↓reduceIte]
    exact ⟨bound_stored numeral,bound_stored numeral⟩
  | @range first last numerals =>
    have apart : '-' ∉ first := numeral_no_dash numerals.1
    have member : '-' ∈ first ++ '-' :: last := by simp
    simp only [range_from_port_string,member,↓reduceIte,takeWhile_separator apart,dropWhile_separator apart,
      List.drop_one,List.tail_cons]
    exact ⟨bound_stored numerals.1,bound_stored numerals.2⟩

section port
variable {vm : variables_map} {o : PortOption} {range : NumRange UInt16}

/-- An interval that is written is the one that the option says, … -/
theorem port_holds_iff {text : Text} (value : vm.value o.name = some text) {first last : Nat}
    (interval : IntervalText text first last) (port : Nat) : PortHolds vm o port ↔ first ≤ port ∧ port ≤ last := by
  constructor
  · intro holds
    obtain ⟨first',last',interval',between⟩ := holds text value
    obtain ⟨rfl,rfl⟩ := interval_unique interval interval'
    exact between
  · intro between text' value'
    obtain rfl := Option.some.inj (value.symm.trans value')
    exact ⟨first,last,interval,between⟩

/-- … and what is stored of its bounds is compared, unless zeros are. -/
theorem in_this_interval (read : PortRead vm o.name .empty range) {text : Text} (value : vm.value o.name = some text)
    {first last : Nat} (interval : IntervalText text first last) (port : UInt16) : range.in_this port = true ↔
      (port_stored first = 0 ∧ port_stored last = 0) ∨
        (port.toNat ≠ 0 ∧ port_stored first ≤ port.toNat ∧ port.toNat ≤ port_stored last) := by
  obtain ⟨lower,upper⟩ := interval_stored interval
  have zero : (0 : UInt16).toNat = 0 := rfl
  rw [port_range read value,in_this_range,ne_eq,← UInt16.toNat_inj,← UInt16.toNat_inj,← UInt16.toNat_inj (a := port),
    UInt16.le_iff_toNat_le,UInt16.le_iff_toNat_le,lower,upper,zero]

theorem port_absent (read : PortRead vm o.name .empty range) (absent : vm.value o.name = none) : range = .empty := by
  rw [PortRead,absent] at read
  exact (Except.ok.inj read).symm

/-- A criterion that is written as it should be holds of the ports that the option says. -/
theorem port_agrees (read : PortRead vm o.name .empty range) (written : PortWritten vm o) (port : UInt16) :
    range.in_this port = true ↔ PortHolds vm o port.toNat := by
  cases value : vm.value o.name with
  | none => simp [port_absent read value,in_this_empty,PortHolds,value]
  | some text =>
    obtain ⟨first,last,interval,some_port,ordered,kept⟩ := written text value
    have range := port.toNat_lt
    rw [in_this_interval read value interval,port_holds_iff value interval]
    have first_stored : port_stored first = first := by
      unfold port_stored
      omega
    omega

/-- A criterion that holds of some port and of just those that the option says is written
    as it should be: the first and the last port of the interval, and zero, tell. -/
theorem port_written (read : PortRead vm o.name .empty range)
    (agree : ∀ port : UInt16, range.in_this port = true ↔ PortHolds vm o port.toNat) {port : UInt16}
    (met : range.in_this port = true) : PortWritten vm o := by
  intro text value
  obtain ⟨first,last,interval,above,below⟩ := (agree port).mp met text value
  have some_port : first ≤ 65535 := by
    have largest := port.toNat_lt
    omega
  refine ⟨first,last,interval,some_port,above.trans below,?_⟩
  have agree_number (x : Nat) (is_port : x < 65536) :
      ((port_stored first = 0 ∧ port_stored last = 0) ∨ (x ≠ 0 ∧ port_stored first ≤ x ∧ x ≤ port_stored last)) ↔
        first ≤ x ∧ x ≤ last := by
    have whole : (UInt16.ofNat x).toNat = x := UInt16.toNat_ofNat_of_lt' is_port
    rw [← port_holds_iff value interval,← whole,← agree,in_this_interval read value interval]
  have first_stored : port_stored first = first := by
    unfold port_stored
    omega
  have last_stored : port_stored last ≤ 65535 ∧ (last ≤ 65535 → port_stored last = last) := by
    unfold port_stored
    omega
  have lowest := agree_number 0 (by omega)
  have latest := agree_number (min last 65535) (by omega)
  have highest := agree_number 65535 (by omega)
  omega

theorem no_port_stored_iff (read : PortRead vm o.name .empty range) :
    NoPortStored vm o ↔ ∀ port, ¬ range.in_this port = true := by
  constructor
  · rintro ⟨text,value,above⟩ port inside
    rw [UInt16.lt_iff_toNat_lt] at above
    rw [port_range read value,in_this_range,UInt16.le_iff_toNat_le,UInt16.le_iff_toNat_le] at inside
    rcases inside with ⟨none,_⟩ | ⟨_,least,most⟩
    · rw [none] at above
      exact absurd above (Nat.not_lt_zero _)
    · omega
  · intro unmet
    cases value : vm.value o.name with
    | none => exact absurd (by rw [port_absent read value]; rfl) (unmet 0)
    | some text =>
      refine ⟨text,value,UInt16.not_le.mp fun ordered => unmet (range_from_port_string text).2 ?_⟩
      rw [port_range read value,in_this_range]
      by_cases none : (range_from_port_string text).2 = 0
      · refine .inl ⟨?_,none⟩
        rw [none] at ordered
        exact UInt16.le_zero_iff.mp ordered
      · exact .inr ⟨none,ordered,UInt16.le_refl _⟩

theorem no_port_written_iff : NoPortWritten vm o ↔ ∀ port : UInt16, ¬ PortHolds vm o port.toNat := by
  constructor
  · rintro ⟨text,value,without⟩ port holds
    obtain ⟨first,last,interval,above,below⟩ := holds text value
    have range := port.toNat_lt
    have outside := without first last interval
    omega
  · intro unmet
    cases value : vm.value o.name with
    | none => exact absurd (fun text value' => by cases value.symm.trans value') (unmet 0)
    | some text =>
      refine ⟨text,value,fun first last interval => ?_⟩
      by_contra inside
      have whole : (UInt16.ofNat first).toNat = first := UInt16.toNat_ofNat_of_lt' (by omega : first < 65536)
      refine unmet (UInt16.ofNat first) ((port_holds_iff value interval _).mpr ?_)
      omega

end port

/-! ### The length -/

/-- The comparison does not tell a number of 16 bits from the one with its bytes swapped,
    and no bit is lost that it needs. -/
def Swappable (op : Char) (n : Int) : Prop :=
  op = '=' ∧ 0 ≤ n ∧ n ≤ 65535 ∧ n / 256 = n % 256 ∨
    op = '>' ∧ (n = 0 ∨ n = 65534 ∨ 65535 ≤ n ∧ n % 65536 = 65535) ∨
    op = '<' ∧ (n = 1 ∨ n = 65535 ∨ n ≤ 0 ∧ n % 65536 = 0)

/-- The option on the length, if given, writes a comparison that swapping keeps. -/
def LengthWritten (vm : variables_map) : Prop :=
  ∀ text, vm.value "hlen" = some text → ∃ op n, NumberText text op n ∧ Swappable op n

/-- No length can meet the option as it is stored, … -/
def NoLengthStored (vm : variables_map) : Prop :=
  ∃ text op n, vm.value "hlen" = some text ∧ NumberText text op n ∧
    (op = '>' ∧ n % 65536 = 65535 ∨ op = '<' ∧ n % 65536 = 0)

/-- … or as it is written. -/
def NoLengthWritten (vm : variables_map) : Prop :=
  ∃ text op n, vm.value "hlen" = some text ∧ NumberText text op n ∧
    (op = '=' ∧ (n < 0 ∨ 65535 < n) ∨ op = '>' ∧ 65535 ≤ n ∨ op = '<' ∧ n ≤ 0)

/-- For each operator a few numbers tell. -/
theorem swappable_iff {op : Char} (known : op ∈ comp_t) (n : Int) : Swappable op n ↔
    ∀ x : Nat, x < 65536 → (Compared op (x : Int) (n % 65536) ↔ Compared op (swapped x : Int) n) := by
  simp only [comp_t,List.mem_cons,List.not_mem_nil,or_false] at known
  unfold Swappable Compared swapped
  rcases known with rfl | rfl | rfl
  · simp only [true_and,Char.reduceEq,false_and,or_false]
    constructor
    · rintro ⟨least,most,equal_bytes⟩ x range
      rw [Int.emod_eq_of_lt least (by omega)]
      omega
    · intro same
      obtain ⟨m,low⟩ := Int.eq_ofNat_of_zero_le (show 0 ≤ n % 65536 by omega)
      have itself := (same m (by omega)).mp low.symm
      have fits : n = m := by omega
      omega
  · simp only [Char.reduceEq,true_and,false_and,false_or,or_false]
    constructor
    · intro border x range
      omega
    · intro same
      have lowest := same 0 (by omega)
      have highest := same 65535 (by omega)
      -- an open end above n that swapping keeps goes down to 1
      have a := same 65534 (by omega)
      have b := same 65280 (by omega)
      have c := same 256 (by omega)
      omega
  · simp only [Char.reduceEq,true_and,false_and,false_or]
    constructor
    · intro border x range
      omega
    · intro same
      have lowest := same 0 (by omega)
      have highest := same 65535 (by omega)
      have a := same 1 (by omega)
      have b := same 255 (by omega)
      have c := same 65279 (by omega)
      omega

theorem swapped_lt {n : Nat} (range : n < 65536) : swapped n < 65536 := by
  unfold swapped
  omega

section length
variable {vm : variables_map} {len : NumComparable UInt16}

theorem in_this_length (read : ComparisonRead vm "hlen" len) {text : Text} (value : vm.value "hlen" = some text)
    {op : Char} {n : Int} (written : NumberText text op n) (x : UInt16) :
    len.in_this x = true ↔ Compared op (x.toNat : Int) (n % 65536) :=
  in_this_written read value written x

theorem length_agrees (read : ComparisonRead vm "hlen" len) (written : LengthWritten vm) (x : UInt16) :
    len.in_this x = true ↔ ComparisonHolds vm "hlen" (swapped x.toNat) := by
  cases value : vm.value "hlen" with
  | none => simp [comparison_absent read value,NumComparable.in_this,NumComparable.empty,ComparisonHolds,value]
  | some text =>
    obtain ⟨op,n,comparison,swappable⟩ := written text value
    rw [in_this_length read value comparison,comparison_holds_iff value comparison]
    exact (swappable_iff comparison.operator n).mp swappable x.toNat x.toNat_lt

theorem length_written (read : ComparisonRead vm "hlen" len)
    (agree : ∀ x : UInt16, len.in_this x = true ↔ ComparisonHolds vm "hlen" (swapped x.toNat)) : LengthWritten vm := by
  intro text value
  obtain ⟨op,n,comparison⟩ := comparison_written read value
  refine ⟨op,n,comparison,(swappable_iff comparison.operator n).mpr ?_⟩
  intro x range
  have whole : (UInt16.ofNat x).toNat = x := UInt16.toNat_ofNat_of_lt' range
  rw [← whole,← in_this_length read value comparison (UInt16.ofNat x),agree]
  exact comparison_holds_iff value comparison _

theorem no_length_stored_iff (read : ComparisonRead vm "hlen" len) :
    NoLengthStored vm ↔ ∀ x, ¬ len.in_this x = true := by
  constructor
  · rintro ⟨text,op,n,value,comparison,border⟩ x inside
    have range := x.toNat_lt
    rw [in_this_length read value comparison] at inside
    rcases border with ⟨rfl,border⟩ | ⟨rfl,border⟩ <;> simp [Compared] at inside <;> omega
  · intro unmet
    cases value : vm.value "hlen" with
    | none => exact absurd (by rw [comparison_absent read value]; rfl) (unmet 0)
    | some text =>
      obtain ⟨op,n,comparison⟩ := comparison_written read value
      refine ⟨text,op,n,value,comparison,?_⟩
      have refuted (x : Nat) (range : x < 65536) : ¬ Compared op (x : Int) (n % 65536) := by
        have whole : (UInt16.ofNat x).toNat = x := UInt16.toNat_ofNat_of_lt' range
        rw [← whole,← in_this_length read value comparison]
        exact unmet _
      have itself := refuted (n % 65536).toNat (by omega)
      have lowest := refuted 0 (by omega)
      have highest := refuted 65535 (by omega)
      have known := comparison.operator
      simp only [comp_t,List.mem_cons,List.not_mem_nil,or_false] at known
      rcases known with rfl | rfl | rfl <;> simp [Compared] at itself lowest highest ⊢ <;> omega

theorem no_length_written_iff (read : ComparisonRead vm "hlen" len) :
    NoLengthWritten vm ↔ ∀ x : UInt16, ¬ ComparisonHolds vm "hlen" (swapped x.toNat) := by
  constructor
  · rintro ⟨text,op,n,value,comparison,border⟩ x holds
    have range := swapped_lt x.toNat_lt
    rw [comparison_holds_iff value comparison] at holds
    rcases border with ⟨rfl,border⟩ | ⟨rfl,border⟩ | ⟨rfl,border⟩ <;> simp [Compared] at holds <;> omega
  · intro unmet
    cases value : vm.value "hlen" with
    | none => exact absurd (fun text value' => by cases value.symm.trans value') (unmet 0)
    | some text =>
      obtain ⟨op,n,comparison⟩ := comparison_written read value
      refine ⟨text,op,n,value,comparison,?_⟩
      have refuted (x : Nat) (range : x < 65536) : ¬ Compared op (x : Int) n := by
        have whole : (UInt16.ofNat (swapped x)).toNat = swapped x := UInt16.toNat_ofNat_of_lt' (swapped_lt range)
        rw [← swapped_swapped range,← whole,← comparison_holds_iff value comparison]
        exact unmet _
      have itself := refuted n.toNat
      have lowest := refuted 0 (by omega)
      have highest := refuted 65535 (by omega)
      have known := comparison.operator
      simp only [comp_t,List.mem_cons,List.not_mem_nil,or_false] at known
      rcases known with rfl | rfl | rfl <;> simp [Compared] at itself lowest highest ⊢ <;> omega

end length

/-! ### Whole rules -/

/-- No packet can meet the options, neither as they are stored nor as they are written. -/
def Unmeetable (vm : variables_map) : Prop :=
  ((∃ o, NoPortStored vm o) ∨ NoLengthStored vm) ∧ ((∃ o, NoPortWritten vm o) ∨ NoLengthWritten vm)

theorem PortOption.exists_iff {P : PortOption → Prop} : (∃ o, P o) ↔ P .sport ∨ P .dport := by
  constructor
  · rintro ⟨o,holds⟩
    cases o with
    | sport => exact .inl holds
    | dport => exact .inr holds
  · rintro (holds | holds)
    · exact ⟨_,holds⟩
    · exact ⟨_,holds⟩

/-- Two conditions on three fields, each of one on each field, agree field by field if some
    fields meet the first. -/
theorem fields_agree {α β γ : Type} {A A' : α → Prop} {B B' : β → Prop} {C C' : γ → Prop}
    (same : ∀ a b c, A a ∧ B b ∧ C c ↔ A' a ∧ B' b ∧ C' c) {a : α} {b : β} {c : γ} (met : A a ∧ B b ∧ C c) :
    (∀ a, A a ↔ A' a) ∧ (∀ b, B b ↔ B' b) ∧ ∀ c, C c ↔ C' c := by
  obtain ⟨first,second,third⟩ := met
  obtain ⟨first',second',third'⟩ := (same a b c).mp ⟨first,second,third⟩
  refine ⟨fun x => ?_,fun x => ?_,fun x => ?_⟩
  · simpa only [second,third,second',third',and_true] using same x b c
  · simpa only [first,third,first',third',true_and,and_true] using same a x c
  · simpa only [first,second,first',second',true_and] using same a b x

/-- No fields meet such a condition exactly if one of its parts is met by none. -/
theorem field_unmet_iff {α β γ : Type} {A : α → Prop} {B : β → Prop} {C : γ → Prop} :
    (∀ a b c, ¬ (A a ∧ B b ∧ C c)) ↔ (∀ a, ¬ A a) ∨ (∀ b, ¬ B b) ∨ ∀ c, ¬ C c := by
  constructor
  · intro unmet
    by_contra some_met
    simp only [not_or,not_forall,not_not] at some_met
    obtain ⟨⟨a,first⟩,⟨b,second⟩,c,third⟩ := some_met
    exact unmet a b c ⟨first,second,third⟩
  · rintro (none | none | none) a b c ⟨first,second,third⟩
    · exact none a first
    · exact none b second
    · exact none c third

/-- A header with these fields, as loaded. -/
def udp_bytes (source dest len : UInt16) : Memory
  | 0 => source.toUInt8
  | 1 => (source >>> 8).toUInt8
  | 2 => dest.toUInt8
  | 3 => (dest >>> 8).toUInt8
  | 4 => len.toUInt8
  | _ => (len >>> 8).toUInt8

theorem l4header_udp_bytes (h : udphdr) : l4header (udp_bytes h.source h.dest h.len) 0 .UDP = h := by
  have source : load16 (udp_bytes h.source h.dest h.len) 0 = h.source := load16_bytes rfl rfl
  have dest : load16 (udp_bytes h.source h.dest h.len) 2 = h.dest := load16_bytes rfl rfl
  have len : load16 (udp_bytes h.source h.dest h.len) 4 = h.len := load16_bytes rfl rfl
  simp only [l4header,Nat.zero_add,source,dest,len]

theorem field16_load (packet : Memory) (i : Nat) : field16 packet i = swapped (load16 packet i).toNat := by
  rw [toNat_load16,swapped_swapped (field16_lt packet i)]

/-- The bytes of a header give every combination of fields. -/
theorem described_iff (vm : variables_map) (made : UdpRule) : Described vm made ↔
    ∀ (sport dport len : UInt16) (s_addr d_addr : UInt32),
      (made.ip_src.in_this s_addr = true ∧ made.ip_dst.in_this d_addr = true ∧ made.l4.src_port.in_this sport = true ∧
          made.l4.dst_port.in_this dport = true ∧ made.l4.len.in_this len = true) ↔
        made.ip_src.in_this s_addr = true ∧ made.ip_dst.in_this d_addr = true ∧
          PortHolds vm .sport sport.toNat ∧ PortHolds vm .dport dport.toNat ∧ ComparisonHolds vm "hlen" (swapped len.toNat) := by
  constructor
  · intro described sport dport len s_addr d_addr
    have this := described (udp_bytes (ntohs sport) (ntohs dport) len) 0 s_addr d_addr
    rw [l4header_udp_bytes ⟨ntohs sport,ntohs dport,len⟩] at this
    have source : load16 (udp_bytes (ntohs sport) (ntohs dport) len) 0 = ntohs sport := load16_bytes rfl rfl
    have dest : load16 (udp_bytes (ntohs sport) (ntohs dport) len) (0 + 2) = ntohs dport := load16_bytes rfl rfl
    have length : load16 (udp_bytes (ntohs sport) (ntohs dport) len) (0 + 4) = len := load16_bytes rfl rfl
    rw [field16_eq _ 0,field16_eq _ (0 + 2),field16_load _ (0 + 4),source,dest,length,ntohs_ntohs,ntohs_ntohs] at this
    simpa only [UdpRule.check_packet,Bool.and_eq_true,and_assoc,ntohs_ntohs] using this
  · intro fields packet i s_addr d_addr
    rw [field16_eq packet i,field16_eq packet (i + 2),field16_load packet (i + 4)]
    rw [← fields]
    simp only [UdpRule.check_packet,l4header,Bool.and_eq_true,and_assoc]

theorem range_met {pair : UInt32 × UInt32} (ordered : pair.1 ≤ pair.2) :
    ∃ x, ((NumRange.empty : NumRange UInt32).assign pair).in_this x = true := by
  by_cases last : pair.2 = 0
  · have first : pair.1 = 0 := by
      rw [last] at ordered
      exact UInt32.le_zero_iff.mp ordered
    have kept : (NumRange.empty : NumRange UInt32).assign pair = .empty := if_neg (by simp [first,last])
    exact ⟨0,by rw [kept]; rfl⟩
  · have stored : (NumRange.empty : NumRange UInt32).assign pair = ⟨pair.1,pair.2,true⟩ := if_pos (.inr last)
    refine ⟨pair.2,?_⟩
    simp [stored,NumRange.in_this,last,ordered]

theorem network_range_ordered (ip : UInt32) (keepbits : Int) :
    (network_range ip keepbits).1 ≤ (network_range ip keepbits).2 := by
  simp only [network_range]
  generalize (if keepbits > 0 then 0 - ((1 : UInt32) <<< UInt32.ofInt (32 - keepbits)) else 0xFFFFFFFF) = mask
  split_ifs with all zero
  · exact le_top_address _
  · subst zero
    simp
  · rw [UInt32.le_iff_toNat_le,UInt32.toNat_and,UInt32.toNat_or]
    exact Nat.and_le_left.trans Nat.left_le_or

/-- Some address is in the range of every address option. -/
theorem address_met (platform : Platform) (v : Text) : ∃ x, (option_range platform v).in_this x = true := by
  refine range_met ?_
  cases read : platform.address_from_string (v.takeWhile (· ≠ '/')) with
  | error e =>
    rw [range_refused read]
    exact UInt32.le_refl _
  | ok a =>
    by_cases slash : '/' ∈ v
    · have taken : range_from_ip_string platform v = network_range a (atoi ((v.dropWhile (· ≠ '/')).drop 1)) := by
        simp only [range_from_ip_string,slash,↓reduceIte,read]
        rfl
      rw [taken]
      exact network_range_ordered a _
    · rw [takeWhile_whole slash] at read
      rw [range_plain read slash]
      exact UInt32.le_refl _

theorem addresses_met {platform : Platform} {vm : variables_map} {made : Ipv4Rule}
    (parsed : ({} : Ipv4Rule).ip_header_parse platform vm = .ok made) :
    (∃ s_addr, made.ip_src.in_this s_addr = true) ∧ ∃ d_addr, made.ip_dst.in_this d_addr = true := by
  have met {value : Option Text} {range : NumRange UInt32}
      (read : given value .empty (fun v => .ok (NumRange.empty.assign (range_from_ip_string platform v))) = .ok range) :
      ∃ x, range.in_this x = true := by
    cases value with
    | none => exact ⟨0,by rw [← Except.ok.inj read]; rfl⟩
    | some v =>
      obtain rfl := Except.ok.inj read
      exact address_met platform v
  obtain ⟨src_read,dst_read⟩ := ip_header_parsed parsed
  exact ⟨met src_read,met dst_read⟩

theorem udp_length_read {platform : Platform} {opt : options_description} {tokens : List Text} {vm : variables_map}
    {made : UdpRule} (options : CommandParser.parse opt tokens = .ok vm)
    (accepted : UdpRule.parse platform opt (UdpRule.new tokens) = .ok made) : ComparisonRead vm "hlen" made.l4.len := by
  obtain ⟨⟨base,vm'⟩,made_base,parsed⟩ := bind_ok accepted
  obtain ⟨shared,same⟩ := parse_base_parsed made_base
  obtain rfl := Except.ok.inj (options.symm.trans shared.options)
  obtain ⟨_,_,parsed⟩ := bind_ok parsed
  obtain ⟨_,_,parsed⟩ := bind_ok parsed
  obtain ⟨_,len_read,parsed⟩ := bind_ok parsed
  have fresh : base.l4.len = .empty := by rw [show base.l4 = (UdpRule.new tokens).l4 from same]; rfl
  rw [fresh] at len_read
  obtain rfl := Except.ok.inj parsed
  exact len_read

/-- An accepted UDP rule matches exactly the packets that its options describe if none
    can meet them, as they are stored and as they are written; or the port options write
    intervals that are stored as they are, and the comparison of the length is one that
    swapping bytes keeps. -/
theorem udp_described_iff {platform : Platform} {opt : options_description} {tokens : List Text} {vm : variables_map}
    {made : UdpRule} (options : CommandParser.parse opt tokens = .ok vm)
    (accepted : UdpRule.parse platform opt (UdpRule.new tokens) = .ok made) :
    Described vm made ↔ Unmeetable vm ∨ ((∀ o, PortWritten vm o) ∧ LengthWritten vm) := by
  obtain ⟨vm',options',ipv4,ports_read⟩ := parse_new (p := .UDP) accepted
  obtain rfl := Except.ok.inj (options.symm.trans options')
  have src_read : PortRead vm PortOption.sport.name .empty made.l4.src_port :=
    ports_read ("sport",made.l4.src_port) (by simp [ports])
  have dst_read : PortRead vm PortOption.dport.name .empty made.l4.dst_port :=
    ports_read ("dport",made.l4.dst_port) (by simp [ports])
  have len_read := udp_length_read options accepted
  have stored_iff : (∃ o, NoPortStored vm o) ∨ NoLengthStored vm ↔
      ∀ sport dport x, ¬ (made.l4.src_port.in_this sport = true ∧ made.l4.dst_port.in_this dport = true ∧
        made.l4.len.in_this x = true) := by
    rw [PortOption.exists_iff,no_port_stored_iff src_read,no_port_stored_iff dst_read,no_length_stored_iff len_read,or_assoc]
    exact field_unmet_iff.symm
  have written_iff : (∃ o, NoPortWritten vm o) ∨ NoLengthWritten vm ↔
      ∀ sport dport x : UInt16, ¬ (PortHolds vm .sport sport.toNat ∧ PortHolds vm .dport dport.toNat ∧
        ComparisonHolds vm "hlen" (swapped x.toNat)) := by
    rw [PortOption.exists_iff,no_port_written_iff,no_port_written_iff,no_length_written_iff len_read,or_assoc]
    exact field_unmet_iff.symm
  rw [described_iff,Unmeetable,stored_iff,written_iff]
  constructor
  · intro same
    obtain ⟨⟨s_addr,src⟩,⟨d_addr,dst⟩⟩ := addresses_met ipv4
    have fields (sport dport x : UInt16) := same sport dport x s_addr d_addr
    simp only [src,dst,true_and] at fields
    by_cases unmet : ∀ sport dport x, ¬ (made.l4.src_port.in_this sport = true ∧ made.l4.dst_port.in_this dport = true ∧
        made.l4.len.in_this x = true)
    · exact .inl ⟨unmet,fun sport dport x holds => unmet sport dport x ((fields sport dport x).mpr holds)⟩
    · simp only [not_forall,not_not] at unmet
      obtain ⟨sport,dport,x,source,dest,length⟩ := unmet
      obtain ⟨source_agrees,dest_agrees,length_agrees⟩ := fields_agree fields ⟨source,dest,length⟩
      refine .inr ⟨fun o => ?_,length_written len_read length_agrees⟩
      cases o with
      | sport => exact port_written src_read source_agrees source
      | dport => exact port_written dst_read dest_agrees dest
  · rintro (⟨stored,written⟩ | ⟨ports_written,length_written⟩) sport dport x s_addr d_addr
    · exact iff_of_false (fun all => stored sport dport x all.2.2) (fun all => written sport dport x all.2.2)
    · rw [port_agrees src_read (ports_written .sport),port_agrees dst_read (ports_written .dport),
        length_agrees len_read length_written]

/-- The rule text `--dstip 10.0.0.1 --pps-th 100p --hlen` and a value, in words. -/
def length_words (value : Text) : List Text := ["--dstip","10.0.0.1","--pps-th","100p","--hlen",value]

theorem udp_described_any_length : ∃ vm made,
    CommandParser.parse documented_options (length_words ">0") = .ok vm ∧
      UdpRule.parse documented documented_options (UdpRule.new (length_words ">0")) = .ok made ∧
      (Described vm made ↔ Unmeetable vm ∨ ((∀ o, PortWritten vm o) ∧ LengthWritten vm)) :=
  ⟨_,_,rfl,rfl,@udp_described_iff documented documented_options (length_words ">0") _ _ rfl rfl⟩

/-- A rule for lengths over 100 matches a header of length 8. -/
theorem short_datagram_matched : ∃ vm made,
    CommandParser.parse documented_options (length_words ">100") = .ok vm ∧
      UdpRule.parse documented documented_options (UdpRule.new (length_words ">100")) = .ok made ∧
      ¬ Described vm made := by
  refine ⟨_,_,rfl,rfl,?_⟩
  intro described
  have over_100 : NumberText ">100" '>' 100 :=
    ⟨by decide,_,[],[],['1','0','0'],rfl,⟨rfl,by simp,.inl rfl,by decide,by decide⟩,by decide⟩
  obtain ⟨_,_,_,_,length⟩ := (described (udp_bytes 0 0 0x0800) 0 1 167772161).mp rfl
  rw [comparison_holds_iff (by rfl) over_100] at length
  revert length
  unfold Compared
  decide

end DdosDetector
