import DdosDetector.Collection
import DdosDetector.Networks

/-!
The address and port criteria of an accepted rule against the option texts. A text that
is not an address or a port is not refused: it leaves the criterion off, or stores
another range.
-/
namespace DdosDetector

/-- An address that boost accepts, alone or with 0 to 32 mask bits. -/
inductive AddressText (platform : Platform) : Text → Prop
  | one {v : Text} {a : UInt32} (plain : '/' ∉ v) (address : platform.address_from_string v = .ok a) : AddressText platform v
  | network {v bits : Text} {a : UInt32} (plain : '/' ∉ v) (address : platform.address_from_string v = .ok a)
      (numeral : IsNumeral bits) (fits : decimal bits ≤ 32) : AddressText platform (v ++ '/' :: bits)

/-- A decimal port, or two with the first not above the second: the bounds written. -/
inductive PortText : Text → Nat → Nat → Prop
  | one {v : Text} (numeral : IsNumeral v) (fits : decimal v ≤ 65535) : PortText v (decimal v) (decimal v)
  | range {first last : Text} (numerals : IsNumeral first ∧ IsNumeral last) (fits : decimal last ≤ 65535)
      (ordered : decimal first ≤ decimal last) : PortText (first ++ '-' :: last) (decimal first) (decimal last)

/-! ### What is stored for them -/

theorem network_range_set (ip : UInt32) (keepbits : Int) : (network_range ip keepbits).2 ≠ 0 := by
  simp only [network_range]
  generalize (if keepbits > 0 then 0 - ((1 : UInt32) <<< UInt32.ofInt (32 - keepbits)) else 0xFFFFFFFF) = mask
  split_ifs with all zero
  · decide
  · subst zero
    have short : mask ≠ 0xFFFFFFFF := fun ones => all ⟨rfl,ones⟩
    intro none
    have free : ~~~mask = 0 := by simpa using none
    rw [← UInt32.not_not (a := mask),free] at short
    exact short rfl
  · intro none
    exact zero (UInt32.or_eq_zero_iff.mp none).1

theorem assign_stat {T : Type} [DecidableEq T] [LE T] [DecidableLE T] [OfNat T 0] (pair : T × T) :
    ((NumRange.empty : NumRange T).assign pair).stat = true ↔ pair.1 ≠ 0 ∨ pair.2 ≠ 0 := by
  by_cases set : pair.1 ≠ 0 ∨ pair.2 ≠ 0
  · have stored : (NumRange.empty : NumRange T).assign pair = ⟨pair.1,pair.2,true⟩ := if_pos set
    simp [stored,NumRange.stat,set]
  · have kept : (NumRange.empty : NumRange T).assign pair = .empty := if_neg set
    rw [kept]
    simp [NumRange.stat,NumRange.empty,set]

/-- An exception of boost becomes the pair of zeros, whatever stands behind the slash. -/
theorem range_refused {platform : Platform} {v : Text} {e : Exn}
    (refused : platform.address_from_string (v.takeWhile (· ≠ '/')) = .error e) : range_from_ip_string platform v = (0,0) := by
  by_cases slash : '/' ∈ v
  · simp only [range_from_ip_string,slash,↓reduceIte,refused]
    rfl
  · rw [takeWhile_whole slash] at refused
    simp only [range_from_ip_string,slash,↓reduceIte,refused]
    rfl

/-- Any text with an address before its first slash is taken; a text without one, and
    the address zero alone, leave the criterion off. -/
theorem option_range_enabled_iff (platform : Platform) (v : Text) : (option_range platform v).stat = true ↔
    ∃ a, platform.address_from_string (v.takeWhile (· ≠ '/')) = .ok a ∧ ('/' ∉ v → a ≠ 0) := by
  rw [option_range,assign_stat]
  cases read : platform.address_from_string (v.takeWhile (· ≠ '/')) with
  | error e => simp [range_refused read]
  | ok a =>
    by_cases slash : '/' ∈ v
    · have taken : range_from_ip_string platform v = network_range a (atoi ((v.dropWhile (· ≠ '/')).drop 1)) := by
        simp only [range_from_ip_string,slash,↓reduceIte,read]
        rfl
      simp [taken,network_range_set,slash]
    · rw [takeWhile_whole slash] at read
      rw [range_plain read slash]
      simp [slash]

/-- The range of a well-formed address is enabled unless it is the address zero alone. -/
theorem address_enabled_iff {platform : Platform} {v : Text} (text : AddressText platform v) :
    (option_range platform v).stat = true ↔ ('/' ∉ v → platform.address_from_string v ≠ .ok 0) := by
  rw [option_range_enabled_iff]
  cases text with
  | @one v a plain address =>
    rw [takeWhile_whole plain,address]
    simp [plain]
  | @network v bits a plain address numeral fits =>
    rw [takeWhile_separator plain,address]
    simp

theorem numeral_no_dash {w : Text} (numeral : IsNumeral w) : '-' ∉ w := by
  intro member
  exact absurd (numeral.2 '-' member) (by decide)

theorem port_number {w : Text} (numeral : IsNumeral w) (fits : decimal w ≤ 65535) :
    (UInt16.ofInt (atoi w)).toNat = decimal w := by
  have low : (decimal w : Int) % 2^16 = decimal w := Int.emod_eq_of_lt (by omega) (by omega)
  rw [atoi_small numeral (by omega),UInt16.ofInt,low,Int.toNat_natCast]
  exact UInt16.toNat_ofNat_of_lt' (by change decimal w < 65536; omega)

/-- The bounds of a well-formed port text are stored as they are written. -/
theorem range_from_port_text {v : Text} {first last : Nat} (text : PortText v first last) :
    (range_from_port_string v).1.toNat = first ∧ (range_from_port_string v).2.toNat = last := by
  cases text with
  | one numeral fits =>
    simp only [range_from_port_string,numeral_no_dash numeral,↓reduceIte]
    exact ⟨port_number numeral fits,port_number numeral fits⟩
  | @range first last numerals fits ordered =>
    have apart : '-' ∉ first := numeral_no_dash numerals.1
    have member : '-' ∈ first ++ '-' :: last := by simp
    simp only [range_from_port_string,member,↓reduceIte,takeWhile_separator apart,dropWhile_separator apart,
      List.drop_one,List.tail_cons]
    exact ⟨port_number numerals.1 (ordered.trans fits),port_number numerals.2 fits⟩

theorem port_ordered {v : Text} {first last : Nat} (text : PortText v first last) : first ≤ last := by
  cases text with
  | one => exact le_refl _
  | range _ _ ordered => exact ordered

/-- The range of a well-formed port text is enabled unless it is the port zero alone. -/
theorem port_enabled_iff {v : Text} {first last : Nat} (text : PortText v first last) :
    ((NumRange.empty : NumRange UInt16).assign (range_from_port_string v)).stat = true ↔ 0 < last := by
  obtain ⟨lower,upper⟩ := range_from_port_text text
  have ordered := port_ordered text
  have lower_zero : (range_from_port_string v).1 = 0 ↔ first = 0 := by
    rw [← UInt16.toNat_inj,lower]
    rfl
  have upper_zero : (range_from_port_string v).2 = 0 ↔ last = 0 := by
    rw [← UInt16.toNat_inj,upper]
    rfl
  rw [assign_stat,ne_eq,ne_eq,lower_zero,upper_zero]
  omega

/-! ### The criteria of a rule -/

/-- The address criteria, by the names of their options. -/
def addresses (r : Ipv4Rule) : List (String × NumRange UInt32) := [("srcip",r.ip_src),("dstip",r.ip_dst)]

theorem addresses_options (r : Ipv4Rule) : (addresses r).map Prod.fst = ["srcip","dstip"] := rfl

/-- The options of the ports that a protocol has. -/
def port_options : Proto → List String
  | .TCP | .UDP => ["sport","dport"]
  | .ICMP => []

theorem ports_options (p : Proto) (l4 : Fields p) : (ports p l4).map Prod.fst = port_options p := by
  cases p <;> rfl

/-- The value of each address option is an address text, and its range is enabled; and
    the same for ports. -/
def Honoured (platform : Platform) (vm : variables_map) {p : Proto} (made : Rule (Fields p)) : Prop :=
  (∀ c ∈ addresses made.toIpv4Rule, ∀ v, vm.value c.1 = some v → AddressText platform v ∧ c.2.stat = true) ∧
    ∀ c ∈ ports p made.l4, ∀ v, vm.value c.1 = some v → (∃ first last, PortText v first last) ∧ c.2.stat = true

/-- Each value given is well-formed, and none of them is zero alone. -/
def WellFormed (platform : Platform) (vm : variables_map) (p : Proto) : Prop :=
  (∀ name ∈ ["srcip","dstip"], ∀ v, vm.value name = some v →
      AddressText platform v ∧ ('/' ∉ v → platform.address_from_string v ≠ .ok 0)) ∧
    ∀ name ∈ port_options p, ∀ v, vm.value name = some v → ∃ first last, PortText v first last ∧ 0 < last

/-- A given option is assigned; one that is not leaves the criterion as it was. -/
theorem ip_header_parsed {platform : Platform} {vm : variables_map} {r made : Ipv4Rule}
    (parsed : r.ip_header_parse platform vm = .ok made) :
    given (vm.value "srcip") r.ip_src (fun v => .ok (r.ip_src.assign (range_from_ip_string platform v))) =
        .ok made.ip_src ∧
      given (vm.value "dstip") r.ip_dst (fun v => .ok (r.ip_dst.assign (range_from_ip_string platform v))) =
        .ok made.ip_dst := by
  obtain ⟨ip_src,src_read,parsed⟩ := bind_ok parsed
  obtain ⟨ip_dst,dst_read,parsed⟩ := bind_ok parsed
  split_ifs at parsed
  · cases parsed
  · obtain rfl := Except.ok.inj parsed
    exact ⟨src_read,dst_read⟩

theorem address_range {platform : Platform} {vm : variables_map} {made : Ipv4Rule}
    (parsed : ({} : Ipv4Rule).ip_header_parse platform vm = .ok made) {c : String × NumRange UInt32}
    (criterion : c ∈ addresses made) {v : Text} (value : vm.value c.1 = some v) : c.2 = option_range platform v := by
  obtain ⟨src_read,dst_read⟩ := ip_header_parsed parsed
  simp only [addresses,List.mem_cons,List.not_mem_nil,or_false] at criterion
  rcases criterion with rfl | rfl
  · rw [value] at src_read
    exact (Except.ok.inj src_read).symm
  · rw [value] at dst_read
    exact (Except.ok.inj dst_read).symm

theorem exists_related {α β : Type} {R : α → β → Prop} {l : List α} {m : List β} (related : List.Forall₂ R l m) {b : β}
    (member : b ∈ m) : ∃ a ∈ l, R a b := by
  induction related with
  | nil => cases member
  | @cons a' b' l m here rest ih =>
    rcases List.mem_cons.mp member with rfl | member
    · exact ⟨a',by simp,here⟩
    · obtain ⟨a,inside,relation⟩ := ih member
      exact ⟨a,by simp [inside],relation⟩

theorem new_ports_empty (p : Proto) (tokens : List Text) :
    ∀ c ∈ ports p (ProtoRule.new tokens : Rule (Fields p)).l4, c.2 = .empty := by
  intro c member
  cases p with
  | TCP | UDP =>
    simp only [ports,List.mem_cons,List.not_mem_nil,or_false] at member
    rcases member with rfl | rfl <;> rfl
  | ICMP => cases member

/-- What the parse of a rule made from words has read of its options. -/
theorem parse_new {platform : Platform} {opt : options_description} {p : Proto} {tokens : List Text}
    {made : Rule (Fields p)} (accepted : ProtoRule.parse platform opt (ProtoRule.new tokens) = .ok made) :
    ∃ vm, CommandParser.parse opt tokens = .ok vm ∧ ({} : Ipv4Rule).ip_header_parse platform vm = .ok made.toIpv4Rule ∧
      ∀ c ∈ ports p made.l4, PortRead vm c.1 .empty c.2 := by
  obtain ⟨vm,shared,ports_read⟩ := parse_parsed accepted
  have words : (ProtoRule.new tokens : Rule (Fields p)).tokenize_rule = tokens := by cases p <;> rfl
  have fresh : (ProtoRule.new tokens : Rule (Fields p)).toIpv4Rule = {} := by cases p <;> rfl
  refine ⟨vm,words ▸ shared.options,fresh ▸ shared.ipv4,?_⟩
  intro c criterion
  obtain ⟨old,member,name,assigned⟩ := exists_related ports_read criterion
  rw [new_ports_empty p tokens old member,name] at assigned
  exact assigned

theorem port_range {vm : variables_map} {name : String} {range : NumRange UInt16} (read : PortRead vm name .empty range)
    {v : Text} (value : vm.value name = some v) : range = NumRange.empty.assign (range_from_port_string v) := by
  rw [PortRead,value] at read
  exact (Except.ok.inj read).symm

/-- A rule that is made from words honours the addresses and ports given to it exactly
    if all of them are well-formed and none is zero alone. -/
theorem criteria_honoured_iff {platform : Platform} {opt : options_description} {p : Proto} {tokens : List Text}
    {made : Rule (Fields p)} (accepted : ProtoRule.parse platform opt (ProtoRule.new tokens) = .ok made) :
    ∃ vm, CommandParser.parse opt tokens = .ok vm ∧ (Honoured platform vm made ↔ WellFormed platform vm p) := by
  obtain ⟨vm,options,header,ports_read⟩ := parse_new accepted
  refine ⟨vm,options,and_congr ?_ ?_⟩
  · constructor
    · intro honoured name option v value
      rw [← addresses_options made.toIpv4Rule] at option
      obtain ⟨c,member,rfl⟩ := List.mem_map.mp option
      obtain ⟨text,enabled⟩ := honoured c member v value
      rw [address_range header member value,address_enabled_iff text] at enabled
      exact ⟨text,enabled⟩
    · intro well_formed c member v value
      have option : c.1 ∈ ["srcip","dstip"] := by
        rw [← addresses_options made.toIpv4Rule]
        exact List.mem_map_of_mem member
      obtain ⟨text,nonzero⟩ := well_formed c.1 option v value
      rw [address_range header member value,address_enabled_iff text]
      exact ⟨text,nonzero⟩
  · constructor
    · intro honoured name option v value
      rw [← ports_options p made.l4] at option
      obtain ⟨c,member,rfl⟩ := List.mem_map.mp option
      obtain ⟨⟨first,last,text⟩,enabled⟩ := honoured c member v value
      rw [port_range (ports_read c member) value,port_enabled_iff text] at enabled
      exact ⟨first,last,text,enabled⟩
    · intro well_formed c member v value
      have option : c.1 ∈ port_options p := by
        rw [← ports_options p made.l4]
        exact List.mem_map_of_mem member
      obtain ⟨first,last,text,nonzero⟩ := well_formed c.1 option v value
      rw [port_range (ports_read c member) value,port_enabled_iff text]
      exact ⟨⟨first,last,text⟩,nonzero⟩

theorem criteria_honoured_sample :
    ∃ vm, CommandParser.parse documented_options sample_words = .ok vm ∧
      (Honoured (p := .TCP) documented vm sample_rule ↔ WellFormed documented vm .TCP) :=
  criteria_honoured_iff (p := .TCP) sample_rule_parsed

/-- A source address with a typo is accepted beside a destination, and matches every
    source. -/
theorem source_typo_accepted : ∃ vm made,
    CommandParser.parse documented_options ["--srcip","10.0.0.","--dstip","10.0.0.1","--pps-th","100p"] = .ok vm ∧
      TcpRule.parse documented documented_options
        (TcpRule.new ["--srcip","10.0.0.","--dstip","10.0.0.1","--pps-th","100p"]) = .ok made ∧
      vm.value "srcip" = some "10.0.0.".toList ∧ made.ip_src.stat = false ∧ (∀ x, made.ip_src.in_this x = true) ∧
      ¬ Honoured (p := .TCP) documented vm made := by
  refine ⟨_,_,rfl,rfl,rfl,rfl,fun x => rfl,?_⟩
  rintro ⟨honoured,_⟩
  exact absurd (honoured _ List.mem_cons_self "10.0.0.".toList rfl).2 (by decide)

end DdosDetector
