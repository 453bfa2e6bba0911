import DdosDetector.Flags
import DdosDetector.Networks
import DdosDetector.UdpPackets

/-!
What the options of a rule say of the bytes of a frame, for the three protocols. A rule
whose options are written as they should be matches exactly the frames that they
describe: the fields as they stand on the wire, in network order.
-/
namespace DdosDetector
open NetmapReceiver (l4header)

/-! ### Fields of four bytes -/

/-- The field of four bytes at an offset, in network order. -/
def field32 (packet : Memory) (i : Nat) : Nat := field16 packet i * 65536 + field16 packet (i + 2)

theorem ntohl_halves (low high : UInt16) :
    ntohl (low.toUInt32 ||| (high.toUInt32 <<< 16)) = (ntohs high).toUInt32 ||| ((ntohs low).toUInt32 <<< 16) := by
  refine UInt32.toBitVec_inj.mp (BitVec.eq_of_getLsbD_eq fun i below => ?_)
  simp only [ntohl,ntohs,UInt32.toBitVec_or,UInt32.toBitVec_and,UInt32.toBitVec_shiftLeft,UInt32.toBitVec_shiftRight,
    UInt16.toBitVec_toUInt32,UInt16.toBitVec_or,UInt16.toBitVec_shiftLeft,UInt16.toBitVec_shiftRight]
  interval_cases i <;> simp

/-- A field is decoded by `ntohl` of what is loaded. -/
theorem field32_eq (packet : Memory) (i : Nat) : field32 packet i = (ntohl (load32 packet i)).toNat := by
  have range := field16_lt packet (i + 2)
  have first := field16_lt packet i
  have shifted : field16 packet i <<< 16 % 2^32 = 2^16 * field16 packet i := by
    rw [Nat.shiftLeft_eq]
    omega
  rw [load32,ntohl_halves,UInt32.toNat_or,UInt32.toNat_shiftLeft,UInt16.toNat_toUInt32,UInt16.toNat_toUInt32,
    ← field16_eq,← field16_eq]
  show field32 packet i = field16 packet (i + 2) ||| field16 packet i <<< 16 % 2^32
  rw [shifted,Nat.or_comm,← Nat.two_pow_add_eq_or_of_lt (show field16 packet (i + 2) < 2^16 from range),field32]
  omega

theorem low_nibble (b : UInt8) : (b &&& 0x0F).toNat = b.toNat % 16 := by
  rw [UInt8.toNat_and]
  exact Nat.and_two_pow_sub_one_eq_mod b.toNat 4

theorem high_nibble (b : UInt8) : (b.toBitVec.extractLsb' 4 4).toNat = b.toNat / 16 := by
  have range := b.toNat_lt
  rw [BitVec.extractLsb'_toNat,Nat.shiftRight_eq_div_pow]
  exact Nat.mod_eq_of_lt (by change b.toNat / 16 < 16; omega)

/-! ### Addresses -/

/-- The text of an address, or of a network by its first bits. -/
inductive NetworkText (platform : Platform) : Text → UInt32 → Nat → Prop
  | address {v : Text} {a : UInt32} (plain : '/' ∉ v) (address : platform.address_from_string v = .ok a) :
      NetworkText platform v a 32
  | network {v bits : Text} {a : UInt32} (plain : '/' ∉ v) (address : platform.address_from_string v = .ok a)
      (numeral : IsNumeral bits) (fits : decimal bits ≤ 32) : NetworkText platform (v ++ '/' :: bits) a (decimal bits)

/-- The option, if given, writes a network that has the address in it. -/
def AddressHolds (platform : Platform) (vm : variables_map) (name : String) (x : Nat) : Prop :=
  ∀ text, vm.value name = some text →
    ∃ a n, NetworkText platform text a n ∧ x / 2^(32 - n) = a.toNat / 2^(32 - n)

/-- The option, if given, writes a network of some bits that has not the address zero in it. -/
def AddressWritten (platform : Platform) (vm : variables_map) (name : String) : Prop :=
  ∀ text, vm.value name = some text → ∃ a n, NetworkText platform text a n ∧ 0 < n ∧ 2^(32 - n) ≤ a.toNat

/-- The option is assigned to the range. -/
def AddressRead (platform : Platform) (vm : variables_map) (name : String) (range : NumRange UInt32) : Prop :=
  given (vm.value name) .empty (fun v => .ok (NumRange.empty.assign (range_from_ip_string platform v))) = .ok range

theorem network_text_unique {platform : Platform} {text : Text} {a a' : UInt32} {n n' : Nat}
    (written : NetworkText platform text a n) (written' : NetworkText platform text a' n') : a = a' ∧ n = n' := by
  cases written with
  | address plain address =>
    cases written' with
    | address _ address' => exact ⟨Except.ok.inj (address.symm.trans address'),rfl⟩
    | network => exact absurd (by simp) plain
  | @network v bits a plain address =>
    generalize whole : v ++ '/' :: bits = text at written'
    cases written' with
    | address plain' => exact absurd (by simp [← whole]) plain'
    | @network v' bits' a' plain' address' =>
      have words : v = v' := by
        rw [← takeWhile_separator plain bits,whole,takeWhile_separator plain']
      subst words
      obtain rfl : bits = bits' := by simpa using whole
      exact ⟨Except.ok.inj (address.symm.trans address'),rfl⟩

theorem agree_iff_div {n : Nat} (fits : n ≤ 32) (a x : UInt32) :
    Blocks.Agree n a.toBitVec x.toBitVec ↔ x.toNat / 2^(32 - n) = a.toNat / 2^(32 - n) := by
  rw [Blocks.agree_iff_shift fits,← BitVec.toNat_inj,BitVec.toNat_ushiftRight,BitVec.toNat_ushiftRight,
    Nat.shiftRight_eq_div_pow,Nat.shiftRight_eq_div_pow]
  exact eq_comm

/-- A network that is written as it should be is stored as the range of its addresses. -/
theorem selects_written {platform : Platform} {text : Text} {a : UInt32} {n : Nat} (written : NetworkText platform text a n)
    (some_bits : 0 < n) (large : 2^(32 - n) ≤ a.toNat) (x : UInt32) :
    (option_range platform text).in_this x = true ↔ x.toNat / 2^(32 - n) = a.toNat / 2^(32 - n) := by
  have nonzero : a ≠ 0 := by
    rintro rfl
    have positive := Nat.two_pow_pos (32 - n)
    exact absurd large (Nat.not_le.mpr positive)
  cases written with
  | address plain address =>
    have selected := ((selects_plain_iff a x).mpr nonzero).2
    rw [option_range,range_plain address plain,selected,← agree_iff_div (le_refl 32),Blocks.agree_all,UInt32.toBitVec_inj]
  | @network v bits a plain address numeral fits =>
    have block := (selects_network_iff fits a x).mpr
      ⟨fun none => absurd none (by omega),fun _ => nonzero,fun _ => large⟩
    rw [option_range,range_masked address plain,atoi_small numeral (by omega),block.2,agree_iff_div fits]

theorem address_agrees {platform : Platform} {vm : variables_map} {name : String} {range : NumRange UInt32}
    (read : AddressRead platform vm name range) (written : AddressWritten platform vm name) (x : UInt32) :
    range.in_this x = true ↔ AddressHolds platform vm name x.toNat := by
  unfold AddressRead at read
  cases value : vm.value name with
  | none =>
    rw [value] at read
    obtain rfl := Except.ok.inj read
    simp [in_this_empty,AddressHolds,value]
  | some text =>
    rw [value] at read
    obtain rfl : option_range platform text = range := Except.ok.inj read
    obtain ⟨a,n,network,some_bits,large⟩ := written text value
    rw [selects_written network some_bits large]
    constructor
    · intro inside text' value'
      obtain rfl := Option.some.inj (value.symm.trans value')
      exact ⟨a,n,network,inside⟩
    · intro holds
      obtain ⟨a',n',network',inside⟩ := holds text value
      obtain ⟨rfl,rfl⟩ := network_text_unique network network'
      exact inside

/-! ### Numbers -/

/-- The option, if given, writes a comparison with a number that fits the field. -/
def ComparisonWritten (bits : Nat) (vm : variables_map) (name : String) : Prop :=
  ∀ text, vm.value name = some text → ∃ op n, ComparisonText bits text op n

theorem comparison_agrees {T : Type} [DecidableEq T] [LT T] [DecidableLT T] [OfNat T 0] [FieldType T] {vm : variables_map}
    {name : String} {c : NumComparable T} (read : ComparisonRead vm name c)
    (written : ComparisonWritten (FieldType.bits T) vm name) (x : T) :
    c.in_this x = true ↔ ComparisonHolds vm name (FieldType.toNat x) := by
  cases value : vm.value name with
  | none => simp [comparison_absent read value,NumComparable.in_this,NumComparable.empty,ComparisonHolds,value]
  | some text =>
    obtain ⟨op,n,comparison⟩ := written text value
    have number := number_text_of_comparison (FieldType.narrow (T := T)) comparison
    have whole : (n : Int) % (2^(FieldType.bits T) : Nat) = n :=
      Int.emod_eq_of_lt (Int.natCast_nonneg n) (Int.ofNat_lt.mpr comparison.fits)
    rw [in_this_written read value number,comparison_holds_iff value number,whole]

/-! ### Flags -/

/-- The bit of the byte of flags for a flag. -/
def flag_bit : Char → Nat
  | 'F' => 0
  | 'S' => 1
  | 'R' => 2
  | 'P' => 3
  | 'A' => 4
  | _ => 5

/-- The option, if given, lists flags whose bits are as it last has them. -/
def FlagsHold (platform : Platform) (vm : variables_map) (flags : UInt8) : Prop :=
  ∀ text, vm.value "tcp-flag" = some text → ∃ items, tokenize platform ',' text = .ok items ∧
    ∀ flag ∈ accept_tcp_flags, ∀ state, last_state flag items = some state → flags.toNat.testBit (flag_bit flag) = state

/-- The option is assigned to the criterion. -/
def FlagsAssigned (platform : Platform) (vm : variables_map) (flags : tcp_flags) : Prop :=
  given (vm.value "tcp-flag") ⟨false,0,0⟩ (fun v =>
    (bitset_from_string platform v accept_tcp_flags).map fun p => ⟨true,p.1,p.2⟩) = .ok flags

theorem header_flag_bit (packet : Memory) (i : Nat) {flag : Char} (known : flag ∈ accept_tcp_flags) :
    header_flag (l4header packet i .TCP) flag = (packet (i + 13)).toNat.testBit (flag_bit flag) := by
  simp only [accept_tcp_flags,List.mem_cons,List.not_mem_nil,or_false] at known
  rcases known with rfl | rfl | rfl | rfl | rfl | rfl <;> rfl

/-- A list that has been accepted is checked against the bits that it names. -/
theorem flags_agree {platform : Platform} {vm : variables_map} {flags : tcp_flags}
    (assigned : FlagsAssigned platform vm flags) (packet : Memory) (i : Nat) :
    (!flags.enable || flags.in_this (TcpRule.header_flags (l4header packet i .TCP))) = true ↔
      FlagsHold platform vm (packet (i + 13)) := by
  unfold FlagsAssigned at assigned
  cases value : vm.value "tcp-flag" with
  | none =>
    rw [value] at assigned
    obtain rfl := Except.ok.inj assigned
    simp [FlagsHold,value]
  | some text =>
    rw [value] at assigned
    cases accepted : bitset_from_string platform text accept_tcp_flags with
    | error e =>
      simp only [given,accepted,Except.map] at assigned
      cases assigned
    | ok p =>
      simp only [given,accepted,Except.map] at assigned
      obtain rfl := Except.ok.inj assigned
      obtain ⟨items,tokens,_⟩ := (bitset_from_string_ok_iff platform text).mp ⟨p,accepted⟩
      have only (h : tcphdr) : (⟨true,p.1,p.2⟩ : tcp_flags).in_this (TcpRule.header_flags h) = true ↔
          ∀ flag ∈ accept_tcp_flags, ∀ v, last_state flag items = some v → header_flag h flag = v := by
        rw [← @check_flags_iff { l4 := { flags := ⟨true,p.1,p.2⟩ } } items p
          (bitset_from_string_stands tokens accepted) rfl h 0 0 rfl]
        simp [TcpRule.check_packet,in_this_empty,NumComparable.in_this,NumComparable.empty]
      rw [Bool.not_true,Bool.false_or,only]
      constructor
      · intro named text' value'
        obtain rfl := Option.some.inj (value.symm.trans value')
        exact ⟨items,tokens,fun flag known state last => header_flag_bit packet i known ▸ named flag known state last⟩
      · intro holds flag known state last
        obtain ⟨items',tokens',named⟩ := holds text value
        obtain rfl := Except.ok.inj (tokens.symm.trans tokens')
        exact (header_flag_bit packet i known).trans (named flag known state last)

/-! ### Whole rules -/

theorem base_parse_next {platform : Platform} {vm : variables_map} {r made : BaseRule}
    (parsed : r.BaseRule_parse platform vm = .ok made) : made.next_rule = (vm.flag "next" || r.next_rule) := by
  obtain ⟨pps_trigger,_,parsed⟩ := bind_ok parsed
  obtain ⟨bps_trigger,_,parsed⟩ := bind_ok parsed
  obtain ⟨act,_,parsed⟩ := bind_ok parsed
  by_cases none : pps_trigger = 0 ∧ bps_trigger = 0
  · simp only [none] at parsed
    cases parsed
  · simp only [none,↓reduceIte] at parsed
    split_ifs at parsed
    all_goals cases parsed
    rfl

theorem parse_base_next {F : Type} {platform : Platform} {rule_type : Text} {opt : options_description} {r : Rule F}
    {made : Rule F × variables_map} (parsed : r.parse_base platform rule_type opt = .ok made) :
    made.1.next_rule = (made.2.flag "next" || r.next_rule) := by
  obtain ⟨vm,_,parsed⟩ := bind_ok parsed
  obtain ⟨ipv4,_,parsed⟩ := bind_ok parsed
  obtain ⟨base,base_read,parsed⟩ := bind_ok parsed
  obtain rfl := Except.ok.inj parsed
  have next := base_parse_next base_read
  exact next

/-- What the parse of a TCP rule has read of its own options, but for the ports. -/
structure TcpRead (platform : Platform) (vm : variables_map) (l4 : TcpFields) : Prop where
  seq : ComparisonRead vm "seq" l4.seq
  ack_seq : ComparisonRead vm "ack" l4.ack_seq
  win : ComparisonRead vm "win" l4.win
  len : ComparisonRead vm "hlen" l4.len
  flags : FlagsAssigned platform vm l4.flags

theorem tcp_read {platform : Platform} {opt : options_description} {tokens : List Text} {vm : variables_map} {made : TcpRule}
    (options : CommandParser.parse opt tokens = .ok vm)
    (accepted : TcpRule.parse platform opt (TcpRule.new tokens) = .ok made) :
    TcpRead platform vm made.l4 ∧ made.next_rule = vm.flag "next" := by
  obtain ⟨⟨base,vm'⟩,made_base,parsed⟩ := bind_ok accepted
  obtain ⟨shared,same⟩ := parse_base_parsed made_base
  obtain rfl := Except.ok.inj (options.symm.trans shared.options)
  have fresh : base.l4 = {} := same
  obtain ⟨_,_,parsed⟩ := bind_ok parsed
  obtain ⟨_,_,parsed⟩ := bind_ok parsed
  obtain ⟨_,seq,parsed⟩ := bind_ok parsed
  obtain ⟨_,ack_seq,parsed⟩ := bind_ok parsed
  obtain ⟨_,win,parsed⟩ := bind_ok parsed
  obtain ⟨_,len,parsed⟩ := bind_ok parsed
  obtain ⟨_,flags,parsed⟩ := bind_ok parsed
  rw [fresh] at seq ack_seq win len flags
  obtain rfl := Except.ok.inj parsed
  exact ⟨⟨seq,ack_seq,win,len,flags⟩,(parse_base_next made_base).trans (Bool.or_false _)⟩

theorem udp_next {platform : Platform} {opt : options_description} {tokens : List Text} {vm : variables_map} {made : UdpRule}
    (options : CommandParser.parse opt tokens = .ok vm)
    (accepted : UdpRule.parse platform opt (UdpRule.new tokens) = .ok made) : made.next_rule = vm.flag "next" := by
  obtain ⟨⟨base,vm'⟩,made_base,parsed⟩ := bind_ok accepted
  obtain ⟨shared,_⟩ := parse_base_parsed made_base
  obtain rfl := Except.ok.inj (options.symm.trans shared.options)
  obtain ⟨_,_,parsed⟩ := bind_ok parsed
  obtain ⟨_,_,parsed⟩ := bind_ok parsed
  obtain ⟨_,_,parsed⟩ := bind_ok parsed
  obtain rfl := Except.ok.inj parsed
  exact (parse_base_next made_base).trans (Bool.or_false _)

theorem icmp_read {platform : Platform} {opt : options_description} {tokens : List Text} {vm : variables_map}
    {made : IcmpRule} (options : CommandParser.parse opt tokens = .ok vm)
    (accepted : IcmpRule.parse platform opt (IcmpRule.new tokens) = .ok made) :
    (ComparisonRead vm "type" made.l4.type ∧ ComparisonRead vm "code" made.l4.code) ∧ made.next_rule = vm.flag "next" := by
  obtain ⟨⟨base,vm'⟩,made_base,parsed⟩ := bind_ok accepted
  obtain ⟨shared,same⟩ := parse_base_parsed made_base
  obtain rfl := Except.ok.inj (options.symm.trans shared.options)
  have fresh : base.l4 = {} := same
  obtain ⟨_,type,parsed⟩ := bind_ok parsed
  obtain ⟨_,code,parsed⟩ := bind_ok parsed
  rw [fresh] at type code
  obtain rfl := Except.ok.inj parsed
  exact ⟨⟨type,code⟩,(parse_base_next made_base).trans (Bool.or_false _)⟩

/-- The header at the offset meets the options of the protocol. -/
def HeaderHolds (platform : Platform) (vm : variables_map) (packet : Memory) (i : Nat) : Proto → Prop
  | .TCP => PortHolds vm .sport (field16 packet i) ∧ PortHolds vm .dport (field16 packet (i + 2)) ∧
      ComparisonHolds vm "seq" (field32 packet (i + 4)) ∧ ComparisonHolds vm "ack" (field32 packet (i + 8)) ∧
      ComparisonHolds vm "win" (field16 packet (i + 14)) ∧
      ComparisonHolds vm "hlen" (4 * ((packet (i + 12)).toNat / 16)) ∧ FlagsHold platform vm (packet (i + 13))
  | .UDP => PortHolds vm .sport (field16 packet i) ∧ PortHolds vm .dport (field16 packet (i + 2)) ∧
      ComparisonHolds vm "hlen" (field16 packet (i + 4))
  | .ICMP => ComparisonHolds vm "type" (packet i).toNat ∧ ComparisonHolds vm "code" (packet (i + 1)).toNat

/-- The frame is between addresses of the options, and its header meets the others. -/
def Describes (platform : Platform) (vm : variables_map) (p : Proto) (packet : Memory) : Prop :=
  AddressHolds platform vm "srcip" (field32 packet 26) ∧ AddressHolds platform vm "dstip" (field32 packet 30) ∧
    HeaderHolds platform vm packet (14 + 4 * ((packet 14).toNat % 16)) p

/-- The options of the protocol are written as they should be. -/
def HeaderWritten (vm : variables_map) : Proto → Prop
  | .TCP => (∀ o, PortWritten vm o) ∧ ComparisonWritten 32 vm "seq" ∧ ComparisonWritten 32 vm "ack" ∧
      ComparisonWritten 16 vm "win" ∧ ComparisonWritten 16 vm "hlen"
  | .UDP => (∀ o, PortWritten vm o) ∧ LengthWritten vm
  | .ICMP => ComparisonWritten 8 vm "type" ∧ ComparisonWritten 8 vm "code"

/-- All options on frames are written as they should be: networks of some bits without
    the address zero, intervals of ports that are stored as they are, numbers that fit, and
    of a UDP length a comparison that swapping bytes keeps. -/
structure WellWritten (platform : Platform) (vm : variables_map) (p : Proto) : Prop where
  srcip : AddressWritten platform vm "srcip"
  dstip : AddressWritten platform vm "dstip"
  header : HeaderWritten vm p

section rule
variable {platform : Platform} {opt : options_description} {tokens : List Text} {vm : variables_map}

theorem header_length (packet : Memory) (i : Nat) :
    (UInt16.ofNat ((l4header packet i .TCP).doff.toNat * 4)).toNat = 4 * ((packet (i + 12)).toNat / 16) := by
  have range := (packet (i + 12)).toNat_lt
  show (UInt16.ofNat (((packet (i + 12)).toBitVec.extractLsb' 4 4).toNat * 4)).toNat = _
  rw [high_nibble,UInt16.toNat_ofNat_of_lt' (by change _ < 65536; omega)]
  omega

/-- Between addresses that hold, a rule checks what its own options say. -/
theorem header_agrees {p : Proto} {made : Rule (Fields p)} (options : CommandParser.parse opt tokens = .ok vm)
    (accepted : ProtoRule.parse platform opt (ProtoRule.new tokens) = .ok made) (written : HeaderWritten vm p)
    (packet : Memory) (i : Nat) (s_addr d_addr : UInt32) :
    ProtoRule.check_packet made (l4header packet i p) s_addr d_addr = true ↔
      made.ip_src.in_this s_addr = true ∧ made.ip_dst.in_this d_addr = true ∧ HeaderHolds platform vm packet i p := by
  obtain ⟨vm',options',_,ports_read⟩ := parse_new accepted
  obtain rfl := Except.ok.inj (options.symm.trans options')
  cases p with
  | TCP =>
    obtain ⟨⟨seq,ack_seq,win,len,flags⟩,_⟩ := tcp_read options accepted
    obtain ⟨ports_written,seq_written,ack_written,win_written,len_written⟩ := written
    have src_read : PortRead vm PortOption.sport.name .empty made.l4.src_port :=
      ports_read ("sport",made.l4.src_port) (by simp [ports])
    have dst_read : PortRead vm PortOption.dport.name .empty made.l4.dst_port :=
      ports_read ("dport",made.l4.dst_port) (by simp [ports])
    show TcpRule.check_packet made (l4header packet i .TCP) s_addr d_addr = true ↔ _
    simp only [TcpRule.check_packet,Bool.and_eq_true,and_assoc]
    rw [port_agrees src_read (ports_written .sport),port_agrees dst_read (ports_written .dport),
      comparison_agrees seq seq_written,comparison_agrees ack_seq ack_written,comparison_agrees win win_written,
      comparison_agrees len len_written,flags_agree flags]
    have source := field16_eq packet i
    have dest := field16_eq packet (i + 2)
    have number := field32_eq packet (i + 4)
    have answer := field32_eq packet (i + 8)
    have window := field16_eq packet (i + 14)
    have length := header_length packet i
    simp only [HeaderHolds,source,dest,number,answer,window,← length]
    rfl
  | UDP =>
    have len_read := udp_length_read options accepted
    obtain ⟨ports_written,len_written⟩ := written
    have src_read : PortRead vm PortOption.sport.name .empty made.l4.src_port :=
      ports_read ("sport",made.l4.src_port) (by simp [ports])
    have dst_read : PortRead vm PortOption.dport.name .empty made.l4.dst_port :=
      ports_read ("dport",made.l4.dst_port) (by simp [ports])
    show UdpRule.check_packet made (l4header packet i .UDP) s_addr d_addr = true ↔ _
    simp only [UdpRule.check_packet,Bool.and_eq_true,and_assoc]
    rw [port_agrees src_read (ports_written .sport),port_agrees dst_read (ports_written .dport),
      length_agrees len_read len_written]
    have source := field16_eq packet i
    have dest := field16_eq packet (i + 2)
    have length := field16_load packet (i + 4)
    simp only [HeaderHolds,source,dest,length]
    rfl
  | ICMP =>
    obtain ⟨⟨type,code⟩,_⟩ := icmp_read options accepted
    obtain ⟨type_written,code_written⟩ := written
    show IcmpRule.check_packet made (l4header packet i .ICMP) s_addr d_addr = true ↔ _
    simp only [IcmpRule.check_packet,Bool.and_eq_true,and_assoc]
    rw [comparison_agrees type type_written,comparison_agrees code code_written]
    rfl

/-- A rule that is made from words whose options are well written matches exactly the
    frames that they describe. -/
theorem matches_iff_describes {p : Proto} {made : Rule (Fields p)} (options : CommandParser.parse opt tokens = .ok vm)
    (accepted : ProtoRule.parse platform opt (ProtoRule.new tokens) = .ok made) (written : WellWritten platform vm p)
    (packet : Memory) (len : UInt32) :
    RulesList.matches_packet made (NetmapReceiver.read_packet packet len p) = true ↔ Describes platform vm p packet := by
  obtain ⟨vm',options',header,_⟩ := parse_new accepted
  obtain rfl := Except.ok.inj (options.symm.trans options')
  obtain ⟨src_read,dst_read⟩ := ip_header_parsed header
  have size : NetmapReceiver.sizeof_ether_header + NetmapReceiver.size_ip packet = 14 + 4 * ((packet 14).toNat % 16) := by
    have nibble := low_nibble (packet 14)
    show 14 + (packet 14 &&& 0x0F).toNat * 4 = _
    rw [nibble]
    omega
  have source := field32_eq packet 26
  have destination := field32_eq packet 30
  show ProtoRule.check_packet made (l4header packet _ p) (ntohl (load32 packet 26)) (ntohl (load32 packet 30)) = true ↔ _
  rw [header_agrees options accepted written.header,size,address_agrees src_read written.srcip,
    address_agrees dst_read written.dstip,← source,← destination]
  rfl

/-- The rule ends the list exactly if its words do not pass packets on. -/
theorem next_rule_given {p : Proto} {made : Rule (Fields p)} (options : CommandParser.parse opt tokens = .ok vm)
    (accepted : ProtoRule.parse platform opt (ProtoRule.new tokens) = .ok made) : made.next_rule = vm.flag "next" := by
  cases p with
  | TCP => exact (tcp_read options accepted).2
  | UDP => exact udp_next options accepted
  | ICMP => exact (icmp_read options accepted).2

end rule

end DdosDetector
