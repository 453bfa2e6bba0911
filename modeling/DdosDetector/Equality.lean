import DdosDetector.Provenance

/-!
What `operator==` of a rule says about the packets that it matches. The parser keeps
every criterion in a normal form, so that equal ranges and flags are the same; but a
comparison with `=0` has the number and the type of one that is off, and
`NumComparable::operator==` does not look at `enable_`.
-/
namespace DdosDetector
set_option linter.unusedSectionVars false

/-! ### Criteria in normal form -/

namespace NumRange
variable {T : Type} [DecidableEq T] [LE T] [DecidableLE T] [OfNat T 0]

/-- A range is on exactly if it is not the pair of zeros. -/
def Sound (r : NumRange T) : Prop := r.enable_ = true ↔ r.start_ ≠ 0 ∨ r.end_ ≠ 0

theorem sound_empty : (empty : NumRange T).Sound := by simp [Sound,empty]

theorem sound_assign {r : NumRange T} (sound : r.Sound) (pair : T × T) : (r.assign pair).Sound := by
  unfold assign
  split_ifs with given
  · simpa [Sound] using given
  · exact sound

theorem eq_of_sound {r other : NumRange T} (sound : r.Sound) (sound' : other.Sound) (same : r.eq other = true) :
    r = other := by
  obtain ⟨start,last,enable⟩ := r
  obtain ⟨start',last',enable'⟩ := other
  simp only [eq,Bool.and_eq_true,decide_eq_true_eq] at same
  obtain ⟨rfl,rfl⟩ := same
  have enabled : enable = enable' := Bool.eq_iff_iff.mpr (sound.trans sound'.symm)
  rw [enabled]

end NumRange

namespace NumComparable
variable {T : Type} [DecidableEq T] [LT T] [DecidableLT T] [OfNat T 0]

/-- A comparison that is off has the number 0 and the type of `=`. -/
def Sound (r : NumComparable T) : Prop := r.enable_ = false → r.num_ = 0 ∧ r.type_ = 0

theorem sound_empty : (empty : NumComparable T).Sound := fun _ => ⟨rfl,rfl⟩

theorem sound_assign (r : NumComparable T) (pair : T × Nat) : (r.assign pair).Sound := by simp [Sound,assign]

@[simp] theorem in_this_empty (num : T) : (empty : NumComparable T).in_this num = true := rfl

theorem eq_of_enabled {r other : NumComparable T} (enabled : r.enable_ = other.enable_) (same : r.eq other = true) :
    r = other := by
  obtain ⟨num,enable,type⟩ := r
  obtain ⟨num',enable',type'⟩ := other
  simp only [eq,Bool.and_eq_true,decide_eq_true_eq] at same
  obtain ⟨rfl,rfl⟩ := same
  obtain rfl : enable = enable' := enabled
  rfl

/-- Where only one of two equal comparisons is on, it looks for the number 0. -/
theorem in_this_of_enabled {r other : NumComparable T} (sound : other.Sound) (same : r.eq other = true)
    (on : r.enable_ = true) (off : other.enable_ = false) (num : T) : r.in_this num = decide (num = 0) := by
  obtain ⟨zero,type⟩ := sound off
  simp only [eq,Bool.and_eq_true,decide_eq_true_eq,zero,type] at same
  simp [in_this,on,same.1,same.2]

theorem in_this_of_off {r : NumComparable T} (off : r.enable_ = false) (num : T) : r.in_this num = true := by
  simp [in_this,off]

end NumComparable

theorem tcp_flags.eq_of_eq {f other : tcp_flags} (same : f.eq other = true) : f = other := by
  obtain ⟨enable,bits,mask⟩ := f
  obtain ⟨enable',bits',mask'⟩ := other
  simp only [tcp_flags.eq,Bool.and_eq_true,decide_eq_true_eq] at same
  obtain ⟨⟨rfl,rfl⟩,rfl⟩ := same
  rfl

/-- The criteria of a protocol in normal form. -/
def SoundFields : (p : Proto) → Fields p → Prop
  | .TCP, f => (f.src_port.Sound ∧ f.dst_port.Sound) ∧ f.seq.Sound ∧ f.ack_seq.Sound ∧ f.win.Sound ∧ f.len.Sound
  | .UDP, f => (f.src_port.Sound ∧ f.dst_port.Sound) ∧ f.len.Sound
  | .ICMP, f => f.type.Sound ∧ f.code.Sound

/-- All criteria of a rule in normal form. -/
def Sound (p : Proto) (r : Rule (Fields p)) : Prop := (r.ip_src.Sound ∧ r.ip_dst.Sound) ∧ SoundFields p r.l4

/-! ### What the parser makes -/

theorem given_ok {α β : Type} {option : Option α} {old b : β} {parse : α → Except Exn β} {P : β → Prop}
    (parsed : given option old parse = .ok b) (kept : P old) (made : ∀ v made, parse v = .ok made → P made) : P b := by
  cases option with
  | none => exact Except.ok.inj parsed ▸ kept
  | some v => exact made v b parsed

theorem given_range {T : Type} [DecidableEq T] [LE T] [DecidableLE T] [OfNat T 0] {option : Option Text}
    {old r : NumRange T} {pair : Text → T × T} (sound : old.Sound)
    (parsed : given option old (fun v => .ok (old.assign (pair v))) = .ok r) : r.Sound :=
  given_ok parsed sound fun v _ made => Except.ok.inj made ▸ NumRange.sound_assign sound (pair v)

theorem given_comparable {T : Type} [DecidableEq T] [LT T] [DecidableLT T] [OfNat T 0] {option : Option Text}
    {old r : NumComparable T} {pair : Text → Except Exn (T × Nat)} (sound : old.Sound)
    (parsed : given option old (fun v => (pair v).map old.assign) = .ok r) : r.Sound := by
  refine given_ok parsed sound ?_
  intro v b made
  cases found : pair v with
  | error error => simp [found,Except.map] at made
  | ok p =>
    simp only [found,Except.map,Except.ok.injEq] at made
    exact made ▸ NumComparable.sound_assign old p

/-- The IPv4 criteria that `parse` makes are in normal form; it leaves the others alone. -/
theorem parse_base_sound {F : Type} {platform : Platform} {rule_type : Text} {opt : options_description}
    {r : Rule F} {made : Rule F × variables_map} (parsed : r.parse_base platform rule_type opt = .ok made)
    (src : r.ip_src.Sound) (dst : r.ip_dst.Sound) :
    (made.1.ip_src.Sound ∧ made.1.ip_dst.Sound) ∧ made.1.l4 = r.l4 := by
  obtain ⟨vm,_,parsed⟩ := bind_ok parsed
  obtain ⟨ipv4,header,parsed⟩ := bind_ok parsed
  obtain ⟨base,_,parsed⟩ := bind_ok parsed
  obtain rfl := Except.ok.inj parsed
  obtain ⟨ip_src,made_src,header⟩ := bind_ok header
  obtain ⟨ip_dst,made_dst,header⟩ := bind_ok header
  split_ifs at header
  · cases header
  · obtain rfl := Except.ok.inj header
    exact ⟨⟨given_range src made_src,given_range dst made_dst⟩,rfl⟩

private theorem tcp_sound {platform : Platform} {opt : options_description} {tokens : List Text} {r : TcpRule}
    (parsed : TcpRule.parse platform opt (TcpRule.new tokens) = .ok r) : Sound .TCP r := by
  obtain ⟨base,made_base,parsed⟩ := bind_ok parsed
  obtain ⟨src_port,made_src_port,parsed⟩ := bind_ok parsed
  obtain ⟨dst_port,made_dst_port,parsed⟩ := bind_ok parsed
  obtain ⟨seq,made_seq,parsed⟩ := bind_ok parsed
  obtain ⟨ack_seq,made_ack_seq,parsed⟩ := bind_ok parsed
  obtain ⟨win,made_win,parsed⟩ := bind_ok parsed
  obtain ⟨len,made_len,parsed⟩ := bind_ok parsed
  obtain ⟨flags,_,parsed⟩ := bind_ok parsed
  obtain rfl := Except.ok.inj parsed
  obtain ⟨ipv4,l4⟩ := parse_base_sound made_base NumRange.sound_empty NumRange.sound_empty
  have fresh : base.1.l4 = {} := l4
  rw [fresh] at made_src_port made_dst_port made_seq made_ack_seq made_win made_len
  exact ⟨ipv4,⟨given_range NumRange.sound_empty made_src_port,given_range NumRange.sound_empty made_dst_port⟩,
    given_comparable NumComparable.sound_empty made_seq,given_comparable NumComparable.sound_empty made_ack_seq,
    given_comparable NumComparable.sound_empty made_win,given_comparable NumComparable.sound_empty made_len⟩

private theorem udp_sound {platform : Platform} {opt : options_description} {tokens : List Text} {r : UdpRule}
    (parsed : UdpRule.parse platform opt (UdpRule.new tokens) = .ok r) : Sound .UDP r := by
  obtain ⟨base,made_base,parsed⟩ := bind_ok parsed
  obtain ⟨src_port,made_src_port,parsed⟩ := bind_ok parsed
  obtain ⟨dst_port,made_dst_port,parsed⟩ := bind_ok parsed
  obtain ⟨len,made_len,parsed⟩ := bind_ok parsed
  obtain rfl := Except.ok.inj parsed
  obtain ⟨ipv4,l4⟩ := parse_base_sound made_base NumRange.sound_empty NumRange.sound_empty
  have fresh : base.1.l4 = {} := l4
  rw [fresh] at made_src_port made_dst_port made_len
  exact ⟨ipv4,⟨given_range NumRange.sound_empty made_src_port,given_range NumRange.sound_empty made_dst_port⟩,
    given_comparable NumComparable.sound_empty made_len⟩

private theorem icmp_sound {platform : Platform} {opt : options_description} {tokens : List Text} {r : IcmpRule}
    (parsed : IcmpRule.parse platform opt (IcmpRule.new tokens) = .ok r) : Sound .ICMP r := by
  obtain ⟨base,made_base,parsed⟩ := bind_ok parsed
  obtain ⟨type,made_type,parsed⟩ := bind_ok parsed
  obtain ⟨code,made_code,parsed⟩ := bind_ok parsed
  obtain rfl := Except.ok.inj parsed
  obtain ⟨ipv4,l4⟩ := parse_base_sound made_base NumRange.sound_empty NumRange.sound_empty
  have fresh : base.1.l4 = {} := l4
  rw [fresh] at made_type made_code
  exact ⟨ipv4,given_comparable NumComparable.sound_empty made_type,
    given_comparable NumComparable.sound_empty made_code⟩

/-- A parsed rule is in normal form. -/
theorem parsed_sound {p : Proto} {r : Rule (Fields p)} (parsed : Parsed r) : Sound p r := by
  obtain ⟨platform,opt,tokens,made⟩ := parsed
  cases p with
  | TCP => exact tcp_sound made
  | UDP => exact udp_sound made
  | ICMP => exact icmp_sound made

/-! ### What equal rules match -/

/-- Whether each comparison of a rule is on. -/
def enabled_comparisons : (p : Proto) → Rule (Fields p) → List Bool
  | .TCP, r => [r.l4.seq.enable_,r.l4.ack_seq.enable_,r.l4.win.enable_,r.l4.len.enable_]
  | .UDP, r => [r.l4.len.enable_]
  | .ICMP, r => [r.l4.type.enable_,r.l4.code.enable_]

/-- Rules agree on every packet. -/
def SameMatches {p : Proto} (r r' : Rule (Fields p)) : Prop :=
  ∀ h s_addr d_addr, ProtoRule.check_packet r h s_addr d_addr = ProtoRule.check_packet r' h s_addr d_addr

/-- No packet matches the rule. -/
def Idle {p : Proto} (r : Rule (Fields p)) : Prop :=
  ∀ h s_addr d_addr, ProtoRule.check_packet r h s_addr d_addr = false

theorem ipv4_of_eq_base {F : Type} {r r' : Rule F} (src : r.ip_src.Sound) (dst : r.ip_dst.Sound)
    (src' : r'.ip_src.Sound) (dst' : r'.ip_dst.Sound) (same : r.eq_base r' = true) :
    r.toIpv4Rule = r'.toIpv4Rule := by
  simp only [Rule.eq_base,Bool.and_eq_true] at same
  obtain ⟨⟨⟨⟨⟨⟨same_src,same_dst⟩,_⟩,_⟩,_⟩,_⟩,_⟩ := same
  have ip_src := NumRange.eq_of_sound src src' same_src
  have ip_dst := NumRange.eq_of_sound dst dst' same_dst
  cases h : r.toIpv4Rule
  cases h' : r'.toIpv4Rule
  simp_all

private theorem tcp_criteria {r r' : TcpRule} (sound : Sound .TCP r) (sound' : Sound .TCP r')
    (same : TcpRule.eq r r' = true) (enabled : enabled_comparisons .TCP r = enabled_comparisons .TCP r') :
    r.toIpv4Rule = r'.toIpv4Rule ∧ r.l4 = r'.l4 := by
  simp only [TcpRule.eq,Bool.and_eq_true] at same
  obtain ⟨⟨⟨⟨⟨⟨⟨src,dst⟩,base⟩,seq⟩,ack_seq⟩,win⟩,len⟩,flags⟩ := same
  obtain ⟨ipv4,⟨src_sound,dst_sound⟩,_⟩ := sound
  obtain ⟨ipv4',⟨src_sound',dst_sound'⟩,_⟩ := sound'
  simp only [enabled_comparisons,List.cons.injEq,and_true] at enabled
  obtain ⟨seq_on,ack_on,win_on,len_on⟩ := enabled
  refine ⟨ipv4_of_eq_base ipv4.1 ipv4.2 ipv4'.1 ipv4'.2 base,?_⟩
  have src_port := NumRange.eq_of_sound src_sound src_sound' src
  have dst_port := NumRange.eq_of_sound dst_sound dst_sound' dst
  have comparisons := And.intro (NumComparable.eq_of_enabled seq_on seq) (NumComparable.eq_of_enabled ack_on ack_seq)
  have others := And.intro (NumComparable.eq_of_enabled win_on win) (NumComparable.eq_of_enabled len_on len)
  have bits := tcp_flags.eq_of_eq flags
  cases h : r.l4
  cases h' : r'.l4
  simp_all

private theorem udp_criteria {r r' : UdpRule} (sound : Sound .UDP r) (sound' : Sound .UDP r')
    (same : UdpRule.eq r r' = true) (enabled : enabled_comparisons .UDP r = enabled_comparisons .UDP r') :
    r.toIpv4Rule = r'.toIpv4Rule ∧ r.l4 = r'.l4 := by
  simp only [UdpRule.eq,Bool.and_eq_true] at same
  obtain ⟨⟨⟨src,dst⟩,base⟩,len⟩ := same
  obtain ⟨ipv4,⟨src_sound,dst_sound⟩,_⟩ := sound
  obtain ⟨ipv4',⟨src_sound',dst_sound'⟩,_⟩ := sound'
  simp only [enabled_comparisons,List.cons.injEq,and_true] at enabled
  refine ⟨ipv4_of_eq_base ipv4.1 ipv4.2 ipv4'.1 ipv4'.2 base,?_⟩
  have src_port := NumRange.eq_of_sound src_sound src_sound' src
  have dst_port := NumRange.eq_of_sound dst_sound dst_sound' dst
  have length := NumComparable.eq_of_enabled enabled len
  cases h : r.l4
  cases h' : r'.l4
  simp_all

private theorem icmp_criteria {r r' : IcmpRule} (sound : Sound .ICMP r) (sound' : Sound .ICMP r')
    (same : IcmpRule.eq r r' = true) (enabled : enabled_comparisons .ICMP r = enabled_comparisons .ICMP r') :
    r.toIpv4Rule = r'.toIpv4Rule ∧ r.l4 = r'.l4 := by
  simp only [IcmpRule.eq,Bool.and_eq_true] at same
  obtain ⟨⟨base,type⟩,code⟩ := same
  obtain ⟨ipv4,_⟩ := sound
  obtain ⟨ipv4',_⟩ := sound'
  simp only [enabled_comparisons,List.cons.injEq,and_true] at enabled
  refine ⟨ipv4_of_eq_base ipv4.1 ipv4.2 ipv4'.1 ipv4'.2 base,?_⟩
  have types := NumComparable.eq_of_enabled enabled.1 type
  have codes := NumComparable.eq_of_enabled enabled.2 code
  cases h : r.l4
  cases h' : r'.l4
  simp_all

/-- Equal rules in normal form with the same comparisons on match the same packets. -/
theorem same_matches_of_enabled {p : Proto} {r r' : Rule (Fields p)} (sound : Sound p r) (sound' : Sound p r')
    (same : ProtoRule.eq r r' = true) (enabled : enabled_comparisons p r = enabled_comparisons p r') :
    SameMatches r r' := by
  intro h s_addr d_addr
  cases p with
  | TCP =>
    obtain ⟨ipv4,l4⟩ := tcp_criteria sound sound' same enabled
    show TcpRule.check_packet r h s_addr d_addr = TcpRule.check_packet r' h s_addr d_addr
    simp only [TcpRule.check_packet,ipv4,l4]
  | UDP =>
    obtain ⟨ipv4,l4⟩ := udp_criteria sound sound' same enabled
    show UdpRule.check_packet r h s_addr d_addr = UdpRule.check_packet r' h s_addr d_addr
    simp only [UdpRule.check_packet,ipv4,l4]
  | ICMP =>
    obtain ⟨ipv4,l4⟩ := icmp_criteria sound sound' same enabled
    show IcmpRule.check_packet r h s_addr d_addr = IcmpRule.check_packet r' h s_addr d_addr
    simp only [IcmpRule.check_packet,ipv4,l4]

/-- A comparison of a protocol's rules: the field that it compares can be given
    another value than 0 without a bearing on the other criteria. -/
structure Comparison (p : Proto) (T : Type) [DecidableEq T] [LT T] [DecidableLT T] [OfNat T 0] where
  criterion : Rule (Fields p) → NumComparable T
  value : Header p → T
  perturb : Header p → Header p
  rest : Rule (Fields p) → Header p → UInt32 → UInt32 → Bool
  split : ∀ r h s_addr d_addr,
    ProtoRule.check_packet r h s_addr d_addr = (rest r h s_addr d_addr && (criterion r).in_this (value h))
  frame : ∀ r h s_addr d_addr, rest r (perturb h) s_addr d_addr = rest r h s_addr d_addr
  nonzero : ∀ h, value (perturb h) ≠ 0

namespace Comparison
variable {p : Proto} {T : Type} [DecidableEq T] [LT T] [DecidableLT T] [OfNat T 0]

/-- Equal rules that agree on every packet, and match some, do not differ in that the
    first has the comparison on. -/
theorem not_on_off (C : Comparison p T) {r r' : Rule (Fields p)} (sound : (C.criterion r').Sound)
    (same : (C.criterion r).eq (C.criterion r') = true) (agree : SameMatches r r') {h : Header p}
    {s_addr d_addr : UInt32} (hit : ProtoRule.check_packet r h s_addr d_addr = true)
    (on : (C.criterion r).enable_ = true) (off : (C.criterion r').enable_ = false) : False := by
  have hit' : ProtoRule.check_packet r' h s_addr d_addr = true := (agree h s_addr d_addr).symm.trans hit
  rw [C.split,Bool.and_eq_true] at hit'
  have moved : ProtoRule.check_packet r' (C.perturb h) s_addr d_addr = true := by
    rw [C.split,C.frame,hit'.1,NumComparable.in_this_of_off off]
    rfl
  rw [← agree,C.split,Bool.and_eq_true,NumComparable.in_this_of_enabled sound same on off] at moved
  exact C.nonzero h (of_decide_eq_true moved.2)

theorem eq_symm {c d : NumComparable T} (same : c.eq d = true) : d.eq c = true := by
  simp only [NumComparable.eq,Bool.and_eq_true,decide_eq_true_eq] at same ⊢
  exact ⟨same.1.symm,same.2.symm⟩

theorem enabled_of_agree (C : Comparison p T) {r r' : Rule (Fields p)} (sound : (C.criterion r).Sound)
    (sound' : (C.criterion r').Sound) (same : (C.criterion r).eq (C.criterion r') = true)
    (agree : SameMatches r r') {h : Header p} {s_addr d_addr : UInt32}
    (hit : ProtoRule.check_packet r h s_addr d_addr = true) :
    (C.criterion r).enable_ = (C.criterion r').enable_ := by
  have hit' : ProtoRule.check_packet r' h s_addr d_addr = true := (agree h s_addr d_addr).symm.trans hit
  have agree' : SameMatches r' r := fun h s_addr d_addr => (agree h s_addr d_addr).symm
  cases on : (C.criterion r).enable_ with
  | true =>
    cases on' : (C.criterion r').enable_ with
    | true => rfl
    | false => exact (C.not_on_off sound' same agree hit on on').elim
  | false =>
    cases on' : (C.criterion r').enable_ with
    | true => exact (C.not_on_off sound (eq_symm same) agree' hit' on' on).elim
    | false => rfl

end Comparison

private def tcp_seq : Comparison .TCP UInt32 where
  criterion r := r.l4.seq
  value h := ntohl h.seq
  perturb h := { h with seq := 1 }
  rest r h s_addr d_addr := TcpRule.check_packet { r with l4 := { r.l4 with seq := .empty } } h s_addr d_addr
  split r h s_addr d_addr := by
    show TcpRule.check_packet r h s_addr d_addr = _
    simp only [TcpRule.check_packet,NumComparable.in_this_empty,Bool.and_true]
    ac_rfl
  frame _ _ _ _ := by simp only [TcpRule.check_packet,TcpRule.header_flags,NumComparable.in_this_empty]
  nonzero _ := (by decide : ntohl 1 ≠ 0)

private def tcp_ack_seq : Comparison .TCP UInt32 where
  criterion r := r.l4.ack_seq
  value h := ntohl h.ack_seq
  perturb h := { h with ack_seq := 1 }
  rest r h s_addr d_addr := TcpRule.check_packet { r with l4 := { r.l4 with ack_seq := .empty } } h s_addr d_addr
  split r h s_addr d_addr := by
    show TcpRule.check_packet r h s_addr d_addr = _
    simp only [TcpRule.check_packet,NumComparable.in_this_empty,Bool.and_true]
    ac_rfl
  frame _ _ _ _ := by simp only [TcpRule.check_packet,TcpRule.header_flags,NumComparable.in_this_empty]
  nonzero _ := (by decide : ntohl 1 ≠ 0)

private def tcp_win : Comparison .TCP UInt16 where
  criterion r := r.l4.win
  value h := ntohs h.window
  perturb h := { h with window := 1 }
  rest r h s_addr d_addr := TcpRule.check_packet { r with l4 := { r.l4 with win := .empty } } h s_addr d_addr
  split r h s_addr d_addr := by
    show TcpRule.check_packet r h s_addr d_addr = _
    simp only [TcpRule.check_packet,NumComparable.in_this_empty,Bool.and_true]
    ac_rfl
  frame _ _ _ _ := by simp only [TcpRule.check_packet,TcpRule.header_flags,NumComparable.in_this_empty]
  nonzero _ := (by decide : ntohs 1 ≠ 0)

private def tcp_len : Comparison .TCP UInt16 where
  criterion r := r.l4.len
  value h := UInt16.ofNat (h.doff.toNat * 4)
  perturb h := { h with doff := 1 }
  rest r h s_addr d_addr := TcpRule.check_packet { r with l4 := { r.l4 with len := .empty } } h s_addr d_addr
  split r h s_addr d_addr := by
    show TcpRule.check_packet r h s_addr d_addr = _
    simp only [TcpRule.check_packet,NumComparable.in_this_empty,Bool.and_true]
    ac_rfl
  frame _ _ _ _ := by simp only [TcpRule.check_packet,TcpRule.header_flags,NumComparable.in_this_empty]
  nonzero _ := (by decide : UInt16.ofNat ((1#4).toNat * 4) ≠ 0)

private def udp_len : Comparison .UDP UInt16 where
  criterion r := r.l4.len
  value h := h.len
  perturb h := { h with len := 1 }
  rest r h s_addr d_addr := UdpRule.check_packet { r with l4 := { r.l4 with len := .empty } } h s_addr d_addr
  split r h s_addr d_addr := by
    show UdpRule.check_packet r h s_addr d_addr = _
    simp only [UdpRule.check_packet,NumComparable.in_this_empty,Bool.and_true]
  frame _ _ _ _ := rfl
  nonzero _ := (by decide : (1 : UInt16) ≠ 0)

private def icmp_type : Comparison .ICMP UInt8 where
  criterion r := r.l4.type
  value h := h.type
  perturb h := { h with type := 1 }
  rest r h s_addr d_addr := IcmpRule.check_packet { r with l4 := { r.l4 with type := .empty } } h s_addr d_addr
  split r h s_addr d_addr := by
    show IcmpRule.check_packet r h s_addr d_addr = _
    simp only [IcmpRule.check_packet,NumComparable.in_this_empty,Bool.and_true]
    ac_rfl
  frame _ _ _ _ := rfl
  nonzero _ := (by decide : (1 : UInt8) ≠ 0)

private def icmp_code : Comparison .ICMP UInt8 where
  criterion r := r.l4.code
  value h := h.code
  perturb h := { h with code := 1 }
  rest r h s_addr d_addr := IcmpRule.check_packet { r with l4 := { r.l4 with code := .empty } } h s_addr d_addr
  split r h s_addr d_addr := by
    show IcmpRule.check_packet r h s_addr d_addr = _
    simp only [IcmpRule.check_packet,NumComparable.in_this_empty,Bool.and_true]
  frame _ _ _ _ := rfl
  nonzero _ := (by decide : (1 : UInt8) ≠ 0)

/-- Equal rules in normal form that agree on every packet, and match some, have the
    same comparisons on. -/
theorem enabled_of_same_matches {p : Proto} {r r' : Rule (Fields p)} (sound : Sound p r) (sound' : Sound p r')
    (same : ProtoRule.eq r r' = true) (agree : SameMatches r r') {h : Header p} {s_addr d_addr : UInt32}
    (hit : ProtoRule.check_packet r h s_addr d_addr = true) :
    enabled_comparisons p r = enabled_comparisons p r' := by
  cases p with
  | TCP =>
    obtain ⟨_,_,seq,ack_seq,win,len⟩ := sound
    obtain ⟨_,_,seq',ack_seq',win',len'⟩ := sound'
    have equal : TcpRule.eq r r' = true := same
    simp only [TcpRule.eq,Bool.and_eq_true] at equal
    obtain ⟨⟨⟨⟨⟨_,same_seq⟩,same_ack_seq⟩,same_win⟩,same_len⟩,_⟩ := equal
    simp only [enabled_comparisons,List.cons.injEq,and_true]
    exact ⟨tcp_seq.enabled_of_agree seq seq' same_seq agree hit,
      tcp_ack_seq.enabled_of_agree ack_seq ack_seq' same_ack_seq agree hit,
      tcp_win.enabled_of_agree win win' same_win agree hit,tcp_len.enabled_of_agree len len' same_len agree hit⟩
  | UDP =>
    obtain ⟨_,_,len⟩ := sound
    obtain ⟨_,_,len'⟩ := sound'
    have equal : UdpRule.eq r r' = true := same
    simp only [UdpRule.eq,Bool.and_eq_true] at equal
    simp only [enabled_comparisons,List.cons.injEq,and_true]
    exact udp_len.enabled_of_agree len len' equal.2 agree hit
  | ICMP =>
    obtain ⟨_,type,code⟩ := sound
    obtain ⟨_,type',code'⟩ := sound'
    have equal : IcmpRule.eq r r' = true := same
    simp only [IcmpRule.eq,Bool.and_eq_true] at equal
    obtain ⟨⟨_,same_type⟩,same_code⟩ := equal
    simp only [enabled_comparisons,List.cons.injEq,and_true]
    exact ⟨icmp_type.enabled_of_agree type type' same_type agree hit,
      icmp_code.enabled_of_agree code code' same_code agree hit⟩

/-- Two rules have the same comparisons on, or neither matches any packet. -/
def Undivided {p : Proto} (r r' : Rule (Fields p)) : Prop :=
  enabled_comparisons p r = enabled_comparisons p r' ∨ Idle r ∧ Idle r'

/-- What it takes for equal rules in normal form to match the same packets. -/
theorem same_matches_iff {p : Proto} {r r' : Rule (Fields p)} (sound : Sound p r) (sound' : Sound p r')
    (same : ProtoRule.eq r r' = true) : SameMatches r r' ↔ Undivided r r' := by
  constructor
  · intro agree
    by_cases idle : Idle r
    · exact .inr ⟨idle,fun h s_addr d_addr => (agree h s_addr d_addr).symm.trans (idle h s_addr d_addr)⟩
    · simp only [Idle,not_forall,Bool.not_eq_false] at idle
      obtain ⟨h,s_addr,d_addr,hit⟩ := idle
      exact .inl (enabled_of_same_matches sound sound' same agree hit)
  · rintro (enabled | ⟨idle,idle'⟩)
    · exact same_matches_of_enabled sound sound' same enabled
    · exact fun h s_addr d_addr => (idle h s_addr d_addr).trans (idle' h s_addr d_addr).symm

/-! ### Lists that match the same positions -/

/-- Rules at the same position of two lists match the same packets. -/
def SamePositions {p : Proto} (l m : RulesList (Fields p)) : Prop :=
  ∀ (packet : Packet (Header p)) (k : Nat),
    (l.rules_[k]?.map fun r => RulesList.matches_packet r packet) =
      m.rules_[k]?.map fun r => RulesList.matches_packet r packet

private theorem matches_at {p : Proto} (l : RulesList (Fields p)) (packet : Packet (Header p)) (k : Nat) :
    (l.rules_[k]?.map fun r => RulesList.matches_packet r packet) =
      l.entered[k]?.map fun r => RulesList.matches_packet r packet := by
  simp [RulesList.entered,Function.comp_def,RulesList.matches_entered]

/-- Whether lists match the same positions depends on the rules as entered only. -/
theorem samePositions_congr {p : Proto} {l m l' m' : RulesList (Fields p)} (left : l.entered = l'.entered)
    (right : m.entered = m'.entered) : SamePositions l m ↔ SamePositions l' m' := by
  refine forall₂_congr ?_
  intro packet k
  rw [matches_at l,matches_at m,matches_at l',matches_at m',left,right]

theorem samePositions_iff {p : Proto} {l m : RulesList (Fields p)} (same : l.eq m = true)
    (sound : ∀ r ∈ l.rules_, Sound p r) (sound' : ∀ r ∈ m.rules_, Sound p r) :
    SamePositions l m ↔ ∀ (k : Nat) (r r' : Rule (Fields p)),
      l.rules_[k]? = some r → m.rules_[k]? = some r' → Undivided r r' := by
  obtain ⟨size,equal⟩ := RulesList.eq_iff_getElem?.mp same
  constructor
  · intro positions k r r' here there
    rw [← same_matches_iff (sound r (List.mem_of_getElem? here)) (sound' r' (List.mem_of_getElem? there))
      (equal k r r' here there)]
    intro h s_addr d_addr
    have both := positions ⟨h,s_addr,d_addr,0⟩ k
    rw [here,there] at both
    exact Option.some.inj both
  · intro undivided packet k
    cases here : l.rules_[k]? with
    | none =>
      have past : m.rules_[k]? = none := by simpa [← size] using here
      rw [past]
    | some r =>
      have inside : k < m.rules_.length := size ▸ (List.getElem?_eq_some_iff.mp here).1
      have there := List.getElem?_eq_getElem inside
      rw [there]
      have agree := (same_matches_iff (sound r (List.mem_of_getElem? here)) (sound' _ (List.mem_of_getElem? there))
        (equal k r _ here there)).mpr (undivided k r _ here there)
      exact congrArg some (agree packet.l4header packet.s_addr packet.d_addr)

theorem forall_mem_iff_of_forall₂ {α β : Type} {R : α → β → Prop} {P : α → Prop} {Q : β → Prop} {l : List α} {m : List β}
    (related : List.Forall₂ R l m) (agree : ∀ a ∈ l, ∀ b, R a b → (P a ↔ Q b)) : (∀ a ∈ l, P a) ↔ ∀ b ∈ m, Q b := by
  induction related with
  | nil => simp
  | cons head _ ih =>
    simp only [List.forall_mem_cons]
    exact and_congr (agree _ (by simp) _ head) (ih fun a member => agree a (by simp [member]))

/-- Every rule of the collection is in normal form. -/
def SoundCollection (c : RulesCollection) : Prop := ∀ p, ∀ r ∈ (c.list p).rules_, Sound p r

/-- What it takes for every thread to match the same positions as main after a pass. -/
theorem pass_classifies_iff (now : Nat → Proto → time_point) (main : RulesCollection) (threads : List RulesCollection)
    (main_sound : SoundCollection main) (threads_sound : ∀ c ∈ threads, SoundCollection c) :
    ∃ main' threads', sync_pass now main threads = .ok (main',threads') ∧
      ((∀ c' ∈ threads', ∀ p, SamePositions (c'.list p) (main'.list p)) ↔
        ∀ c ∈ threads, c.ne main = false → ∀ (p : Proto) (k : Nat) (r r' : Rule (Fields p)),
          (c.list p).rules_[k]? = some r → (main.list p).rules_[k]? = some r' → Undivided r r') := by
  obtain ⟨main',threads',passed,same,copied,_⟩ := sync_pass_spec now main threads
  refine ⟨main',threads',passed,(forall_mem_iff_of_forall₂ copied fun c member c' entered => ?_).symm⟩
  have positions : (∀ p, SamePositions (c'.list p) (main'.list p)) ↔
      ∀ p, if c.ne main then True else SamePositions (c.list p) (main.list p) := by
    refine forall_congr' ?_
    intro p
    cases differ : c.ne main with
    | true =>
      have now_main : (c'.list p).entered = (main.list p).entered := by simpa [differ] using entered p
      rw [samePositions_congr now_main (same p)]
      exact iff_of_true (fun packet k => rfl) trivial
    | false =>
      have kept : (c'.list p).entered = (c.list p).entered := by simpa [differ] using entered p
      rw [samePositions_congr kept (same p)]
      simp
  rw [positions]
  cases differ : c.ne main with
  | true => simp
  | false =>
    have equal := (RulesCollection.ne_eq_false_iff c main).mp differ
    simp only [Bool.false_eq_true,↓reduceIte,forall_const]
    exact forall_congr' fun p => (samePositions_iff (equal p) (threads_sound c member p) (main_sound p)).symm

namespace Daemon
variable {platform : Platform} {a : Label} {s : Daemon}

/-- The rule, as entered, is what `parse` made of some text. -/
def FromText (p : Proto) (r : Rule (Fields p)) : Prop := ∃ made : Rule (Fields p), Parsed made ∧ made.entered = r

theorem enters_fromText (words : FromWords a) : Enters FromText platform s a := by
  cases a with
  | console p e =>
    intro given entered r parsed
    obtain ⟨tokens,rfl⟩ := words given entered
    exact ⟨r,⟨platform,_,tokens,parsed⟩,rfl⟩
  | load now => exact fun q file buff here p r member => ⟨r,RulesFileLoader.loaded_rules_parsed member,rfl⟩
  | packet i p packet => trivial
  | reload file now => trivial
  | watch now clock => trivial

theorem sound_of_madeOf {c : RulesCollection} (made : c.MadeOf FromText) : SoundCollection c := by
  intro p r member
  obtain ⟨parsed,from_text,same⟩ := made p r member
  have sound : Sound p parsed := parsed_sound from_text
  have entered_sound : Sound p parsed.entered := sound
  rw [same] at entered_sound
  exact entered_sound

/-- Equal parsed rules match the same packets exactly if they have the same
    comparisons on or match none. So the threads match the same positions as main
    after a pass, in whatever way its rules were entered, exactly if this holds of the
    rules of each thread that the pass considers up to date. -/
theorem parsed_rules_classify_iff (platform : Platform) :
    (∀ (p : Proto) (r r' : Rule (Fields p)), Parsed r → Parsed r' → ProtoRule.eq r r' = true →
      (SameMatches r r' ∧ r.next_rule = r'.next_rule ↔ Undivided r r')) ∧
    ∀ (init s : Daemon) (labels : List Label), MadeOf FromText init →
      Runs.Run (step platform) (fun _ a => FromWords a) init labels s → ∀ now : Nat → Proto → time_point,
      ∃ main' threads', sync_pass now s.main s.threads = .ok (main',threads') ∧
        ((∀ c' ∈ threads', ∀ p, SamePositions (c'.list p) (main'.list p)) ↔
          ∀ c ∈ s.threads, c.ne s.main = false → ∀ (p : Proto) (k : Nat) (r r' : Rule (Fields p)),
            (c.list p).rules_[k]? = some r → (s.main.list p).rules_[k]? = some r' → Undivided r r') := by
  refine ⟨fun p r r' parsed parsed' same => ?_,fun init s labels made run now => ?_⟩
  · rw [same_matches_iff (parsed_sound parsed) (parsed_sound parsed') same,and_iff_left (ProtoRule.eq_next same)]
  · have reached : MadeOf FromText s :=
      run.invariant made fun s a s' made words taken => madeOf_step (stepped taken) (enters_fromText words) made
    refine pass_classifies_iff now s.main s.threads (sound_of_madeOf reached.main) ?_
    intro c member
    obtain ⟨i,inside,rfl⟩ := List.getElem_of_mem member
    exact sound_of_madeOf (reached.threads i _ (List.getElem?_eq_getElem inside))

end Daemon

/-- The rule text `--dstip 10.0.0.1 --pps-th 100p --seq =0`, in words. -/
def zero_words : List Text := ["--dstip","10.0.0.1","--pps-th","100p","--seq","=0"]

/-- A comparison with 0 is lost on `operator==`: the rule with `--seq =0` equals the one
    without, which also matches a packet of sequence number 1. -/
theorem zero_comparison_divides : ∃ r r' : TcpRule,
    TcpRule.parse documented documented_options (TcpRule.new sample_words) = .ok r ∧
      TcpRule.parse documented documented_options (TcpRule.new zero_words) = .ok r' ∧ TcpRule.eq r r' = true ∧
      ¬ SameMatches (p := .TCP) r r' := by
  refine ⟨_,_,rfl,rfl,rfl,?_⟩
  intro agree
  have differ := agree ⟨1,1,1,1,5,false,false,false,false,false,false,1⟩ 1 167772161
  revert differ
  decide

theorem sample_parsed : Parsed (p := .TCP) sample_rule :=
  ⟨documented,documented_options,sample_words,sample_rule_parsed⟩

theorem sample_fromText : Daemon.MadeOf Daemon.FromText Daemon.sample_daemon := by
  have made : (tcp_collection [sample_rule]).MadeOf Daemon.FromText := by
    intro p r member
    cases p with
    | TCP => exact ⟨sample_rule,sample_parsed,by rw [List.mem_singleton.mp member]⟩
    | UDP => cases member
    | ICMP => cases member
  refine ⟨made,fun i c found => ?_,fun p buff at_p => by cases at_p⟩
  have member : c ∈ [tcp_collection [sample_rule]] := List.mem_of_getElem? found
  exact List.mem_singleton.mp member ▸ made

/-- The rule text `--dstip 10.0.0.1/32 --pps-th 100p`, in words. -/
def host_words : List Text := ["--dstip","10.0.0.1/32","--pps-th","100p"]

/-- Another text of the sample rule, and a pass after the rule has been added so. -/
theorem parsed_rules_classify_host : ∃ r s,
    TcpRule.parse documented documented_options (TcpRule.new host_words) = .ok r ∧ r.text_rule ≠ sample_rule.text_rule ∧
    (SameMatches (p := .TCP) sample_rule r ∧ sample_rule.next_rule = r.next_rule ↔
      Undivided (p := .TCP) sample_rule r) ∧
    Runs.Run (Daemon.step documented) (fun _ a => Daemon.FromWords a) Daemon.sample_daemon
      [.console .TCP (.add_rule (TcpRule.new host_words)),Daemon.tick 1] s ∧ (s.main.list .TCP).rules_.length = 2 ∧
    ∃ main' threads', sync_pass (fun _ _ => 1) s.main s.threads = .ok (main',threads') ∧
      ((∀ c' ∈ threads', ∀ p, SamePositions (c'.list p) (main'.list p)) ↔
        ∀ c ∈ s.threads, c.ne s.main = false → ∀ (p : Proto) (k : Nat) (r r' : Rule (Fields p)),
          (c.list p).rules_[k]? = some r → (s.main.list p).rules_[k]? = some r' → Undivided r r') := by
  obtain ⟨rules,passes⟩ := Daemon.parsed_rules_classify_iff documented
  obtain ⟨r,accepted,other,same⟩ : ∃ r, TcpRule.parse documented documented_options (TcpRule.new host_words) = .ok r ∧
      r.text_rule ≠ sample_rule.text_rule ∧ TcpRule.eq sample_rule r = true := ⟨_,rfl,by decide,rfl⟩
  have parsed : Parsed (p := .TCP) r := ⟨documented,documented_options,host_words,accepted⟩
  obtain ⟨s,reached,two⟩ : ∃ s, Runs.runFrom (Daemon.step documented) Daemon.sample_daemon
      [.console .TCP (.add_rule (TcpRule.new host_words)),Daemon.tick 1] = some s ∧
      (s.main.list .TCP).rules_.length = 2 := ⟨_,rfl,rfl⟩
  have run : Runs.Run (Daemon.step documented) (fun _ a => Daemon.FromWords a) Daemon.sample_daemon
      [.console .TCP (.add_rule (TcpRule.new host_words)),Daemon.tick 1] s := by
    refine .of_runFrom_free (fun a member _ => ?_) reached
    simp only [List.mem_cons,List.not_mem_nil,or_false] at member
    rcases member with rfl | rfl
    · intro given entered
      exact ⟨host_words,(Option.some.inj entered).symm⟩
    · trivial
  exact ⟨r,s,accepted,other,rules .TCP sample_rule r sample_parsed parsed same,run,two,
    passes Daemon.sample_daemon s _ sample_fromText run fun _ _ => 1⟩

end DdosDetector
