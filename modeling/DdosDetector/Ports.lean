import DdosDetector.Criteria

/-!
The ports that an option selects: those of the interval that is written, but for the
port zero, which no range holds, and for the range of zero alone, which is taken for no
range.
-/
namespace DdosDetector

/-- The options on ports. -/
inductive PortOption
  | sport
  | dport
deriving DecidableEq

namespace PortOption

def name : PortOption → String
  | .sport => "sport"
  | .dport => "dport"

/-- The port of a header that the option is about. -/
def port : PortOption → (p : Proto) → Header p → Option UInt16
  | .sport, .TCP, h => some (ntohs h.source)
  | .dport, .TCP, h => some (ntohs h.dest)
  | .sport, .UDP, h => some (ntohs h.source)
  | .dport, .UDP, h => some (ntohs h.dest)
  | _, .ICMP, _ => none

/-- The criterion that the option sets, in the rules that have one. -/
def criterion : PortOption → (p : Proto) → Fields p → NumRange UInt16
  | .sport, .TCP, l4 => l4.src_port
  | .dport, .TCP, l4 => l4.dst_port
  | .sport, .UDP, l4 => l4.src_port
  | .dport, .UDP, l4 => l4.dst_port
  | _, .ICMP, _ => .empty

/-- The rule with this criterion off. -/
def lift : PortOption → {p : Proto} → Rule (Fields p) → Rule (Fields p)
  | .sport, .TCP, r => { r with l4 := { r.l4 with src_port := .empty } }
  | .dport, .TCP, r => { r with l4 := { r.l4 with dst_port := .empty } }
  | .sport, .UDP, r => { r with l4 := { r.l4 with src_port := .empty } }
  | .dport, .UDP, r => { r with l4 := { r.l4 with dst_port := .empty } }
  | _, .ICMP, r => r

end PortOption

variable {p : Proto} {o : PortOption}

theorem in_this_empty {T : Type} [DecidableEq T] [LE T] [DecidableLE T] [OfNat T 0] (x : T) :
    (NumRange.empty : NumRange T).in_this x = true := rfl

/-- A rule matches if the criterion holds of the port and all others hold. -/
theorem check_packet_port {h : Header p} {port : UInt16} (header : o.port p h = some port) (r : Rule (Fields p))
    (s_addr d_addr : UInt32) : ProtoRule.check_packet r h s_addr d_addr =
      (ProtoRule.check_packet (o.lift r) h s_addr d_addr && (o.criterion p r.l4).in_this port) := by
  cases p with
  | ICMP => cases o <;> cases header
  | TCP =>
    cases o with
    | sport =>
      obtain rfl := Option.some.inj header
      simp only [ProtoRule.check_packet,TcpRule.check_packet,PortOption.lift,PortOption.criterion,in_this_empty,Bool.and_true]
      ac_rfl
    | dport =>
      obtain rfl := Option.some.inj header
      simp only [ProtoRule.check_packet,TcpRule.check_packet,PortOption.lift,PortOption.criterion,in_this_empty,Bool.and_true]
      ac_rfl
  | UDP =>
    cases o with
    | sport =>
      obtain rfl := Option.some.inj header
      simp only [ProtoRule.check_packet,UdpRule.check_packet,PortOption.lift,PortOption.criterion,in_this_empty,Bool.and_true]
      ac_rfl
    | dport =>
      obtain rfl := Option.some.inj header
      simp only [ProtoRule.check_packet,UdpRule.check_packet,PortOption.lift,PortOption.criterion,in_this_empty,Bool.and_true]
      ac_rfl

theorem criterion_mem {h : Header p} {port : UInt16} (header : o.port p h = some port) (l4 : Fields p) :
    (o.name,o.criterion p l4) ∈ ports p l4 := by
  cases p <;> cases o <;> simp_all [PortOption.port,PortOption.name,PortOption.criterion,ports]

/-- The ports that a stored range holds. -/
theorem in_this_range {pair : UInt16 × UInt16} (port : UInt16) :
    ((NumRange.empty : NumRange UInt16).assign pair).in_this port = true ↔
      (pair.1 = 0 ∧ pair.2 = 0) ∨ (port ≠ 0 ∧ pair.1 ≤ port ∧ port ≤ pair.2) := by
  by_cases set : pair.1 ≠ 0 ∨ pair.2 ≠ 0
  · have stored : (NumRange.empty : NumRange UInt16).assign pair = ⟨pair.1,pair.2,true⟩ := if_pos set
    have some_range : ¬ (pair.1 = 0 ∧ pair.2 = 0) := not_and_or.mpr set
    simp [stored,NumRange.in_this,some_range]
  · have kept : (NumRange.empty : NumRange UInt16).assign pair = .empty := if_neg set
    have zeros : pair.1 = 0 ∧ pair.2 = 0 := not_not.mp (mt not_and_or.mp set)
    simp [kept,in_this_empty,zeros]

/-- A well-formed port text selects the interval that it writes, but for zero. -/
theorem in_this_port_text {text : Text} {first last : Nat} (written : PortText text first last) (port : UInt16) :
    ((NumRange.empty : NumRange UInt16).assign (range_from_port_string text)).in_this port = true ↔
      last = 0 ∨ (port ≠ 0 ∧ first ≤ port.toNat ∧ port.toNat ≤ last) := by
  obtain ⟨lower,upper⟩ := range_from_port_text written
  have ordered := port_ordered written
  rw [in_this_range,← UInt16.toNat_inj,← UInt16.toNat_inj (b := 0),UInt16.le_iff_toNat_le,UInt16.le_iff_toNat_le,lower,upper]
  have zero : (0 : UInt16).toNat = 0 := rfl
  rw [zero]
  constructor
  · exact Or.imp_left And.right
  · exact Or.imp_left fun none => ⟨by omega,none⟩

/-- A rule with a port option, whose other criteria hold of a packet, matches it as the
    interval has it exactly if the interval begins with another port than zero; or is
    zero alone, and that is the port; or is longer, and the port is not zero. -/
theorem port_option_iff {platform : Platform} {opt : options_description} {tokens : List Text} {vm : variables_map}
    {made : Rule (Fields p)} (options : CommandParser.parse opt tokens = .ok vm)
    (accepted : ProtoRule.parse platform opt (ProtoRule.new tokens) = .ok made) {text : Text} {first last : Nat}
    (written : PortText text first last) (value : vm.value o.name = some text) {h : Header p} {port : UInt16}
    (header : o.port p h = some port) {s_addr d_addr : UInt32}
    (others : ProtoRule.check_packet (o.lift made) h s_addr d_addr = true) :
    (ProtoRule.check_packet made h s_addr d_addr = true ↔ first ≤ port.toNat ∧ port.toNat ≤ last) ↔
      (first = 0 → (last = 0 ↔ port = 0)) := by
  obtain ⟨vm',options',_,ports_read⟩ := parse_new accepted
  obtain rfl := Except.ok.inj (options.symm.trans options')
  have stored : o.criterion p made.l4 = NumRange.empty.assign (range_from_port_string text) :=
    port_range (ports_read _ (criterion_mem header made.l4)) value
  rw [check_packet_port header,others,Bool.true_and,stored,in_this_port_text written,ne_eq,← UInt16.toNat_inj]
  have ordered := port_ordered written
  have zero : (0 : UInt16).toNat = 0 := rfl
  rw [zero]
  constructor
  · rintro same rfl
    omega
  · intro border
    by_cases lowest : first = 0
    · have zero_alone := border lowest
      omega
    · omega

/-- The rule text `--dstip 10.0.0.1 --pps-th 100p --dport` and a value, in words. -/
def port_words (value : Text) : List Text := ["--dstip","10.0.0.1","--pps-th","100p","--dport",value]

/-- A UDP header with this destination port. -/
def to_port (port : UInt16) : udphdr := ⟨0,ntohs port,0⟩

theorem http_ports : PortText "80-90" 80 90 :=
  @PortText.range ['8','0'] ['9','0'] (by decide) (by decide) (by decide)

theorem port_option_http : ∃ vm made,
    (CommandParser.parse documented_options (port_words "80-90") = .ok vm ∧
      UdpRule.parse documented documented_options (UdpRule.new (port_words "80-90")) = .ok made ∧
      vm.value "dport" = some "80-90".toList) ∧
      ((ProtoRule.check_packet made (to_port 80) 1 167772161 = true ↔ 80 ≤ 80 ∧ 80 ≤ 90) ↔
        (80 = 0 → (90 = 0 ↔ (80 : UInt16) = 0))) :=
  ⟨_,_,⟨rfl,rfl,rfl⟩,@port_option_iff .UDP .dport documented documented_options (port_words "80-90") _ _ rfl rfl
    "80-90" 80 90 http_ports rfl (to_port 80) 80 rfl 1 167772161 rfl⟩

/-- The port zero alone selects the port 80 too. -/
theorem zero_port_selects_all : ∃ vm made,
    CommandParser.parse documented_options (port_words "0") = .ok vm ∧
      UdpRule.parse documented documented_options (UdpRule.new (port_words "0")) = .ok made ∧
      vm.value "dport" = some "0".toList ∧ PortText "0" 0 0 ∧
      ProtoRule.check_packet (@PortOption.lift .dport .UDP made) (to_port 80) 1 167772161 = true ∧
      ¬ (ProtoRule.check_packet made (to_port 80) 1 167772161 = true ↔ 0 ≤ 80 ∧ 80 ≤ 0) := by
  refine ⟨_,_,rfl,rfl,rfl,.one (by decide) (by decide),rfl,?_⟩
  intro same
  exact absurd (same.mp rfl) (by decide)

end DdosDetector
