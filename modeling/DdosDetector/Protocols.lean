import DdosDetector.Parser

/-!
The rules of the three protocols: the headers that a receiver reads on Linux,
the criteria of `TcpRule`, `UdpRule` and `IcmpRule`, how they are parsed, compared
and checked against a packet.
-/
namespace DdosDetector

/-- The protocols that have a list of rules, in the order in which `RulesCollection`
    visits its lists. -/
inductive Proto
  | TCP
  | UDP
  | ICMP
deriving DecidableEq, Repr

namespace Proto

def index : Proto → Nat
  | .TCP => 0
  | .UDP => 1
  | .ICMP => 2

def next : Proto → Option Proto
  | .TCP => some .UDP
  | .UDP => some .ICMP
  | .ICMP => none

theorem next_some {p q : Proto} (h : p.next = some q) : q.index = p.index + 1 := by
  cases p <;> simp [next] at h <;> subst h <;> rfl

theorem next_none {p : Proto} (h : p.next = none) : p = .ICMP := by
  cases p <;> simp [next] at h; rfl

theorem index_inj {p q : Proto} (h : p.index = q.index) : p = q := by
  cases p <;> cases q <;> simp [index] at h <;> rfl

theorem index_le (p : Proto) : p.index ≤ Proto.ICMP.index := by
  cases p <;> simp [index]

end Proto

/-! ### Headers -/

/-- `struct tcphdr`, with multi-byte fields as loaded on a little-endian host. -/
structure tcphdr where
  source : UInt16
  dest : UInt16
  seq : UInt32
  ack_seq : UInt32
  doff : BitVec 4
  fin : Bool
  syn : Bool
  rst : Bool
  psh : Bool
  ack : Bool
  urg : Bool
  window : UInt16
deriving DecidableEq

/-- `struct udphdr`, likewise. -/
structure udphdr where
  source : UInt16
  dest : UInt16
  len : UInt16
deriving DecidableEq

structure icmphdr where
  type : UInt8
  code : UInt8
deriving DecidableEq

def ntohs (x : UInt16) : UInt16 := (x <<< 8) ||| (x >>> 8)
def ntohl (x : UInt32) : UInt32 :=
  (x <<< 24) ||| ((x &&& (0xFF00 : UInt32)) <<< 8) ||| ((x >>> 8) &&& (0xFF00 : UInt32)) ||| (x >>> 24)

/-! ### Rules -/

def accept_tcp_flags : List Char := ['U','A','P','R','S','F']

structure tcp_flags where
  enable : Bool
  bits_ : BitVec 6
  mask_ : BitVec 6
deriving DecidableEq

def tcp_flags.in_this (f : tcp_flags) (flags : BitVec 6) : Bool := flags &&& f.mask_ = f.bits_
def tcp_flags.eq (f other : tcp_flags) : Bool :=
  f.bits_ = other.bits_ && f.mask_ = other.mask_ && f.enable = other.enable

structure TcpFields where
  src_port : NumRange UInt16 := .empty
  dst_port : NumRange UInt16 := .empty
  seq : NumComparable UInt32 := .empty
  ack_seq : NumComparable UInt32 := .empty
  win : NumComparable UInt16 := .empty
  len : NumComparable UInt16 := .empty
  flags : tcp_flags := ⟨false,0,0⟩
deriving DecidableEq

structure UdpFields where
  src_port : NumRange UInt16 := .empty
  dst_port : NumRange UInt16 := .empty
  len : NumComparable UInt16 := .empty
deriving DecidableEq

structure IcmpFields where
  type : NumComparable UInt8 := .empty
  code : NumComparable UInt8 := .empty
deriving DecidableEq

abbrev TcpRule := Rule TcpFields
abbrev UdpRule := Rule UdpFields
abbrev IcmpRule := Rule IcmpFields

namespace Rule
variable {Fields : Type}

/-- The comparisons that the three `operator==` share. -/
def eq_base (r other : Rule Fields) : Bool :=
  r.ip_src.eq other.ip_src && r.ip_dst.eq other.ip_dst && r.next_rule = other.next_rule
    && r.pps_trigger = other.pps_trigger && r.bps_trigger = other.bps_trigger
    && r.pps_trigger_period = other.pps_trigger_period && r.bps_trigger_period = other.bps_trigger_period

/-- What the three `parse` do before their own options: the texts, the IPv4 header
    and the base options. -/
def parse_base (platform : Platform) (rule_type : Text) (opt : options_description) (r : Rule Fields) :
    Except Exn (Rule Fields × variables_map) := do
  let vm ← CommandParser.parse opt r.tokenize_rule
  let ipv4 ← r.toIpv4Rule.ip_header_parse platform vm
  let base ← { r.toBaseRule with
    rule_type := rule_type, text_rule := CommandParser.join r.tokenize_rule }.BaseRule_parse platform vm
  return ({ r with toIpv4Rule := ipv4, toBaseRule := base },vm)

end Rule

namespace TcpRule

/-- `TcpRule(tkn_rule)`. -/
def new (tkn_rule : List Text) : TcpRule := { tokenize_rule := tkn_rule, l4 := {} }

def parse (platform : Platform) (opt : options_description) (r : TcpRule) : Except Exn TcpRule := do
  let (r,vm) ← r.parse_base platform "tcp" opt
  let src_port ← given (vm.value "sport") r.l4.src_port fun v => .ok (r.l4.src_port.assign (range_from_port_string v))
  let dst_port ← given (vm.value "dport") r.l4.dst_port fun v => .ok (r.l4.dst_port.assign (range_from_port_string v))
  let seq ← given (vm.value "seq") r.l4.seq fun v =>
    (numcomp_from_string UInt64.toUInt32 v).map r.l4.seq.assign
  let ack_seq ← given (vm.value "ack") r.l4.ack_seq fun v =>
    (numcomp_from_string UInt64.toUInt32 v).map r.l4.ack_seq.assign
  let win ← given (vm.value "win") r.l4.win fun v => (numcomp_from_string UInt64.toUInt16 v).map r.l4.win.assign
  let len ← given (vm.value "hlen") r.l4.len fun v => (numcomp_from_string UInt64.toUInt16 v).map r.l4.len.assign
  let flags ← given (vm.value "tcp-flag") r.l4.flags fun v =>
    (bitset_from_string platform v accept_tcp_flags).map fun p => ⟨true,p.1,p.2⟩
  return { r with l4 := ⟨src_port,dst_port,seq,ack_seq,win,len,flags⟩ }

/-- The flags of the header in the order of `accept_tcp_flags`. -/
def header_flags (h : tcphdr) : BitVec 6 :=
  set_bit (set_bit (set_bit (set_bit (set_bit (set_bit 0 0 h.urg) 1 h.ack) 2 h.psh) 3 h.rst) 4 h.syn) 5 h.fin

def check_packet (r : TcpRule) (tcp_hdr : tcphdr) (s_addr d_addr : UInt32) : Bool :=
  r.ip_src.in_this s_addr && r.ip_dst.in_this d_addr
    && r.l4.src_port.in_this (ntohs tcp_hdr.source)
    && r.l4.dst_port.in_this (ntohs tcp_hdr.dest)
    && r.l4.seq.in_this (ntohl tcp_hdr.seq)
    && r.l4.ack_seq.in_this (ntohl tcp_hdr.ack_seq)
    && r.l4.win.in_this (ntohs tcp_hdr.window)
    && r.l4.len.in_this (UInt16.ofNat (tcp_hdr.doff.toNat * 4))
    && (!r.l4.flags.enable || r.l4.flags.in_this (header_flags tcp_hdr))

def eq (r other : TcpRule) : Bool :=
  r.l4.src_port.eq other.l4.src_port && r.l4.dst_port.eq other.l4.dst_port && r.eq_base other
    && r.l4.seq.eq other.l4.seq && r.l4.ack_seq.eq other.l4.ack_seq && r.l4.win.eq other.l4.win
    && r.l4.len.eq other.l4.len && r.l4.flags.eq other.l4.flags

end TcpRule

namespace UdpRule

/-- `UdpRule(tkn_rule)`. -/
def new (tkn_rule : List Text) : UdpRule := { tokenize_rule := tkn_rule, l4 := {} }

def parse (platform : Platform) (opt : options_description) (r : UdpRule) : Except Exn UdpRule := do
  let (r,vm) ← r.parse_base platform "udp" opt
  let src_port ← given (vm.value "sport") r.l4.src_port fun v => .ok (r.l4.src_port.assign (range_from_port_string v))
  let dst_port ← given (vm.value "dport") r.l4.dst_port fun v => .ok (r.l4.dst_port.assign (range_from_port_string v))
  let len ← given (vm.value "hlen") r.l4.len fun v => (numcomp_from_string UInt64.toUInt16 v).map r.l4.len.assign
  return { r with l4 := ⟨src_port,dst_port,len⟩ }

/-- The length field is compared as it is loaded, without `ntohs`. -/
def check_packet (r : UdpRule) (udp_hdr : udphdr) (s_addr d_addr : UInt32) : Bool :=
  r.ip_src.in_this s_addr && r.ip_dst.in_this d_addr
    && r.l4.src_port.in_this (ntohs udp_hdr.source)
    && r.l4.dst_port.in_this (ntohs udp_hdr.dest)
    && r.l4.len.in_this udp_hdr.len

def eq (r other : UdpRule) : Bool :=
  r.l4.src_port.eq other.l4.src_port && r.l4.dst_port.eq other.l4.dst_port && r.eq_base other
    && r.l4.len.eq other.l4.len

end UdpRule

namespace IcmpRule

/-- `IcmpRule(tkn_rule)`. -/
def new (tkn_rule : List Text) : IcmpRule := { tokenize_rule := tkn_rule, l4 := {} }

def parse (platform : Platform) (opt : options_description) (r : IcmpRule) : Except Exn IcmpRule := do
  let (r,vm) ← r.parse_base platform "icmp" opt
  let type ← given (vm.value "type") r.l4.type fun v => (numcomp_from_string UInt64.toUInt8 v).map r.l4.type.assign
  let code ← given (vm.value "code") r.l4.code fun v => (numcomp_from_string UInt64.toUInt8 v).map r.l4.code.assign
  return { r with l4 := ⟨type,code⟩ }

def check_packet (r : IcmpRule) (icmp_hdr : icmphdr) (s_addr d_addr : UInt32) : Bool :=
  r.ip_src.in_this s_addr && r.ip_dst.in_this d_addr
    && r.l4.type.in_this icmp_hdr.type
    && r.l4.code.in_this icmp_hdr.code

def eq (r other : IcmpRule) : Bool :=
  r.eq_base other && r.l4.type.eq other.l4.type && r.l4.code.eq other.l4.code

end IcmpRule

/-! ### What a list of rules asks of its rules -/

/-- What the template `RulesList<T>` uses of its rule class. Neither comparing nor
    checking a packet looks at what counting, rates and triggers change, and every
    rule equals itself. -/
class ProtoRule (Fields : Type) (Header : outParam Type) where
  new : List Text → Rule Fields
  parse : Platform → options_description → Rule Fields → Except Exn (Rule Fields)
  check_packet : Rule Fields → Header → UInt32 → UInt32 → Bool
  eq : Rule Fields → Rule Fields → Bool
  eq_entered : ∀ r other, eq r.entered other.entered = eq r other
  check_entered : ∀ r, check_packet r.entered = check_packet r
  eq_self : ∀ r, eq r r = true
  eq_next : ∀ {r other}, eq r other = true → r.next_rule = other.next_rule

abbrev Fields : Proto → Type
  | .TCP => TcpFields
  | .UDP => UdpFields
  | .ICMP => IcmpFields

abbrev Header : Proto → Type
  | .TCP => tcphdr
  | .UDP => udphdr
  | .ICMP => icmphdr

theorem eq_base_self {F : Type} (r : Rule F) : r.eq_base r = true := by
  simp [Rule.eq_base,NumRange.eq]

theorem eq_base_next {F : Type} {r other : Rule F} (same : r.eq_base other = true) :
    r.next_rule = other.next_rule := by
  simp only [Rule.eq_base,Bool.and_eq_true,decide_eq_true_eq] at same
  exact same.1.1.1.1.2

instance : ProtoRule TcpFields tcphdr where
  new := TcpRule.new
  parse := TcpRule.parse
  check_packet := TcpRule.check_packet
  eq := TcpRule.eq
  eq_entered _ _ := rfl
  check_entered _ := rfl
  eq_self r := by simp [TcpRule.eq,eq_base_self,NumRange.eq,NumComparable.eq,tcp_flags.eq]
  eq_next same := by
    simp only [TcpRule.eq,Bool.and_eq_true] at same
    exact eq_base_next same.1.1.1.1.1.2

instance : ProtoRule UdpFields udphdr where
  new := UdpRule.new
  parse := UdpRule.parse
  check_packet := UdpRule.check_packet
  eq := UdpRule.eq
  eq_entered _ _ := rfl
  check_entered _ := rfl
  eq_self r := by simp [UdpRule.eq,eq_base_self,NumRange.eq,NumComparable.eq]
  eq_next same := by
    simp only [UdpRule.eq,Bool.and_eq_true] at same
    exact eq_base_next same.1.2

instance : ProtoRule IcmpFields icmphdr where
  new := IcmpRule.new
  parse := IcmpRule.parse
  check_packet := IcmpRule.check_packet
  eq := IcmpRule.eq
  eq_entered _ _ := rfl
  check_entered _ := rfl
  eq_self r := by simp [IcmpRule.eq,eq_base_self,NumComparable.eq]
  eq_next same := by
    simp only [IcmpRule.eq,Bool.and_eq_true] at same
    exact eq_base_next same.1.1

instance : (p : Proto) → ProtoRule (Fields p) (Header p)
  | .TCP => inferInstanceAs (ProtoRule TcpFields tcphdr)
  | .UDP => inferInstanceAs (ProtoRule UdpFields udphdr)
  | .ICMP => inferInstanceAs (ProtoRule IcmpFields icmphdr)

end DdosDetector
