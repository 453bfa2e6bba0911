import DdosDetector.Daemon
import DdosDetector.FirstMatch

/-!
`NetmapReceiver::check_packet` on the memory behind a slot of the netmap ring. The
function goes by what the bytes say and never compares an offset to the length, so that
its result depends on what is left in the memory behind a packet that ends before the
headers it announces.
-/
namespace DdosDetector

/-! ### Loads -/

/-- The memory from the first byte of a packet on. -/
abbrev Memory := Nat → UInt8

/-- Loads of a little-endian host. -/
def load16 (packet : Memory) (i : Nat) : UInt16 := (packet i).toUInt16 ||| ((packet (i + 1)).toUInt16 <<< 8)
def load32 (packet : Memory) (i : Nat) : UInt32 :=
  (load16 packet i).toUInt32 ||| ((load16 packet (i + 2)).toUInt32 <<< 16)

def htons (x : UInt16) : UInt16 := ntohs x

theorem ntohs_ntohs (x : UInt16) : ntohs (ntohs x) = x := by
  refine UInt16.toBitVec_inj.mp (BitVec.eq_of_getLsbD_eq fun i below => ?_)
  simp only [ntohs,UInt16.toBitVec_or,UInt16.toBitVec_shiftLeft,UInt16.toBitVec_shiftRight]
  interval_cases i <;> simp

theorem ntohl_ntohl (x : UInt32) : ntohl (ntohl x) = x := by
  refine UInt32.toBitVec_inj.mp (BitVec.eq_of_getLsbD_eq fun i below => ?_)
  simp only [ntohl,UInt32.toBitVec_or,UInt32.toBitVec_and,UInt32.toBitVec_shiftLeft,UInt32.toBitVec_shiftRight]
  interval_cases i <;> simp

theorem load16_first (packet : Memory) (i : Nat) : (load16 packet i).toUInt8 = packet i := by
  refine UInt8.toBitVec_inj.mp (BitVec.eq_of_getLsbD_eq fun k below => ?_)
  simp only [load16,UInt16.toBitVec_toUInt8,UInt16.toBitVec_or,UInt16.toBitVec_shiftLeft,UInt8.toBitVec_toUInt16]
  interval_cases k <;> simp

theorem load16_last (packet : Memory) (i : Nat) : (load16 packet i >>> 8).toUInt8 = packet (i + 1) := by
  refine UInt8.toBitVec_inj.mp (BitVec.eq_of_getLsbD_eq fun k below => ?_)
  simp only [load16,UInt16.toBitVec_toUInt8,UInt16.toBitVec_or,UInt16.toBitVec_shiftLeft,UInt16.toBitVec_shiftRight,
    UInt8.toBitVec_toUInt16]
  interval_cases k <;> simp

theorem load16_bytes {packet : Memory} {i : Nat} {x : UInt16} (first : packet i = x.toUInt8)
    (last : packet (i + 1) = (x >>> 8).toUInt8) : load16 packet i = x := by
  refine UInt16.toBitVec_inj.mp (BitVec.eq_of_getLsbD_eq fun k below => ?_)
  simp only [load16,first,last,UInt16.toBitVec_or,UInt16.toBitVec_shiftLeft,UInt8.toBitVec_toUInt16,
    UInt16.toBitVec_toUInt8,UInt16.toBitVec_shiftRight]
  interval_cases k <;> simp

theorem load32_last (packet : Memory) (i : Nat) : (load32 packet i >>> 24).toUInt8 = packet (i + 3) := by
  rw [← load16_last packet (i + 2)]
  refine UInt8.toBitVec_inj.mp (BitVec.eq_of_getLsbD_eq fun k below => ?_)
  simp only [load32,UInt32.toBitVec_toUInt8,UInt32.toBitVec_or,UInt32.toBitVec_shiftLeft,UInt32.toBitVec_shiftRight,
    UInt16.toBitVec_toUInt32,UInt16.toBitVec_toUInt8,UInt16.toBitVec_shiftRight]
  interval_cases k <;> simp

/-! ### The headers of a packet -/

namespace NetmapReceiver

def ETHERTYPE_IP : UInt16 := 0x0800

/-- `IPPROTO_TCP`, `IPPROTO_UDP` and `IPPROTO_ICMP`. -/
def ipproto : Proto → UInt8
  | .TCP => 6
  | .UDP => 17
  | .ICMP => 1

/-- `sizeof(struct ether_header)`. -/
def sizeof_ether_header : Nat := 14

def ether_type (packet : Memory) : UInt16 := load16 packet 12
def ip_hl (packet : Memory) : UInt8 := packet sizeof_ether_header &&& 0x0F
def ip_p (packet : Memory) : UInt8 := packet (sizeof_ether_header + 9)
def ip_src (packet : Memory) : UInt32 := load32 packet (sizeof_ether_header + 12)
def ip_dst (packet : Memory) : UInt32 := load32 packet (sizeof_ether_header + 16)
def size_ip (packet : Memory) : Nat := (ip_hl packet).toNat * 4

/-- The header of the protocol that begins at the offset; bit-fields from the lowest bit. -/
def l4header (packet : Memory) (i : Nat) : (p : Proto) → Header p
  | .TCP =>
    { source := load16 packet i
      dest := load16 packet (i + 2)
      seq := load32 packet (i + 4)
      ack_seq := load32 packet (i + 8)
      doff := (packet (i + 12)).toBitVec.extractLsb' 4 4
      fin := (packet (i + 13)).toBitVec.getLsbD 0
      syn := (packet (i + 13)).toBitVec.getLsbD 1
      rst := (packet (i + 13)).toBitVec.getLsbD 2
      psh := (packet (i + 13)).toBitVec.getLsbD 3
      ack := (packet (i + 13)).toBitVec.getLsbD 4
      urg := (packet (i + 13)).toBitVec.getLsbD 5
      window := load16 packet (i + 14) }
  | .UDP => { source := load16 packet i, dest := load16 packet (i + 2), len := load16 packet (i + 4) }
  | .ICMP => { type := packet i, code := packet (i + 1) }

/-- What `check_list` of a protocol is called with. -/
def read_packet (packet : Memory) (len : UInt32) (p : Proto) : Packet (Header p) where
  l4header := l4header packet (sizeof_ether_header + size_ip packet) p
  s_addr := ntohl (ip_src packet)
  d_addr := ntohl (ip_dst packet)
  len := len

/-- One of the three branches of `check_packet`. -/
def check_proto (packet : Memory) (collect : RulesCollection) (len : UInt32) (p : Proto) : RulesCollection × Bool :=
  (collect.set_list p ((collect.list p).check_list (read_packet packet len p)).1,
    ((collect.list p).check_list (read_packet packet len p)).2)

def check_packet (packet : Memory) (collect : RulesCollection) (len : UInt32) : RulesCollection × Bool :=
  if ether_type packet ≠ htons ETHERTYPE_IP then (collect,false)
  else if ip_p packet = ipproto .TCP then check_proto packet collect len .TCP
  else if ip_p packet = ipproto .UDP then check_proto packet collect len .UDP
  else if ip_p packet = ipproto .ICMP then check_proto packet collect len .ICMP
  else (collect,false)

/-- The protocol that the bytes announce, if it is one of the three over IPv4. -/
def announced (packet : Memory) : Option Proto :=
  if packet 12 = 8 ∧ packet 13 = 0 then [Proto.TCP,.UDP,.ICMP].find? fun p => packet 23 = ipproto p else none

theorem ether_type_iff (packet : Memory) : ether_type packet = htons ETHERTYPE_IP ↔ packet 12 = 8 ∧ packet 13 = 0 := by
  constructor
  · intro same
    have first := load16_first packet 12
    have last := load16_last packet 12
    change load16 packet 12 = htons ETHERTYPE_IP at same
    rw [same] at first last
    exact ⟨first.symm,last.symm⟩
  · rintro ⟨first,last⟩
    simp only [ether_type,load16,first,last]
    rfl

theorem check_packet_eq (packet : Memory) (collect : RulesCollection) (len : UInt32) :
    check_packet packet collect len =
      ((announced packet).map (check_proto packet collect len)).getD (collect,false) := by
  by_cases ip : ether_type packet = htons ETHERTYPE_IP
  · have bytes := (ether_type_iff packet).mp ip
    have protocol : ip_p packet = packet 23 := rfl
    rw [check_packet,if_neg (not_not.mpr ip),announced,if_pos bytes,protocol]
    simp only [List.find?_cons,List.find?_nil]
    by_cases tcp : packet 23 = ipproto .TCP
    · simp [tcp]
    · by_cases udp : packet 23 = ipproto .UDP
      · have other : ipproto .UDP ≠ ipproto .TCP := by decide
        simp [udp,other]
      · by_cases icmp : packet 23 = ipproto .ICMP
        · have other : ipproto .ICMP ≠ ipproto .TCP ∧ ipproto .ICMP ≠ ipproto .UDP := by decide
          simp [icmp,other]
        · simp [tcp,udp,icmp]
  · have bytes : ¬ (packet 12 = 8 ∧ packet 13 = 0) := (ether_type_iff packet).not.mp ip
    rw [check_packet,if_pos ip,announced,if_neg bytes]
    rfl

/-- The packets that the receivers of a run check are those of their rings; the others
    change nothing. -/
theorem packet_step {platform : Platform} {s : Daemon} {i : Nat} {collect : RulesCollection}
    (running : s.pc ≠ .terminated) (thread : s.threads[i]? = some collect) {packet : Memory} {p : Proto}
    (seen : announced packet = some p) (len : UInt32) :
    Daemon.step platform (.packet i p (read_packet packet len p)) s =
      some { s with threads := s.threads.set i (check_packet packet collect len).1 } := by
  rw [check_packet_eq,seen,Option.map_some,Option.getD_some]
  simp only [Daemon.step,running,thread,Option.map_some,check_proto,↓reduceIte]

theorem check_packet_unseen {packet : Memory} (unseen : announced packet = none) (collect : RulesCollection) (len : UInt32) :
    check_packet packet collect len = (collect,false) := by
  rw [check_packet_eq,unseen,Option.map_none,Option.getD_none]

/-- The bytes of the header that the rules of a protocol read, from its start. -/
def header_size : Proto → Nat
  | .TCP => 16
  | .UDP => 6
  | .ICMP => 2

/-- The packet does not end before a byte that the function goes by: the Ethernet type
    and the protocol, as far as they are looked at, and for a protocol with rules the
    addresses and the header. -/
def Covered (len : Nat) (packet : Memory) : Prop :=
  12 < len ∧ (packet 12 = 8 → 13 < len ∧ (packet 13 = 0 → 23 < len)) ∧
    ∀ p, announced packet = some p → 34 ≤ len ∧ 14 + size_ip packet + header_size p ≤ len

theorem announced_covered {len : Nat} {packet packet' : Memory} (covered : Covered len packet)
    (agree : ∀ i < len, packet' i = packet i) : announced packet' = announced packet := by
  obtain ⟨type,rest,_⟩ := covered
  have first := agree 12 type
  by_cases ip : packet 12 = 8
  · obtain ⟨more,rest⟩ := rest ip
    have last := agree 13 more
    by_cases v4 : packet 13 = 0
    · have protocol := agree 23 (rest v4)
      simp only [announced,first,last,protocol]
    · simp [announced,first,last,v4]
  · simp [announced,first,ip]

theorem read_packet_covered {len : UInt32} {packet packet' : Memory} {p : Proto} (addresses : 34 ≤ len.toNat)
    (header : 14 + size_ip packet + header_size p ≤ len.toNat) (agree : ∀ i < len.toNat, packet' i = packet i) :
    read_packet packet' len p = read_packet packet len p := by
  have size : size_ip packet' = size_ip packet := by
    simp only [size_ip,ip_hl,sizeof_ether_header,agree 14 (by omega)]
  have same32 (i : Nat) (inside : i + 3 < len.toNat) : load32 packet' i = load32 packet i := by
    simp only [load32,load16,agree i (by omega),agree (i + 1) (by omega),agree (i + 2) (by omega),agree (i + 2 + 1) (by omega)]
  have same16 (i : Nat) (inside : i + 1 < len.toNat) : load16 packet' i = load16 packet i := by
    simp only [load16,agree i (by omega),agree (i + 1) (by omega)]
  have source : ip_src packet' = ip_src packet := same32 _ (by simp only [sizeof_ether_header]; omega)
  have destination : ip_dst packet' = ip_dst packet := same32 _ (by simp only [sizeof_ether_header]; omega)
  have same_header : l4header packet' (sizeof_ether_header + size_ip packet) p =
      l4header packet (sizeof_ether_header + size_ip packet) p := by
    simp only [sizeof_ether_header]
    generalize 14 + size_ip packet = i at header
    cases p with
    | TCP =>
      have inside : i + 16 ≤ len.toNat := header
      simp only [l4header,same16 i (by omega),same16 (i + 2) (by omega),same32 (i + 4) (by omega),
        same32 (i + 8) (by omega),agree (i + 12) (by omega),agree (i + 13) (by omega),same16 (i + 14) (by omega)]
    | UDP =>
      have inside : i + 6 ≤ len.toNat := header
      simp only [l4header,same16 i (by omega),same16 (i + 2) (by omega),same16 (i + 4) (by omega)]
    | ICMP =>
      have inside : i + 2 ≤ len.toNat := header
      simp only [l4header,agree i (by omega),agree (i + 1) (by omega)]
  simp only [read_packet,size,source,destination,same_header]

/-- Behind a covered packet nothing is looked at. -/
theorem check_packet_covered {len : UInt32} {packet packet' : Memory} (covered : Covered len.toNat packet)
    (agree : ∀ i < len.toNat, packet' i = packet i) (collect : RulesCollection) :
    check_packet packet' collect len = check_packet packet collect len := by
  rw [check_packet_eq,check_packet_eq,announced_covered covered agree]
  cases seen : announced packet with
  | none => rw [Option.map_none,Option.map_none]
  | some p =>
    obtain ⟨addresses,header⟩ := covered.2.2 p seen
    rw [Option.map_some,Option.map_some,check_proto,check_proto,read_packet_covered addresses header agree]

/-! ### What a packet that is not covered lets through -/

/-- A collection with one rule. -/
def single (p : Proto) (r : Rule (Fields p)) : RulesCollection :=
  RulesCollection.set_list ⟨⟨[],documented_options,0⟩,⟨[],documented_options,0⟩,⟨[],documented_options,0⟩,0⟩ p
    ⟨[r],documented_options,0⟩

theorem verdict_single {packet : Memory} {p : Proto} (seen : announced packet = some p) {r : Rule (Fields p)}
    (last : r.next_rule = false) (len : UInt32) : (check_packet packet (single p r) len).2 = true ↔
      RulesList.matches_packet r (read_packet packet len p) = true := by
  rw [check_packet_eq,seen]
  show (((single p r).list p).check_list (read_packet packet len p)).2 = true ↔ _
  rw [RulesList.verdict_check_list,single,RulesCollection.list_set_list]
  simp [RulesList.TerminalMatch,last]

/-- The function does not look behind the packet. -/
def Contained (packet : Memory) (len : UInt32) : Prop :=
  ∀ (collect : RulesCollection) (packet' : Memory), (∀ i < len.toNat, packet' i = packet i) →
    check_packet packet' collect len = check_packet packet collect len

/-- The packet with other bytes behind it. -/
def with_rest (packet : Memory) (len : Nat) (rest : Memory) : Memory := fun i => if i < len then packet i else rest i

theorem with_rest_agrees (packet : Memory) (len : Nat) (rest : Memory) :
    ∀ i < len, with_rest packet len rest i = packet i := fun i inside => by simp [with_rest,inside]

/-- The function looks at the type and the protocol of a contained packet within it:
    other bytes behind the packet would make it TCP, or none of the three protocols. -/
theorem type_covered {packet : Memory} {len : UInt32} (contained : Contained packet len) :
    12 < len.toNat ∧ (packet 12 = 8 → 13 < len.toNat ∧ (packet 13 = 0 → 23 < len.toNat)) := by
  by_contra short
  have tcp : announced (with_rest packet len.toNat fun i => if i = 12 then 8 else if i = 13 then 0 else 6) = some .TCP := by
    by_cases type : 12 < len.toNat
    · have first : packet 12 = 8 := by
        by_contra other
        exact short ⟨type,fun same => absurd same other⟩
      by_cases more : 13 < len.toNat
      · have last : packet 13 = 0 := by
          by_contra other
          exact short ⟨type,fun _ => ⟨more,fun same => absurd same other⟩⟩
        have free : ¬ 23 < len.toNat := fun inside => short ⟨type,fun _ => ⟨more,fun _ => inside⟩⟩
        simp [announced,with_rest,type,more,free,first,last,ipproto]
      · have free : ¬ 23 < len.toNat := by omega
        simp [announced,with_rest,type,more,free,first,ipproto]
    · have free : ¬ 13 < len.toNat ∧ ¬ 23 < len.toNat := by omega
      simp [announced,with_rest,type,free,ipproto]
  have other : announced (with_rest packet len.toNat fun _ => 2) = none := by
    by_cases type : 12 < len.toNat
    · by_cases more : 13 < len.toNat
      · have free : ¬ 23 < len.toNat := by
          intro inside
          exact short ⟨type,fun _ => ⟨more,fun _ => inside⟩⟩
        have protocol : ∀ p, (2 : UInt8) ≠ ipproto p := by
          intro p
          cases p <;> decide
        simp [announced,with_rest,free,protocol]
      · simp [announced,with_rest,more]
    · simp [announced,with_rest,type]
  have reported : (check_packet packet (single .TCP { l4 := {} }) len).2 = true := by
    rw [← contained _ _ (with_rest_agrees packet len.toNat _)]
    exact (verdict_single tcp rfl len).mpr rfl
  have passed : (check_packet packet (single .TCP { l4 := {} }) len).2 = false := by
    rw [← contained _ _ (with_rest_agrees packet len.toNat _)]
    rw [check_packet_unseen other]
  exact absurd (reported.symm.trans passed) (by decide)

/-- A rule for one destination. -/
def to_address (p : Proto) (address : UInt32) : Rule (Fields p) :=
  { (ProtoRule.new [] : Rule (Fields p)) with ip_dst := ⟨address,address,true⟩ }

theorem matches_to_address {p : Proto} {address : UInt32} (nonzero : address ≠ 0) (packet : Packet (Header p)) :
    RulesList.matches_packet (to_address p address) packet = true ↔ packet.d_addr = address := by
  have selected : (⟨address,address,true⟩ : NumRange UInt32).in_this packet.d_addr = true ↔ packet.d_addr = address := by
    simp only [NumRange.in_this,Bool.not_true,Bool.false_eq_true,↓reduceIte]
    constructor
    · intro inside
      split_ifs at inside with between
      exact UInt32.le_antisymm between.2.2 between.2.1
    · rintro rfl
      simp [nonzero]
  rw [← selected]
  cases p with
  | TCP => simp [RulesList.matches_packet,ProtoRule.check_packet,TcpRule.check_packet,to_address,ProtoRule.new,TcpRule.new,
      NumRange.in_this,NumRange.empty,NumComparable.in_this,NumComparable.empty]
  | UDP => simp [RulesList.matches_packet,ProtoRule.check_packet,UdpRule.check_packet,to_address,ProtoRule.new,UdpRule.new,
      NumRange.in_this,NumRange.empty,NumComparable.in_this,NumComparable.empty]
  | ICMP => simp [RulesList.matches_packet,ProtoRule.check_packet,IcmpRule.check_packet,to_address,ProtoRule.new,IcmpRule.new,
      NumRange.in_this,NumRange.empty,NumComparable.in_this,NumComparable.empty]

theorem changed_byte (b : UInt8) : b + 1 ≠ b := by
  intro same
  have number := congrArg UInt8.toNat same
  rw [UInt8.toNat_add] at number
  have small := b.toNat_lt
  change (b.toNat + 1) % 256 = b.toNat at number
  omega

/-- The packet with another byte at a position behind it. -/
def changed (packet : Memory) (q : Nat) : Memory := Function.update packet q (packet q + 1)

theorem changed_agrees {packet : Memory} {len q : Nat} (behind : len ≤ q) : ∀ i < len, changed packet q i = packet i := by
  intro i inside
  exact Function.update_of_ne (by omega) _ _

theorem changed_at (packet : Memory) (q : Nat) : changed packet q q ≠ packet q := by
  rw [changed,Function.update_self]
  exact changed_byte _

theorem announced_changed (packet : Memory) {q : Nat} (behind : 24 ≤ q) : announced (changed packet q) = announced packet := by
  have agree : ∀ i < 24, changed packet q i = packet i := changed_agrees behind
  simp only [announced,agree 12 (by omega),agree 13 (by omega),agree 23 (by omega)]

/-- The addresses of a contained packet are within it: the last byte of the destination
    tells packets apart. -/
theorem addresses_covered {packet : Memory} {len : UInt32} (contained : Contained packet len) {p : Proto}
    (seen : announced packet = some p) : 34 ≤ len.toNat := by
  by_contra short
  have behind : len.toNat ≤ 33 := by omega
  have seen' : announced (changed packet 33) = some p := (announced_changed packet (by omega)).trans seen
  have apart : ntohl (ip_dst (changed packet 33)) ≠ ntohl (ip_dst packet) := by
    intro same
    have loads : load32 (changed packet 33) 30 = load32 packet 30 := by
      have twice := congrArg ntohl same
      rwa [ntohl_ntohl,ntohl_ntohl] at twice
    have last := load32_last (changed packet 33) 30
    rw [loads,load32_last] at last
    exact changed_at packet 33 last.symm
  have verdicts (address : UInt32) (nonzero : address ≠ 0) :
      ntohl (ip_dst (changed packet 33)) = address ↔ ntohl (ip_dst packet) = address := by
    have same := congrArg Prod.snd (contained (single p (to_address p address)) _ (changed_agrees behind))
    have no_next : (to_address p address).next_rule = false := by cases p <;> rfl
    rw [Bool.eq_iff_iff,verdict_single seen' no_next,verdict_single seen no_next,matches_to_address nonzero,
      matches_to_address nonzero] at same
    exact same
  by_cases zero : ntohl (ip_dst packet) = 0
  · have nonzero : ntohl (ip_dst (changed packet 33)) ≠ 0 := fun none => apart (none.trans zero.symm)
    exact apart ((verdicts _ nonzero).mp rfl).symm
  · exact apart ((verdicts _ zero).mpr rfl)

/-- A rule for the last field of a header that is compared as it is. -/
def same_last : (p : Proto) → Header p → Rule (Fields p)
  | .TCP, h => { l4 := { win := ⟨ntohs h.window,true,0⟩ } }
  | .UDP, h => { l4 := { len := ⟨h.len,true,0⟩ } }
  | .ICMP, h => { l4 := { code := ⟨h.code,true,0⟩ } }

theorem matches_same_last {p : Proto} (h : Header p) (packet : Packet (Header p)) :
    RulesList.matches_packet (same_last p h) packet = true ↔
      match p, h, packet.l4header with
      | .TCP, h, h' => ntohs h'.window = ntohs h.window
      | .UDP, h, h' => h'.len = h.len
      | .ICMP, h, h' => h'.code = h.code := by
  cases p with
  | TCP => simp [RulesList.matches_packet,ProtoRule.check_packet,TcpRule.check_packet,same_last,NumRange.in_this,
      NumRange.empty,NumComparable.in_this,NumComparable.empty]
  | UDP => simp [RulesList.matches_packet,ProtoRule.check_packet,UdpRule.check_packet,same_last,NumRange.in_this,
      NumRange.empty,NumComparable.in_this]
  | ICMP => simp [RulesList.matches_packet,ProtoRule.check_packet,IcmpRule.check_packet,same_last,NumRange.in_this,
      NumRange.empty,NumComparable.in_this,NumComparable.empty]

/-- It tells headers with different last bytes apart. -/
theorem last_byte {p : Proto} {packet packet' : Memory} {i : Nat} {read : Packet (Header p)}
    (header : read.l4header = l4header packet' i p)
    (matched : RulesList.matches_packet (same_last p (l4header packet i p)) read = true) :
    packet' (i + header_size p - 1) = packet (i + header_size p - 1) := by
  rw [matches_same_last,header] at matched
  cases p with
  | TCP =>
    have fields : load16 packet' (i + 14) = load16 packet (i + 14) := by
      have twice := congrArg ntohs matched
      rwa [ntohs_ntohs,ntohs_ntohs] at twice
    have last := load16_last packet' (i + 14)
    rw [fields,load16_last] at last
    exact last.symm
  | UDP =>
    have fields : load16 packet' (i + 4) = load16 packet (i + 4) := matched
    have last := load16_last packet' (i + 4)
    rw [fields,load16_last] at last
    exact last.symm
  | ICMP => exact matched

/-- The header of a contained packet is within it, as far as the rules look at it. -/
theorem header_covered {packet : Memory} {len : UInt32} (contained : Contained packet len) {p : Proto}
    (seen : announced packet = some p) : 14 + size_ip packet + header_size p ≤ len.toNat := by
  have addresses := addresses_covered contained seen
  by_contra short
  have some_bytes : 2 ≤ header_size p := by cases p <;> decide
  have behind : len.toNat ≤ 14 + size_ip packet + header_size p - 1 := by omega
  generalize at_last : 14 + size_ip packet + header_size p - 1 = q at behind
  have seen' : announced (changed packet q) = some p := (announced_changed packet (by omega)).trans seen
  have size : size_ip (changed packet q) = size_ip packet := by
    simp only [size_ip,ip_hl,sizeof_ether_header,changed_agrees (le_refl q) 14 (by omega)]
  have no_next : (same_last p (l4header packet (14 + size_ip packet) p)).next_rule = false := by cases p <;> rfl
  have same := congrArg Prod.snd (contained (single p (same_last p (l4header packet (14 + size_ip packet) p))) _
    (changed_agrees behind))
  rw [Bool.eq_iff_iff,verdict_single seen' no_next,verdict_single seen no_next] at same
  have itself : RulesList.matches_packet (same_last p (l4header packet (14 + size_ip packet) p))
      (read_packet packet len p) = true := by
    rw [matches_same_last]
    cases p <;> rfl
  have header : (read_packet (changed packet q) len p).l4header = l4header (changed packet q) (14 + size_ip packet) p := by
    rw [← size]
    rfl
  have last := last_byte header (same.mpr itself)
  rw [at_last] at last
  exact changed_at packet q last

/-- For every collection and all memory behind it, what is done with a packet depends
    on its own bytes only exactly if it is covered. -/
theorem contained_iff (packet : Memory) (len : UInt32) : Contained packet len ↔ Covered len.toNat packet := by
  constructor
  · intro contained
    obtain ⟨type,protocol⟩ := type_covered contained
    exact ⟨type,protocol,fun p seen => ⟨addresses_covered contained seen,header_covered contained seen⟩⟩
  · intro covered collect packet' agree
    exact check_packet_covered covered agree collect

/-- A frame of 60 bytes whose IP header claims to take all of them and more; the TCP
    ports would stand at 74. -/
def long_header : Memory := fun i => if i = 12 then 8 else if i = 14 then 0x4F else if i = 23 then 6 else 0

/-- The frame is reported to the port that an earlier packet has left behind it. -/
theorem left_over_port_reported : ¬ ∀ (collect : RulesCollection) (len : UInt32) (packet packet' : Memory),
    (∀ i < len.toNat, packet' i = packet i) → check_packet packet' collect len = check_packet packet collect len := by
  intro contained
  have agree : ∀ i < (60 : UInt32).toNat, Function.update long_header 77 80 i = long_header i := by
    intro i inside
    have before : i < 60 := inside
    exact Function.update_of_ne (by omega) _ _
  have same := contained (single .TCP { l4 := { dst_port := ⟨80,80,true⟩ } }) 60 long_header _ agree
  have verdicts := congrArg Prod.snd same
  exact absurd verdicts (by decide +kernel)

end NetmapReceiver
end DdosDetector
