import DdosDetector.Flags
import DdosDetector.Receiver

/-!
`TcpRule::check_packet` as FreeBSD compiles it. The header is read from the same bytes;
its flags come as one byte, in the order opposite to that of the rules.
-/
namespace DdosDetector
open NetmapReceiver (l4header)

/-- `struct tcphdr` of FreeBSD, with multi-byte fields as loaded on a little-endian host. -/
structure bsd_tcphdr where
  th_sport : UInt16
  th_dport : UInt16
  th_seq : UInt32
  th_ack : UInt32
  th_off : BitVec 4
  th_flags : UInt8
  th_win : UInt16
deriving DecidableEq

/-- The header that begins at the offset; bit-fields from the lowest bit. -/
def bsd_header (packet : Memory) (i : Nat) : bsd_tcphdr where
  th_sport := load16 packet i
  th_dport := load16 packet (i + 2)
  th_seq := load32 packet (i + 4)
  th_ack := load32 packet (i + 8)
  th_off := (packet (i + 12)).toBitVec.extractLsb' 4 4
  th_flags := packet (i + 13)
  th_win := load16 packet (i + 14)

namespace TcpRule

/-- `std::bitset<6> h_flags(tcp_hdr->th_flags)`: the lowest six bits. -/
def bsd_flags (h : bsd_tcphdr) : BitVec 6 := h.th_flags.toBitVec.setWidth 6

/-- `check_packet` with the branches of FreeBSD. -/
def bsd_check_packet (r : TcpRule) (tcp_hdr : bsd_tcphdr) (s_addr d_addr : UInt32) : Bool :=
  r.ip_src.in_this s_addr && r.ip_dst.in_this d_addr
    && r.l4.src_port.in_this (ntohs tcp_hdr.th_sport)
    && r.l4.dst_port.in_this (ntohs tcp_hdr.th_dport)
    && r.l4.seq.in_this (ntohl tcp_hdr.th_seq)
    && r.l4.ack_seq.in_this (ntohl tcp_hdr.th_ack)
    && r.l4.win.in_this (ntohs tcp_hdr.th_win)
    && r.l4.len.in_this (UInt16.ofNat (tcp_hdr.th_off.toNat * 4))
    && (!r.l4.flags.enable || r.l4.flags.in_this (bsd_flags tcp_hdr))

end TcpRule

/-- Both platforms give the same verdict on every header between any addresses. -/
def PlatformsAgree (r : TcpRule) : Prop :=
  ∀ (packet : Memory) (i : Nat) (s_addr d_addr : UInt32),
    r.bsd_check_packet (bsd_header packet i) s_addr d_addr = r.check_packet (l4header packet i .TCP) s_addr d_addr

/-- The flags ask the same of U and F, of A and S, and of P and R. -/
def tcp_flags.Mirrored (f : tcp_flags) : Prop := f.bits_.reverse = f.bits_ ∧ f.mask_.reverse = f.mask_

/-- Each criterion but the flags holds of some value that a packet can have. -/
structure Meetable (r : TcpRule) : Prop where
  ip_src : ∃ s_addr, r.ip_src.in_this s_addr = true
  ip_dst : ∃ d_addr, r.ip_dst.in_this d_addr = true
  src_port : ∃ port, r.l4.src_port.in_this port = true
  dst_port : ∃ port, r.l4.dst_port.in_this port = true
  seq : ∃ number, r.l4.seq.in_this number = true
  ack_seq : ∃ number, r.l4.ack_seq.in_this number = true
  win : ∃ size, r.l4.win.in_this size = true
  len : ∃ doff : BitVec 4, r.l4.len.in_this (UInt16.ofNat (doff.toNat * 4)) = true

/-! ### The flags of both headers -/

theorem bsd_flags_eq (packet : Memory) (i : Nat) :
    TcpRule.bsd_flags (bsd_header packet i) = (TcpRule.header_flags (l4header packet i .TCP)).reverse := by
  refine BitVec.eq_of_getLsbD_eq ?_
  intro k inside
  have place : 6 - 1 - k < 6 := by omega
  rw [BitVec.getLsbD_reverse,BitVec.getMsbD_eq_getLsbD,decide_eq_true inside,Bool.true_and,
    getLsbD_header_flags _ _ place,TcpRule.bsd_flags,BitVec.getLsbD_setWidth,decide_eq_true inside,Bool.true_and]
  interval_cases k <;> rfl

theorem check_packet_others (r : TcpRule) (h : tcphdr) (s_addr d_addr : UInt32) :
    r.check_packet h s_addr d_addr =
      ((without_flags r).check_packet h s_addr d_addr &&
        (!r.l4.flags.enable || r.l4.flags.in_this (TcpRule.header_flags h))) := by
  simp [TcpRule.check_packet,without_flags]

theorem bsd_check_packet_others (r : TcpRule) (packet : Memory) (i : Nat) (s_addr d_addr : UInt32) :
    r.bsd_check_packet (bsd_header packet i) s_addr d_addr =
      ((without_flags r).check_packet (l4header packet i .TCP) s_addr d_addr &&
        (!r.l4.flags.enable || r.l4.flags.in_this (TcpRule.header_flags (l4header packet i .TCP)).reverse)) := by
  rw [TcpRule.bsd_check_packet,bsd_flags_eq]
  simp [TcpRule.check_packet,without_flags,bsd_header,l4header]

/-! ### Headers with given fields -/

/-- The bytes of a header, as loaded. -/
def tcp_bytes (h : tcphdr) : Memory
  | 0 => h.source.toUInt8
  | 1 => (h.source >>> 8).toUInt8
  | 2 => h.dest.toUInt8
  | 3 => (h.dest >>> 8).toUInt8
  | 4 => h.seq.toUInt16.toUInt8
  | 5 => (h.seq.toUInt16 >>> 8).toUInt8
  | 6 => (h.seq >>> 16).toUInt16.toUInt8
  | 7 => ((h.seq >>> 16).toUInt16 >>> 8).toUInt8
  | 8 => h.ack_seq.toUInt16.toUInt8
  | 9 => (h.ack_seq.toUInt16 >>> 8).toUInt8
  | 10 => (h.ack_seq >>> 16).toUInt16.toUInt8
  | 11 => ((h.ack_seq >>> 16).toUInt16 >>> 8).toUInt8
  | 12 => ⟨h.doff ++ 0#4⟩
  | 13 => ⟨(TcpRule.header_flags h).reverse.setWidth 8⟩
  | 14 => h.window.toUInt8
  | _ => (h.window >>> 8).toUInt8

theorem load32_halves {packet : Memory} {i : Nat} {x : UInt32} (low : load16 packet i = x.toUInt16)
    (high : load16 packet (i + 2) = (x >>> 16).toUInt16) : load32 packet i = x := by
  rw [load32,low,high]
  refine UInt32.toBitVec_inj.mp (BitVec.eq_of_getLsbD_eq ?_)
  intro k below
  simp only [UInt32.toBitVec_or,UInt32.toBitVec_shiftLeft,UInt16.toBitVec_toUInt32,UInt32.toBitVec_toUInt16,
    UInt32.toBitVec_shiftRight]
  interval_cases k <;> simp

theorem l4header_tcp_bytes (h : tcphdr) : l4header (tcp_bytes h) 0 .TCP = h := by
  have source : load16 (tcp_bytes h) 0 = h.source := load16_bytes rfl rfl
  have dest : load16 (tcp_bytes h) 2 = h.dest := load16_bytes rfl rfl
  have seq : load32 (tcp_bytes h) 4 = h.seq := load32_halves (load16_bytes rfl rfl) (load16_bytes rfl rfl)
  have ack_seq : load32 (tcp_bytes h) 8 = h.ack_seq := load32_halves (load16_bytes rfl rfl) (load16_bytes rfl rfl)
  have window : load16 (tcp_bytes h) 14 = h.window := load16_bytes rfl rfl
  have doff : (tcp_bytes h 12).toBitVec.extractLsb' 4 4 = h.doff := by
    refine BitVec.eq_of_getLsbD_eq ?_
    intro k inside
    have above : (h.doff ++ 0#4).getLsbD (4 + k) = h.doff.getLsbD k := by
      rw [BitVec.getLsbD_append,if_neg (by omega),Nat.add_sub_cancel_left]
    show ((h.doff ++ 0#4).extractLsb' 4 4).getLsbD k = _
    rw [BitVec.getLsbD_extractLsb',decide_eq_true inside,Bool.true_and,above]
  have flag (k : Nat) (inside : k < 6) : (tcp_bytes h 13).toBitVec.getLsbD k =
      header_flag h (accept_tcp_flags.getD (6 - 1 - k) ' ') := by
    show ((TcpRule.header_flags h).reverse.setWidth 8).getLsbD k = _
    rw [BitVec.getLsbD_setWidth,decide_eq_true (by omega : k < 8),Bool.true_and,BitVec.getLsbD_reverse,
      BitVec.getMsbD_eq_getLsbD,decide_eq_true inside,Bool.true_and]
    exact getLsbD_header_flags h _ (by omega)
  simp only [l4header,Nat.zero_add,source,dest,seq,ack_seq,window,doff,flag 0 (by decide),flag 1 (by decide),
    flag 2 (by decide),flag 3 (by decide),flag 4 (by decide),flag 5 (by decide)]
  rfl

/-- The header with these flags. -/
def with_flags (h : tcphdr) (word : BitVec 6) : tcphdr :=
  { h with
    urg := word.getLsbD 0
    ack := word.getLsbD 1
    psh := word.getLsbD 2
    rst := word.getLsbD 3
    syn := word.getLsbD 4
    fin := word.getLsbD 5 }

theorem header_flags_with_flags (h : tcphdr) (word : BitVec 6) : TcpRule.header_flags (with_flags h word) = word := by
  refine BitVec.eq_of_getLsbD_eq ?_
  intro k inside
  rw [getLsbD_header_flags _ _ inside]
  interval_cases k <;> rfl

/-- A header that meets the criteria but the flags. -/
theorem meetable_iff (r : TcpRule) : Meetable r ↔
    ∃ (h : tcphdr) (s_addr d_addr : UInt32), ∀ word, (without_flags r).check_packet (with_flags h word) s_addr d_addr = true := by
  constructor
  · rintro ⟨⟨s_addr,source⟩,⟨d_addr,dest⟩,⟨sport,from_port⟩,⟨dport,to_port⟩,⟨seq,number⟩,⟨ack,acked⟩,⟨win,size⟩,⟨doff,length⟩⟩
    refine ⟨⟨ntohs sport,ntohs dport,ntohl seq,ntohl ack,doff,false,false,false,false,false,false,ntohs win⟩,s_addr,d_addr,?_⟩
    intro word
    simp only [TcpRule.check_packet,without_flags,with_flags,ntohs_ntohs,ntohl_ntohl,source,dest,from_port,to_port,number,
      acked,size,length,Bool.not_false,Bool.true_or,Bool.and_self]
  · rintro ⟨h,s_addr,d_addr,met⟩
    have all := met 0
    simp only [TcpRule.check_packet,without_flags,Bool.and_eq_true] at all
    obtain ⟨⟨⟨⟨⟨⟨⟨⟨source,dest⟩,from_port⟩,to_port⟩,number⟩,acked⟩,size⟩,length⟩,_⟩ := all
    exact ⟨⟨_,source⟩,⟨_,dest⟩,⟨_,from_port⟩,⟨_,to_port⟩,⟨_,number⟩,⟨_,acked⟩,⟨_,size⟩,⟨_,length⟩⟩

theorem mirrored_iff {f : tcp_flags} (contained : f.Contained) :
    f.Mirrored ↔ ∀ word : BitVec 6, f.in_this word.reverse = f.in_this word := by
  simp only [tcp_flags.in_this,decide_eq_decide]
  exact ⟨BitMasks.masked_reverse,BitMasks.mirrored_of_masked contained⟩

/-- For a rule that is read from a text, the platforms agree on every header exactly if
    the rule does not look at the flags, asks for the same flags in both orders, or has
    another criterion that nothing meets. -/
theorem platforms_agree_iff {r : TcpRule} (parsed : Parsed (p := .TCP) r) :
    PlatformsAgree r ↔ r.l4.flags.enable = false ∨ r.l4.flags.Mirrored ∨ ¬ Meetable r := by
  have words := mirrored_iff (parsed_contained parsed)
  constructor
  · intro agree
    by_contra differ
    simp only [not_or,not_not,Bool.not_eq_false] at differ
    obtain ⟨enable,unlike,meetable⟩ := differ
    refine unlike (words.mpr ?_)
    intro word
    obtain ⟨h,s_addr,d_addr,met⟩ := (meetable_iff r).mp meetable
    -- A packet on which only the flags decide.
    have verdicts := agree (tcp_bytes (with_flags h word)) 0 s_addr d_addr
    rw [bsd_check_packet_others,check_packet_others r,l4header_tcp_bytes,met,header_flags_with_flags,enable] at verdicts
    simpa using verdicts
  · intro condition packet i s_addr d_addr
    rw [bsd_check_packet_others,check_packet_others r]
    rcases condition with disable | mirrored | nothing
    · rw [disable]
      rfl
    · rw [words.mp mirrored]
    · have missed : (without_flags r).check_packet (l4header packet i .TCP) s_addr d_addr = false := by
        by_contra met
        rw [Bool.not_eq_false] at met
        exact nothing ((meetable_iff r).mpr ⟨l4header packet i .TCP,s_addr,d_addr,fun _ => met⟩)
      rw [missed,Bool.false_and,Bool.false_and]

/-- A rule for SYN with ACK, which mirror each other. -/
def syn_ack_words : List Text := ["--dstip","10.0.0.1","--pps-th","100p","--tcp-flag","S:1,A:1"]

theorem platforms_agree_syn_ack : ∃ r, TcpRule.parse documented documented_options (TcpRule.new syn_ack_words) = .ok r ∧
    r.l4.flags.enable = true ∧ PlatformsAgree r := by
  have flags : ((TcpRule.parse documented documented_options (TcpRule.new syn_ack_words)).toOption.map fun r =>
      (r.l4.flags.enable,r.l4.flags.bits_,r.l4.flags.mask_)) = some (true,0b010010#6,0b010010#6) := by decide +kernel
  cases accepted : TcpRule.parse documented documented_options (TcpRule.new syn_ack_words) with
  | error e =>
    rw [accepted] at flags
    cases flags
  | ok r =>
    rw [accepted] at flags
    obtain ⟨enable,bits_mask⟩ := Prod.mk.inj (Option.some.inj flags)
    obtain ⟨bits,mask⟩ := Prod.mk.inj bits_mask
    have mirrored : r.l4.flags.Mirrored := by
      rw [tcp_flags.Mirrored,bits,mask]
      decide
    exact ⟨r,rfl,enable,(platforms_agree_iff ⟨documented,documented_options,_,accepted⟩).mpr (.inr (.inl mirrored))⟩

/-- The bytes of a header with SYN alone. -/
def syn_header : Memory := tcp_bytes ⟨1,1,1,1,5,false,true,false,false,false,false,1⟩

/-- A rule for SYN matches the header as Linux compiles it and not as FreeBSD does. -/
theorem syn_missed : ∃ r, TcpRule.parse documented documented_options
      (TcpRule.new ["--dstip","10.0.0.1","--pps-th","100p","--tcp-flag","S:1"]) = .ok r ∧
    r.check_packet (l4header syn_header 0 .TCP) 1 167772161 = true ∧
    r.bsd_check_packet (bsd_header syn_header 0) 1 167772161 = false ∧ ¬ PlatformsAgree r := by
  refine ⟨_,rfl,by decide,by decide,?_⟩
  intro agree
  exact absurd (agree syn_header 0 1 167772161) (by decide)

end DdosDetector
