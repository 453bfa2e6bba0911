import DdosDetector.Counters

/-!
What a list of rules makes of whole traffic. A rule takes a packet that it matches if
no earlier rule that matches it ends the list; it counts just the packets that it
takes, and the list reports a packet exactly if some rule that matches it is terminal.
-/
namespace DdosDetector

namespace RulesList
variable {Fields Header : Type} [ProtoRule Fields Header]

/-- The rule at a position matches the packet, and every earlier rule that matches it
    passes it on. -/
def Takes (rules : List (Rule Fields)) (k : Nat) (packet : Packet Header) : Prop :=
  ∃ r, rules[k]? = some r ∧ matches_packet r packet = true ∧
    ∀ j < k, ∀ earlier, rules[j]? = some earlier → matches_packet earlier packet = true → earlier.next_rule = true

theorem counts_packet_iff (packet : Packet Header) (rules : List (Rule Fields)) (k : Nat) :
    counts_packet packet rules k = true ↔ Takes rules k packet := by
  induction rules generalizing k with
  | nil => simp [counts_packet,Takes]
  | cons r rest ih =>
    cases k with
    | zero => simp [counts_packet,Takes]
    | succ k =>
      rw [counts_packet,Bool.and_eq_true,ih k]
      constructor
      · rintro ⟨passes,taker,found,here,before⟩
        refine ⟨taker,by simpa using found,here,?_⟩
        intro j below earlier at_j matched
        cases j with
        | zero =>
          obtain rfl : r = earlier := by simpa using at_j
          simpa [matched] using passes
        | succ j => exact before j (by omega) earlier (by simpa using at_j) matched
      · rintro ⟨taker,found,here,before⟩
        refine ⟨?_,taker,by simpa using found,here,fun j below earlier at_j =>
          before (j+1) (by omega) earlier (by simpa using at_j)⟩
        cases matched : matches_packet r packet with
        | false => rfl
        | true => simp [before 0 (by omega) r rfl matched]

instance (rules : List (Rule Fields)) (k : Nat) (packet : Packet Header) : Decidable (Takes rules k packet) :=
  decidable_of_iff _ (counts_packet_iff packet rules k)

/-- Some rule that matches the packet ends the list. -/
def TerminalMatch (rules : List (Rule Fields)) (packet : Packet Header) : Prop :=
  ∃ r ∈ rules, matches_packet r packet = true ∧ r.next_rule = false

instance (rules : List (Rule Fields)) (packet : Packet Header) : Decidable (TerminalMatch rules packet) :=
  inferInstanceAs (Decidable (∃ r ∈ rules, _))

/-- The list and its verdicts after the packets in turn. -/
def check_lists (l : RulesList Fields) : List (Packet Header) → RulesList Fields × List Bool
  | [] => (l,[])
  | packet :: packets =>
    let (l',verdict) := l.check_list packet
    let (l'',verdicts) := check_lists l' packets
    (l'',verdict :: verdicts)

theorem verdict_check_list (l : RulesList Fields) (packet : Packet Header) :
    (l.check_list packet).2 = true ↔ TerminalMatch l.rules_ packet := by
  unfold check_list TerminalMatch
  induction l.rules_ with
  | nil => simp [check_rules]
  | cons r rest ih =>
    simp only [check_rules,List.mem_cons,exists_eq_or_imp]
    by_cases matched : matches_packet r packet = true
    · rw [if_pos (show ProtoRule.check_packet r packet.l4header packet.s_addr packet.d_addr = true from matched)]
      cases next : r.next_rule with
      | false => simp [matched]
      | true => simpa [matched] using ih
    · rw [if_neg (show ¬ ProtoRule.check_packet r packet.l4header packet.s_addr packet.d_addr = true from matched)]
      simpa [matched] using ih

theorem terminal_congr {l m : RulesList Fields} (same : l.entered = m.entered) (packet : Packet Header) :
    TerminalMatch l.rules_ packet ↔ TerminalMatch m.rules_ packet := by
  have one_way : ∀ {l m : RulesList Fields}, l.entered = m.entered → TerminalMatch l.rules_ packet →
      TerminalMatch m.rules_ packet := by
    rintro l m same ⟨r,member,matched,last⟩
    have inside : r.entered ∈ m.entered := same ▸ List.mem_map_of_mem member
    obtain ⟨r',member',equal⟩ := List.mem_map.mp inside
    refine ⟨r',member',?_,?_⟩
    · rw [← matches_entered,equal,matches_entered]
      exact matched
    · exact (congrArg (fun r : Rule Fields => r.next_rule) equal).trans last
  exact ⟨one_way same,one_way same.symm⟩

theorem entered_check_lists (l : RulesList Fields) (packets : List (Packet Header)) :
    (l.check_lists packets).1.entered = l.entered := by
  induction packets generalizing l with
  | nil => rfl
  | cons packet packets ih => exact (ih _).trans (entered_check_list l packet)

/-- A rule counts the packets that it takes, in turn. -/
theorem rules_check_lists (l : RulesList Fields) (packets : List (Packet Header)) (k : Nat) :
    (l.check_lists packets).1.rules_[k]? = l.rules_[k]?.map fun r =>
      (packets.filter fun p => Takes l.rules_ k p).foldl (fun r p => count r p.d_addr p.len) r := by
  induction packets generalizing l with
  | nil => simp [check_lists]
  | cons packet packets ih =>
    have later : ∀ p : Packet Header, Takes (l.check_list packet).1.rules_ k p ↔ Takes l.rules_ k p := by
      intro p
      rw [← counts_packet_iff,← counts_packet_iff,counts_packet_entered (entered_check_list l packet)]
    rw [check_lists,ih,rules_check_list]
    simp only [later]
    cases l.rules_[k]? with
    | none => rfl
    | some r =>
      by_cases taken : Takes l.rules_ k packet
      · simp [(counts_packet_iff packet l.rules_ k).mpr taken,taken]
      · simp [mt (counts_packet_iff packet l.rules_ k).mp taken,taken]

theorem verdicts_check_lists (l : RulesList Fields) (packets : List (Packet Header)) :
    (l.check_lists packets).2 = packets.map fun p => decide (TerminalMatch l.rules_ p) := by
  induction packets generalizing l with
  | nil => rfl
  | cons packet packets ih =>
    have head : (l.check_list packet).2 = decide (TerminalMatch l.rules_ packet) := by
      rw [Bool.eq_iff_iff,verdict_check_list,decide_eq_true_eq]
    have tail := ih (l.check_list packet).1
    simp only [terminal_congr (entered_check_list l packet)] at tail
    rw [List.map_cons,← head,← tail]
    rfl

/-- The rule afterwards has counted the packets, and nothing else in it has changed. -/
structure Counted (r r' : Rule Fields) (taken : List (Packet Header)) : Prop where
  frame : r' = { r with
    count_packets := r'.count_packets, count_bytes := r'.count_bytes, dst_top := r'.dst_top }
  packets : r'.count_packets = r.count_packets + UInt64.ofNat taken.length
  bytes : r'.count_bytes = r.count_bytes + UInt64.ofNat (taken.map fun p => p.len.toNat).sum
  destinations : ∀ d, r'.dst_top.map_.getD d 0 =
      r.dst_top.map_.getD d 0 + UInt32.ofNat ((taken.map fun p => p.d_addr).count d) ∧
    (d ∈ r'.dst_top.map_ ↔ d ∈ r.dst_top.map_ ∨ ∃ p ∈ taken, p.d_addr = d)

omit [ProtoRule Fields Header] in
theorem foldl_count (packets : List (Packet Header)) (r : Rule Fields) :
    packets.foldl (fun r p => count r p.d_addr p.len) r = { r with
      count_packets := r.count_packets + UInt64.ofNat packets.length
      count_bytes := r.count_bytes + UInt64.ofNat (packets.map fun p => p.len.toNat).sum
      dst_top := ⟨(packets.map fun p => p.d_addr).foldl Tally.increase r.dst_top.map_⟩ } := by
  induction packets generalizing r with
  | nil => simp
  | cons packet packets ih =>
    rw [List.foldl_cons,ih]
    have number : r.count_packets + 1 + UInt64.ofNat packets.length = r.count_packets + UInt64.ofNat (packets.length + 1) := by
      rw [UInt64.ofNat_add,UInt64.add_assoc,UInt64.add_comm 1]
      rfl
    have size : r.count_bytes + packet.len.toUInt64 + UInt64.ofNat (packets.map fun p => p.len.toNat).sum =
        r.count_bytes + UInt64.ofNat (packet.len.toNat + (packets.map fun p => p.len.toNat).sum) := by
      rw [UInt64.ofNat_add,UInt64.add_assoc]
      simp
    simp only [count,List.length_cons,List.map_cons,List.sum_cons,List.foldl_cons,number,size]
    rfl

omit [ProtoRule Fields Header] in
theorem counted_foldl (packets : List (Packet Header)) (r : Rule Fields) :
    Counted r (packets.foldl (fun r p => count r p.d_addr p.len) r) packets := by
  rw [foldl_count]
  refine ⟨rfl,rfl,rfl,?_⟩
  intro d
  obtain ⟨number,present⟩ := Tally.foldl_increase r.dst_top.map_ (packets.map fun p => p.d_addr) d
  exact ⟨number,present.trans (by simp)⟩

/-- Processing any traffic, each rule counts exactly the packets that it takes, nothing
    else changes, and a packet is reported exactly if it has a terminal match. -/
theorem first_terminal_match (l : RulesList Fields) (packets : List (Packet Header)) :
    (l.check_lists packets).1 = { l with rules_ := (l.check_lists packets).1.rules_ } ∧
      (l.check_lists packets).1.rules_.length = l.rules_.length ∧
      (∀ k r, l.rules_[k]? = some r → ∃ r', (l.check_lists packets).1.rules_[k]? = some r' ∧
        Counted r r' (packets.filter fun p => Takes l.rules_ k p)) ∧
      (l.check_lists packets).2 = packets.map fun p => decide (TerminalMatch l.rules_ p) := by
  refine ⟨?_,entered_length (entered_check_lists l packets),fun k r found => ?_,verdicts_check_lists l packets⟩
  · induction packets generalizing l with
    | nil => rfl
    | cons packet packets ih => exact ih (l.check_list packet).1
  · rw [rules_check_lists,found]
    exact ⟨_,rfl,counted_foldl _ r⟩

end RulesList
end DdosDetector
