import DdosDetector.RulesList

/-!
What the operations of a list do to one position of it: to either counter of the
rule there and to its destinations. A position past the end counts as zero.
-/
namespace DdosDetector

/-- The two counters of a rule. -/
inductive Counter
  | packets
  | bytes
deriving DecidableEq, Repr

def Counter.read : Counter → BaseRule → UInt64
  | .packets, r => r.count_packets
  | .bytes, r => r.count_bytes

/-- What one packet of the given length adds to the counter. -/
def Counter.weight : Counter → UInt32 → UInt64
  | .packets, _ => 1
  | .bytes, len => len.toUInt64

namespace RulesList
variable {Fields Header : Type}

def count_at (l : RulesList Fields) (c : Counter) (k : Nat) : UInt64 :=
  (l.rules_[k]?.map fun r => c.read r.toBaseRule).getD 0

theorem count_at_some {l : RulesList Fields} {k : Nat} {r : Rule Fields} (found : l.rules_[k]? = some r)
    (c : Counter) : l.count_at c k = c.read r.toBaseRule := by
  simp [count_at,found]

@[simp] theorem count_at_touch (l : RulesList Fields) (now : time_point) (c : Counter) (k : Nat) :
    (l.touch now).count_at c k = l.count_at c k := rfl
@[simp] theorem count_at_assign (l other : RulesList Fields) (c : Counter) (k : Nat) :
    (l.assign other).count_at c k = other.count_at c k := rfl

theorem rules_merge {l other l' other' : RulesList Fields} (merged : l.merge other = .ok (l',other')) (k : Nat) :
    (l.rules_[k]? = none ∧ other.rules_[k]? = none ∧ l'.rules_[k]? = none ∧ other'.rules_[k]? = none) ∨
      ∃ r r', l.rules_[k]? = some r ∧ other.rules_[k]? = some r' ∧
        l'.rules_[k]? = some (r.add r').1 ∧ other'.rules_[k]? = some (r.add r').2 := by
  obtain ⟨size,rfl,rfl⟩ := merge_spec merged
  by_cases inside : k < l.rules_.length
  · refine .inr ⟨l.rules_[k],other.rules_[k],?_,?_,?_,?_⟩
    · exact List.getElem?_eq_getElem inside
    · exact List.getElem?_eq_getElem (size ▸ inside)
    · simp [inside,size ▸ inside]
    · simp [inside,size ▸ inside]
  · have past : l.rules_.length ≤ k := by omega
    have past' : other.rules_.length ≤ k := by omega
    exact .inl (by simp [past,past'])

/-- A merge adds every counter of the second list to the same position of the
    first and resets it. -/
theorem count_at_merge {l other l' other' : RulesList Fields} (merged : l.merge other = .ok (l',other'))
    (c : Counter) (k : Nat) :
    l'.count_at c k = l.count_at c k + other.count_at c k ∧ other'.count_at c k = 0 := by
  rcases rules_merge merged k with ⟨a,b,a',b'⟩ | ⟨r,r',a,b,a',b'⟩
  · simp [count_at,a,b,a',b']
  · cases c <;> simp [count_at,a,b,a',b',Counter.read,Rule.add]

theorem rules_calc_delta (platform : Platform) (l rules_old : RulesList Fields) (k : Nat) :
    (l.calc_delta platform rules_old).rules_[k]? = l.rules_[k]? ∨
      ∃ r old, l.rules_[k]? = some r ∧ rules_old.rules_[k]? = some old ∧
        (l.calc_delta platform rules_old).rules_[k]? =
          some (rate platform (l.last_update_ - rules_old.last_update_) r old) := by
  unfold calc_delta
  split_ifs with size
  · by_cases inside : k < l.rules_.length
    · refine .inr ⟨l.rules_[k],rules_old.rules_[k],?_,?_,?_⟩
      · exact List.getElem?_eq_getElem inside
      · exact List.getElem?_eq_getElem (size ▸ inside)
      · simp [inside,size ▸ inside]
    · have past : l.rules_.length ≤ k := by omega
      have past' : rules_old.rules_.length ≤ k := by omega
      exact .inl (by simp [past,past'])
  · exact .inl rfl

theorem count_at_calc_delta (platform : Platform) (l rules_old : RulesList Fields) (c : Counter) (k : Nat) :
    (l.calc_delta platform rules_old).count_at c k = l.count_at c k := by
  rcases rules_calc_delta platform l rules_old k with same | ⟨r,old,here,_,rated⟩
  · simp [count_at,same]
  · cases c <;> simp [count_at,here,rated,Counter.read,rate]

/-- What `calc_delta` divides for the rule at a position. -/
theorem rates_calc_delta {platform : Platform} {l rules_old : RulesList Fields}
    (size : l.rules_.length = rules_old.rules_.length) {k : Nat} {r : Rule Fields}
    (rated : (l.calc_delta platform rules_old).rules_[k]? = some r) :
    r.pps = platform.round_rate (l.count_at .packets k - rules_old.count_at .packets k)
        (l.last_update_ - rules_old.last_update_) ∧
      r.bps = platform.round_rate (l.count_at .bytes k - rules_old.count_at .bytes k)
        (l.last_update_ - rules_old.last_update_) := by
  simp only [calc_delta,size,↓reduceIte,List.getElem?_zipWith_eq_some] at rated
  obtain ⟨r₁,old,here,there,rfl⟩ := rated
  simp only [count_at_some here,count_at_some there,Counter.read]
  exact ⟨rfl,rfl⟩

theorem rules_check_triggers (platform : Platform) (cur_time : Nat → Int) (l : RulesList Fields) (k : Nat) :
    (l.check_triggers platform cur_time).1.rules_[k]? =
      l.rules_[k]?.map fun r => (check_trigger platform r (cur_time k)).1 := by
  simp [check_triggers,List.getElem?_mapIdx]
  cases l.rules_[k]? <;> rfl

theorem check_trigger_frame (platform : Platform) (r : Rule Fields) (t : Int) :
    (check_trigger platform r t).1.count_packets = r.count_packets ∧
      (check_trigger platform r t).1.count_bytes = r.count_bytes ∧
      (check_trigger platform r t).1.dst_top = ⟨∅⟩ ∧
      (check_trigger platform r t).1.pps = r.pps ∧ (check_trigger platform r t).1.bps = r.bps := by
  unfold check_trigger BaseRule.is_triggered
  split_ifs <;> exact ⟨rfl,rfl,rfl,rfl,rfl⟩

theorem count_at_check_triggers (platform : Platform) (cur_time : Nat → Int) (l : RulesList Fields) (c : Counter)
    (k : Nat) : (l.check_triggers platform cur_time).1.count_at c k = l.count_at c k := by
  rw [count_at,count_at,rules_check_triggers]
  cases l.rules_[k]? with
  | none => rfl
  | some r =>
    obtain ⟨packets,bytes,_⟩ := check_trigger_frame platform r (cur_time k)
    cases c
    · simpa [Counter.read] using packets
    · simpa [Counter.read] using bytes

/-! ### Which rules count a packet -/

variable [ProtoRule Fields Header]

def matches_packet (r : Rule Fields) (packet : Packet Header) : Bool :=
  ProtoRule.check_packet r packet.l4header packet.s_addr packet.d_addr

/-- The rule at a position counts a packet: it matches, and no earlier rule that
    matches ends the list. -/
def counts_packet (packet : Packet Header) : List (Rule Fields) → Nat → Bool
  | [], _ => false
  | r :: _, 0 => matches_packet r packet
  | r :: rest, k + 1 => !(matches_packet r packet && !r.next_rule) && counts_packet packet rest k

theorem rules_check_list (l : RulesList Fields) (packet : Packet Header) (k : Nat) :
    (l.check_list packet).1.rules_[k]? = l.rules_[k]?.map fun r =>
      if counts_packet packet l.rules_ k then count r packet.d_addr packet.len else r := by
  unfold check_list
  generalize l.rules_ = rules
  induction rules generalizing k with
  | nil => rfl
  | cons r rest ih =>
    simp only [check_rules]
    by_cases here : matches_packet r packet = true
    · rw [if_pos (show ProtoRule.check_packet r packet.l4header packet.s_addr packet.d_addr = true from here)]
      cases next : r.next_rule with
      | false =>
        cases k with
        | zero => simp [counts_packet,here]
        | succ k => simp [counts_packet,here,next]
      | true =>
        cases k with
        | zero => simp [counts_packet,here]
        | succ k => simpa [counts_packet,here,next] using ih k
    · rw [if_neg (show ¬ ProtoRule.check_packet r packet.l4header packet.s_addr packet.d_addr = true from here)]
      cases k with
      | zero => simp [counts_packet,here]
      | succ k => simpa [counts_packet,here] using ih k

theorem counts_packet_past (packet : Packet Header) {rules : List (Rule Fields)} {k : Nat}
    (past : rules.length ≤ k) : counts_packet packet rules k = false := by
  induction rules generalizing k with
  | nil => rfl
  | cons r rest ih =>
    cases k with
    | zero => simp at past
    | succ k => simp [counts_packet,ih (by simpa using past)]

theorem count_at_check_list (l : RulesList Fields) (packet : Packet Header) (c : Counter) (k : Nat) :
    (l.check_list packet).1.count_at c k =
      l.count_at c k + if counts_packet packet l.rules_ k then c.weight packet.len else 0 := by
  rw [count_at,count_at,rules_check_list]
  cases found : l.rules_[k]? with
  | none => simp [counts_packet_past packet (List.getElem?_eq_none_iff.mp found)]
  | some r =>
    by_cases counted : counts_packet packet l.rules_ k = true
    · cases c <;> simp [counted,Counter.read,Counter.weight,count]
    · simp [counted]

/-- Two lists hold the same rules for the watcher and for packets: they compare
    equal, and rules at the same position match the same packets. -/
def Alike (l m : RulesList Fields) : Prop :=
  l.eq m = true ∧
    ∀ (k : Nat) (r r' : Rule Fields), l.rules_[k]? = some r → m.rules_[k]? = some r' →
      ∀ packet : Packet Header, matches_packet r packet = matches_packet r' packet

theorem alike_self (l : RulesList Fields) : Alike l l :=
  ⟨eq_self l,fun k r r' left right packet => by rw [left] at right; rw [Option.some.inj right]⟩

theorem matches_entered (r : Rule Fields) (packet : Packet Header) :
    matches_packet r.entered packet = matches_packet r packet := by
  rw [matches_packet,ProtoRule.check_entered,matches_packet]

/-- Whether lists are alike depends on the rules as entered only. -/
theorem alike_congr {l m l' m' : RulesList Fields} (left : l.entered = l'.entered) (right : m.entered = m'.entered)
    (alike : Alike l m) : Alike l' m' := by
  refine ⟨(eq_congr left right).symm.trans alike.1,?_⟩
  intro k r r' here there packet
  have left_k := entered_getElem? left k
  have right_k := entered_getElem? right k
  rw [here,Option.map_some,Option.map_eq_some_iff] at left_k
  rw [there,Option.map_some,Option.map_eq_some_iff] at right_k
  obtain ⟨a,a_here,a_same⟩ := left_k
  obtain ⟨b,b_there,b_same⟩ := right_k
  rw [← matches_entered r,← matches_entered r',← a_same,← b_same,matches_entered,matches_entered]
  exact alike.2 k a b a_here b_there packet

/-- Lists that are alike count packets at the same positions. -/
theorem counts_packet_alike {l m : RulesList Fields} (alike : Alike l m) (packet : Packet Header) (k : Nat) :
    counts_packet packet l.rules_ k = counts_packet packet m.rules_ k := by
  obtain ⟨same,classify⟩ := alike
  obtain ⟨size,equal⟩ := eq_iff_getElem?.mp same
  revert size equal classify
  generalize l.rules_ = rules
  generalize m.rules_ = others
  intro classify size equal
  induction rules generalizing others k with
  | nil =>
    obtain rfl := List.eq_nil_of_length_eq_zero size.symm
    rfl
  | cons r rest ih =>
    cases others with
    | nil => simp at size
    | cons other others =>
      have head := classify 0 r other rfl rfl packet
      have next := ProtoRule.eq_next (equal 0 r other rfl rfl)
      cases k with
      | zero => simpa [counts_packet] using head
      | succ k =>
        simp only [counts_packet,head,next]
        rw [ih k others (fun i a b left right => classify (i+1) a b (by simpa using left) (by simpa using right))
          (by simpa using size) (fun i a b left right => equal (i+1) a b (by simpa using left) (by simpa using right))]

theorem counts_packet_entered {l m : RulesList Fields} (same : l.entered = m.entered) (packet : Packet Header)
    (k : Nat) : counts_packet packet l.rules_ k = counts_packet packet m.rules_ k :=
  counts_packet_alike (alike_congr rfl same (alike_self l)) packet k

end RulesList
end DdosDetector
