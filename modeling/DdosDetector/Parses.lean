import DdosDetector.Protocols

/-!
What a successful parse of a rule tells, the same for each protocol: which options it
went by, and that it has left alone what counting, rates and triggers change.
-/
namespace DdosDetector

/-- What `BaseRule_parse` has read and checked. -/
structure BaseParsed (platform : Platform) (vm : variables_map) (r made : BaseRule) : Prop where
  pps_trigger : given (vm.value "pps-th") r.pps_trigger (fun v => (from_short_size v false).map UInt64.toUInt32) =
    .ok made.pps_trigger
  bps_trigger : given (vm.value "bps-th") r.bps_trigger (fun v => (from_short_size v true).map UInt64.toUInt32) =
    .ok made.bps_trigger
  some_trigger : ¬ (made.pps_trigger = 0 ∧ made.bps_trigger = 0)
  frame : made = { r with
    pps_trigger := made.pps_trigger, bps_trigger := made.bps_trigger
    pps_trigger_period := made.pps_trigger_period, bps_trigger_period := made.bps_trigger_period
    act := made.act, comment := made.comment, next_rule := made.next_rule }

theorem base_parsed {platform : Platform} {vm : variables_map} {r made : BaseRule}
    (parsed : r.BaseRule_parse platform vm = .ok made) : BaseParsed platform vm r made := by
  obtain ⟨pps_trigger,pps_read,parsed⟩ := bind_ok parsed
  obtain ⟨bps_trigger,bps_read,parsed⟩ := bind_ok parsed
  obtain ⟨act,_,parsed⟩ := bind_ok parsed
  by_cases none : pps_trigger = 0 ∧ bps_trigger = 0
  · simp only [none] at parsed
    cases parsed
  · simp only [none,↓reduceIte] at parsed
    split_ifs at parsed
    all_goals cases parsed
    exact ⟨pps_read,bps_read,none,rfl⟩

/-- What `parse` has read of the options that all rules share. -/
structure RuleParsed {F : Type} (platform : Platform) (opt : options_description) (vm : variables_map) (r made : Rule F) :
    Prop where
  options : CommandParser.parse opt r.tokenize_rule = .ok vm
  ipv4 : r.toIpv4Rule.ip_header_parse platform vm = .ok made.toIpv4Rule
  base : ∃ rule_type, BaseParsed platform vm
    { r.toBaseRule with rule_type := rule_type, text_rule := CommandParser.join r.tokenize_rule } made.toBaseRule

theorem parse_base_parsed {F : Type} {platform : Platform} {rule_type : Text} {opt : options_description} {r : Rule F}
    {made : Rule F × variables_map} (parsed : r.parse_base platform rule_type opt = .ok made) :
    RuleParsed platform opt made.2 r made.1 ∧ made.1.l4 = r.l4 := by
  obtain ⟨vm,options,parsed⟩ := bind_ok parsed
  obtain ⟨ipv4,header,parsed⟩ := bind_ok parsed
  obtain ⟨base,base_read,parsed⟩ := bind_ok parsed
  obtain rfl := Except.ok.inj parsed
  exact ⟨⟨options,header,rule_type,base_parsed base_read⟩,rfl⟩

/-- The port criteria of a protocol, by the names of their options. -/
def ports : (p : Proto) → Fields p → List (String × NumRange UInt16)
  | .TCP, l4 => [("sport",l4.src_port),("dport",l4.dst_port)]
  | .UDP, l4 => [("sport",l4.src_port),("dport",l4.dst_port)]
  | .ICMP, _ => []

/-- The option is assigned to the range as the list of words was parsed into it. -/
def PortRead (vm : variables_map) (name : String) (old range : NumRange UInt16) : Prop :=
  given (vm.value name) old (fun v => .ok (old.assign (range_from_port_string v))) = .ok range

theorem parse_parsed {platform : Platform} {opt : options_description} {p : Proto} {r made : Rule (Fields p)}
    (parsed : ProtoRule.parse platform opt r = .ok made) :
    ∃ vm, RuleParsed platform opt vm r made ∧
      List.Forall₂ (fun old new => old.1 = new.1 ∧ PortRead vm old.1 old.2 new.2) (ports p r.l4) (ports p made.l4) := by
  cases p with
  | TCP =>
    obtain ⟨⟨base,vm⟩,made_base,parsed⟩ := bind_ok parsed
    obtain ⟨shared,same⟩ := parse_base_parsed made_base
    obtain ⟨src_port,src_read,parsed⟩ := bind_ok parsed
    obtain ⟨dst_port,dst_read,parsed⟩ := bind_ok parsed
    obtain ⟨_,_,parsed⟩ := bind_ok parsed
    obtain ⟨_,_,parsed⟩ := bind_ok parsed
    obtain ⟨_,_,parsed⟩ := bind_ok parsed
    obtain ⟨_,_,parsed⟩ := bind_ok parsed
    obtain ⟨_,_,parsed⟩ := bind_ok parsed
    obtain rfl := Except.ok.inj parsed
    refine ⟨vm,⟨shared.options,shared.ipv4,shared.base⟩,.cons ⟨rfl,?_⟩ (.cons ⟨rfl,?_⟩ .nil)⟩
    · exact same ▸ src_read
    · exact same ▸ dst_read
  | UDP =>
    obtain ⟨⟨base,vm⟩,made_base,parsed⟩ := bind_ok parsed
    obtain ⟨shared,same⟩ := parse_base_parsed made_base
    obtain ⟨src_port,src_read,parsed⟩ := bind_ok parsed
    obtain ⟨dst_port,dst_read,parsed⟩ := bind_ok parsed
    obtain ⟨_,_,parsed⟩ := bind_ok parsed
    obtain rfl := Except.ok.inj parsed
    refine ⟨vm,⟨shared.options,shared.ipv4,shared.base⟩,.cons ⟨rfl,?_⟩ (.cons ⟨rfl,?_⟩ .nil)⟩
    · exact same ▸ src_read
    · exact same ▸ dst_read
  | ICMP =>
    obtain ⟨⟨base,vm⟩,made_base,parsed⟩ := bind_ok parsed
    obtain ⟨shared,_⟩ := parse_base_parsed made_base
    obtain ⟨_,_,parsed⟩ := bind_ok parsed
    obtain ⟨_,_,parsed⟩ := bind_ok parsed
    obtain rfl := Except.ok.inj parsed
    exact ⟨vm,⟨shared.options,shared.ipv4,shared.base⟩,.nil⟩

/-- Nothing has been counted for the rule, and no check has moved its clocks. -/
structure Unused (r : BaseRule) : Prop where
  packets : r.count_packets = 0
  bytes : r.count_bytes = 0
  rates : r.pps = 0 ∧ r.bps = 0
  destinations : r.dst_top = {}
  clocks : r.pps_last_not_triggered = 0 ∧ r.bps_last_not_triggered = 0

/-- A rule made from words is unused. -/
theorem parse_unused {platform : Platform} {opt : options_description} {p : Proto} {tokens : List Text}
    {r : Rule (Fields p)} (parsed : ProtoRule.parse platform opt (ProtoRule.new tokens) = .ok r) :
    Unused r.toBaseRule := by
  obtain ⟨vm,shared,_⟩ := parse_parsed parsed
  obtain ⟨rule_type,base⟩ := shared.base
  have unused : Unused (ProtoRule.new tokens : Rule (Fields p)).toBaseRule := by
    cases p <;> exact ⟨rfl,rfl,⟨rfl,rfl⟩,rfl,⟨rfl,rfl⟩⟩
  rw [base.frame]
  exact ⟨unused.packets,unused.bytes,unused.rates,unused.destinations,unused.clocks⟩

end DdosDetector
