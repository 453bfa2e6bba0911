import DdosDetector.Functions
import DdosDetector.Tally

/-!
The parts that the rules of every protocol share: the counters per destination,
the numeric criteria, and the rule with its counters, rates, thresholds and
trigger clocks.
-/
namespace DdosDetector

/-- `CountersList<uint32_t, unsigned int>`: packets per destination address. -/
structure CountersList where
  map_ : Std.TreeMap UInt32 UInt32 := ∅

namespace CountersList

/-- `operator+=`: the counts of `other` are added and `other` is cleared. -/
def add (l other : CountersList) : CountersList × CountersList := (⟨Tally.merge l.map_ other.map_⟩,⟨∅⟩)
def size (l : CountersList) : Nat := l.map_.size
def clear (_ : CountersList) : CountersList := ⟨∅⟩
def increase (l : CountersList) (k : UInt32) : CountersList := ⟨Tally.increase l.map_ k⟩
def get_max (platform : Platform) (l : CountersList) : Text :=
  platform.address_to_string (Tally.scan_max (0,0) l.map_.toList).1

end CountersList

/-- `NumRange<T>`: an interval that can be switched off. -/
structure NumRange (T : Type) where
  start_ : T
  end_ : T
  enable_ : Bool
deriving DecidableEq

namespace NumRange
variable {T : Type} [DecidableEq T] [LE T] [DecidableLE T] [OfNat T 0]

def empty : NumRange T := ⟨0,0,false⟩
def in_this (r : NumRange T) (num : T) : Bool :=
  if !r.enable_ then true
  else if num ≠ 0 ∧ num ≥ r.start_ ∧ num ≤ r.end_ then true
  else false
def stat (r : NumRange T) : Bool := r.enable_
/-- `operator==`, which does not look at `enable_`. -/
def eq (r other : NumRange T) : Bool := r.start_ = other.start_ && r.end_ = other.end_
/-- `operator=` of a pair; the pair of zeros changes nothing. -/
def assign (r : NumRange T) (p : T × T) : NumRange T :=
  if p.1 ≠ 0 ∨ p.2 ≠ 0 then ⟨p.1,p.2,true⟩ else r

end NumRange

/-- `NumComparable<T>`: a number compared by =, > or <, coded 0, 1 and 2. -/
structure NumComparable (T : Type) where
  num_ : T
  enable_ : Bool
  type_ : Nat
deriving DecidableEq

namespace NumComparable
variable {T : Type} [DecidableEq T] [LT T] [DecidableLT T] [OfNat T 0]

def empty : NumComparable T := ⟨0,false,0⟩
def in_this (r : NumComparable T) (num : T) : Bool :=
  if !r.enable_ then true
  else if r.type_ = 0 ∧ num = r.num_ then true
  else if r.type_ = 1 ∧ num > r.num_ then true
  else if r.type_ = 2 ∧ num < r.num_ then true
  else false
/-- `operator==`, which does not look at `enable_`. -/
def eq (r other : NumComparable T) : Bool := r.num_ = other.num_ && r.type_ = other.type_
def assign (_ : NumComparable T) (p : T × Nat) : NumComparable T := ⟨p.1,true,p.2⟩

end NumComparable

/-- `action::Action`: the kind of job and its file. -/
structure Action where
  type_ : Text := "syslog"
  file_ : Text := []
deriving DecidableEq

/-- `action::TriggerJob`: an action with its data. -/
structure TriggerJob extends Action where
  data_ : Text
deriving DecidableEq

/-- `BaseRule`. Times are those of `std::time`, in seconds. -/
structure BaseRule where
  rule_type : Text := "none"
  text_rule : Text := []
  act : Action := {}
  comment : Text := []
  count_packets : UInt64 := 0
  count_bytes : UInt64 := 0
  next_rule : Bool := false
  pps : UInt64 := 0
  bps : UInt64 := 0
  pps_trigger : UInt32 := 0
  bps_trigger : UInt32 := 0
  pps_last_not_triggered : Int := 0
  bps_last_not_triggered : Int := 0
  pps_trigger_period : UInt32 := 10
  bps_trigger_period : UInt32 := 10
  dst_top : CountersList := {}
  tokenize_rule : List Text := []

/-- One threshold of `is_triggered`: whether it makes the function return true,
    and its clock afterwards. The clock is reset where the excess has lasted
    longer than the period, also when no destination is known. -/
def threshold (trigger : UInt32) (rate : UInt64) (last_not_triggered : Int) (period : UInt32) (cur_time : Int)
    (known : Bool) : Bool × Int :=
  if trigger > 0 then
    if rate > trigger.toUInt64 then
      if cur_time - last_not_triggered > period.toNat then (known,cur_time) else (false,last_not_triggered)
    else (false,cur_time)
  else (false,last_not_triggered)

namespace BaseRule

/-- The packet threshold of `is_triggered`. -/
def pps_check (r : BaseRule) (cur_time : Int) : Bool × Int :=
  threshold r.pps_trigger r.pps r.pps_last_not_triggered r.pps_trigger_period cur_time (r.dst_top.size > 0)
/-- The byte threshold of `is_triggered`. -/
def bps_check (r : BaseRule) (cur_time : Int) : Bool × Int :=
  threshold r.bps_trigger r.bps r.bps_last_not_triggered r.bps_trigger_period cur_time (r.dst_top.size > 0)

/-- `is_triggered` at the time that `std::time` returns. The byte threshold is
    not looked at where the packet threshold returns true. -/
def is_triggered (r : BaseRule) (cur_time : Int) : Bool × BaseRule :=
  let r' := { r with pps_last_not_triggered := (r.pps_check cur_time).2 }
  if (r.pps_check cur_time).1 then (true,r')
  else ((r.bps_check cur_time).1,{ r' with bps_last_not_triggered := (r.bps_check cur_time).2 })

def get_job_info (platform : Platform) (r : BaseRule) : Text :=
  r.rule_type ++ '|' :: r.dst_top.get_max platform ++ (if r.comment = [] then [] else '|' :: r.comment)

/-- `std::to_string` of a 64-bit number. -/
def to_string (n : UInt64) : Text := toString n.toNat

def get_trigger_influx (platform : Platform) (r : BaseRule) : Text :=
  "events,dst=".toList ++ r.dst_top.get_max platform
    ++ " bps=".toList ++ to_string (r.bps * 8)
    ++ ",pps=".toList ++ to_string r.pps
    ++ ",type=\"".toList ++ r.rule_type
    ++ "\",comment=\"".toList ++ r.comment
    ++ "\"".toList

end BaseRule

/-- The criteria of `Ipv4Rule`. -/
structure Ipv4Rule where
  ip_src : NumRange UInt32 := .empty
  ip_dst : NumRange UInt32 := .empty
deriving DecidableEq

/-- A rule of one protocol: the IPv4 criteria, the base rule and the protocol's
    own criteria. `TcpRule`, `UdpRule` and `IcmpRule` are its instances. -/
structure Rule (Fields : Type) extends Ipv4Rule, BaseRule where
  l4 : Fields

namespace Rule
variable {Fields : Type}

/-- `operator+=`, the same in `TcpRule`, `UdpRule` and `IcmpRule`: the counters of
    `other` are added and reset. -/
def add (r other : Rule Fields) : Rule Fields × Rule Fields :=
  ({ r with
      count_packets := r.count_packets + other.count_packets
      count_bytes := r.count_bytes + other.count_bytes
      dst_top := (r.dst_top.add other.dst_top).1 },
    { other with
      dst_top := (r.dst_top.add other.dst_top).2
      count_packets := 0
      count_bytes := 0 })

/-- The rule as it was entered: without what counting, rates and triggers change. -/
def entered (r : Rule Fields) : Rule Fields :=
  { r with
    count_packets := 0
    count_bytes := 0
    pps := 0
    bps := 0
    pps_last_not_triggered := 0
    bps_last_not_triggered := 0
    dst_top := {} }

@[simp] theorem entered_entered (r : Rule Fields) : r.entered.entered = r.entered := rfl
@[simp] theorem entered_add (r other : Rule Fields) : (r.add other).1.entered = r.entered := rfl
@[simp] theorem entered_drained (r other : Rule Fields) : (r.add other).2.entered = other.entered := rfl

end Rule
end DdosDetector
