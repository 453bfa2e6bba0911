import DdosDetector.Alarm

/-!
The thresholds of a rule over the calls of `is_triggered`. A lasting excess gets an
alarm within a period, and a rule with one threshold raises its alarms more than a
period apart. Two thresholds are not independent: a call at which the packet threshold
raises an alarm leaves the byte clock as it is.
-/
namespace DdosDetector

/-! ### One threshold, where a destination is known -/

section threshold
variable {trigger : UInt32} {rate : UInt64} {last : Int} {period : UInt32} {t : Int} {known : Bool}

theorem threshold_off (off : trigger = 0) : threshold trigger rate last period t known = (false,last) := by
  have unset : ¬ trigger > 0 := by simp [off]
  simp only [threshold,unset,↓reduceIte]

theorem threshold_clock_next : (threshold trigger rate last period t known).2 = last ∨
    (threshold trigger rate last period t known).2 = t := by
  unfold threshold
  split_ifs <;> simp

/-- An alarm sets the clock, and the period is over. -/
theorem threshold_raised (alarm : (threshold trigger rate last period t known).1 = true) :
    (threshold trigger rate last period t known).2 = t ∧ (period.toNat : Int) < t - last := by
  obtain ⟨set,raised⟩ := threshold_alarm alarm
  rw [threshold_eq set]
  simp only [Debounce.check] at raised ⊢
  split_ifs at raised ⊢ with high elapsed
  exact ⟨rfl,elapsed⟩

theorem threshold_raises_iff (set : 0 < trigger) : (threshold trigger rate last period t true).1 = true ↔
    trigger.toUInt64 < rate ∧ (period.toNat : Int) < t - last := by
  rw [threshold_eq set,Bool.and_true]
  simp only [Debounce.check,decide_eq_true_eq]
  split_ifs with high elapsed
  · simp [high,elapsed]
  · simp [elapsed]
  · simp [high]

/-- The clock stays where a check sees a high rate within the period, and at a check of
    the same time. -/
theorem threshold_stays_iff (set : 0 < trigger) : (threshold trigger rate last period t known).2 = last ↔
    t = last ∨ trigger.toUInt64 < rate ∧ t - last ≤ period.toNat := by
  rw [threshold_eq set]
  simp only [Debounce.check,decide_eq_true_eq]
  split_ifs with high elapsed
  · simp only [high,true_and]
    constructor
    · exact .inl
    · rintro (same | within)
      · exact same
      · exact absurd elapsed (not_lt.mpr within)
  · simp [high,not_lt.mp elapsed]
  · simp [high]

theorem threshold_quiet (set : 0 < trigger) (high : trigger.toUInt64 < rate)
    (quiet : (threshold trigger rate last period t true).1 = false) :
    (threshold trigger rate last period t true).2 = last ∧ t - last ≤ period.toNat := by
  have within : t - last ≤ period.toNat := by
    by_contra elapsed
    have alarm := (threshold_raises_iff set).mpr ⟨high,not_le.mp elapsed⟩
    rw [quiet] at alarm
    cases alarm
  exact ⟨(threshold_stays_iff set).mpr (.inr ⟨high,within⟩),within⟩

end threshold

/-! ### The thresholds as a machine -/

/-- What a check of a rule finds: the time, the rates, and whether a destination is known. -/
structure Look where
  time : Int
  pps : UInt64
  bps : UInt64
  known : Bool

def BaseRule.look (r : BaseRule) (cur_time : Int) : Look := ⟨cur_time,r.pps,r.bps,decide (r.dst_top.size > 0)⟩

namespace TriggerState

def pps_look (t : TriggerState) (c : Look) : Bool × Int :=
  threshold t.pps_trigger c.pps t.pps_last_not_triggered t.pps_trigger_period c.time c.known
def bps_look (t : TriggerState) (c : Look) : Bool × Int :=
  threshold t.bps_trigger c.bps t.bps_last_not_triggered t.bps_trigger_period c.time c.known

/-- The answer to a look, and the clocks afterwards. -/
def looked (t : TriggerState) (c : Look) : Bool × TriggerState :=
  ((t.pps_look c).1 || (t.bps_look c).1,
    { t with
      pps_last_not_triggered := (t.pps_look c).2
      bps_last_not_triggered := if (t.pps_look c).1 then t.bps_last_not_triggered else (t.bps_look c).2 })

/-- The same thresholds with their clocks at the start. -/
def started (t : TriggerState) : TriggerState := { t with pps_last_not_triggered := 0, bps_last_not_triggered := 0 }

end TriggerState

theorem is_triggered_looked (r : BaseRule) (t : Int) :
    r.trigger_state.looked (r.look t) = ((r.is_triggered t).1,(r.is_triggered t).2.trigger_state) := by
  refine Prod.ext ?_ (trigger_state_is_triggered r t).symm
  show ((r.pps_check t).1 || (r.bps_check t).1) = (r.is_triggered t).1
  unfold BaseRule.is_triggered
  split_ifs with alarm
  · simp [alarm]
  · simp [alarm]

namespace TriggerState
variable {start t : TriggerState} {c : Look}

@[simp] theorem started_looked (t : TriggerState) (c : Look) : (t.looked c).2.started = t.started := rfl

/-- Thresholds that have the parameters of `start`. -/
def Alike (start t : TriggerState) : Prop := t.started = start.started

theorem Alike.parameters (alike : Alike start t) : t.pps_trigger = start.pps_trigger ∧ t.bps_trigger = start.bps_trigger ∧
    t.pps_trigger_period = start.pps_trigger_period ∧ t.bps_trigger_period = start.bps_trigger_period := by
  simpa [Alike,started] using alike

theorem pps_clocked (start : TriggerState) :
    Debounce.Clocked looked Look.time pps_last_not_triggered (Alike start) where
  keeps alike := alike
  clock_next _ := threshold_clock_next

theorem bps_clocked (start : TriggerState) :
    Debounce.Clocked looked Look.time bps_last_not_triggered (Alike start) where
  keeps alike := alike
  clock_next {t c} _ := by
    simp only [looked]
    split_ifs with alarm
    · exact .inl rfl
    · exact threshold_clock_next

/-- An excess of packets with a destination known. -/
def PpsHigh (t : TriggerState) (c : Look) : Prop := t.pps_trigger.toUInt64 < c.pps ∧ c.known = true
def BpsHigh (t : TriggerState) (c : Look) : Prop := t.bps_trigger.toUInt64 < c.bps ∧ c.known = true

theorem watches_pps (set : 0 < start.pps_trigger) : Debounce.Watches looked Look.time pps_last_not_triggered (Alike start)
    (start.pps_trigger_period.toNat : Int) start.PpsHigh where
  toClocked := pps_clocked start
  silent {t c} alike high quiet := by
    obtain ⟨trigger,_,period,_⟩ := alike.parameters
    obtain ⟨above,known⟩ := high
    rw [← trigger] at set above
    obtain ⟨no_alarm,_⟩ := Bool.or_eq_false_iff.mp quiet
    rw [pps_look,known] at no_alarm
    simp only [looked,pps_look,known,← period]
    exact threshold_quiet set above no_alarm

/-- A look that raises a packet alarm gets an alarm, too. -/
theorem watches_bps (set : 0 < start.bps_trigger) : Debounce.Watches looked Look.time bps_last_not_triggered (Alike start)
    (start.bps_trigger_period.toNat : Int) start.BpsHigh where
  toClocked := bps_clocked start
  silent {t c} alike high quiet := by
    obtain ⟨_,trigger,_,period⟩ := alike.parameters
    obtain ⟨above,known⟩ := high
    rw [← trigger] at set above
    obtain ⟨no_packet_alarm,no_alarm⟩ := Bool.or_eq_false_iff.mp quiet
    rw [bps_look,known] at no_alarm
    simp only [looked,no_packet_alarm,Bool.false_eq_true,↓reduceIte,bps_look,known,← period]
    exact threshold_quiet set above no_alarm

theorem waits_pps (off : start.bps_trigger = 0) : Debounce.Waits looked Look.time pps_last_not_triggered (Alike start)
    (start.pps_trigger_period.toNat : Int) where
  toClocked := pps_clocked start
  fired {t c} alike alarm := by
    obtain ⟨_,trigger,period,_⟩ := alike.parameters
    simp only [looked,bps_look,threshold_off (trigger.trans off),Bool.or_false] at alarm
    rw [← period]
    exact threshold_raised alarm

theorem waits_bps (off : start.pps_trigger = 0) : Debounce.Waits looked Look.time bps_last_not_triggered (Alike start)
    (start.bps_trigger_period.toNat : Int) where
  toClocked := bps_clocked start
  fired {t c} alike alarm := by
    obtain ⟨trigger,_,_,period⟩ := alike.parameters
    have quiet : (t.pps_look c).1 = false := congrArg Prod.fst (threshold_off (trigger.trans off))
    simp only [looked,quiet,Bool.false_or,Bool.false_eq_true,↓reduceIte] at alarm ⊢
    rw [← period]
    exact threshold_raised alarm

end TriggerState

/-! ### Calls -/

/-- A call of `is_triggered`: the time that `std::time` returns, and the rates and the
    destinations that the rule has by then. -/
structure Call where
  time : Int
  pps : UInt64
  bps : UInt64
  dst_top : CountersList
  known : dst_top.size > 0

/-- What `is_triggered` finds at the call. -/
def Call.look (c : Call) : Look := ⟨c.time,c.pps,c.bps,true⟩

namespace BaseRule

def at_call (r : BaseRule) (c : Call) : BaseRule := { r with pps := c.pps, bps := c.bps, dst_top := c.dst_top }
def called (r : BaseRule) (c : Call) : Bool × BaseRule := (r.at_call c).is_triggered c.time

/-- The thresholds at a call, where a destination is known. -/
def packet_check (r : BaseRule) (c : Call) : Bool × Int :=
  threshold r.pps_trigger c.pps r.pps_last_not_triggered r.pps_trigger_period c.time true
def byte_check (r : BaseRule) (c : Call) : Bool × Int :=
  threshold r.bps_trigger c.bps r.bps_last_not_triggered r.bps_trigger_period c.time true

theorem pps_check_at_call (r : BaseRule) (c : Call) : (r.at_call c).pps_check c.time = r.packet_check c := by
  have known : decide ((r.at_call c).dst_top.size > 0) = true := decide_eq_true c.known
  rw [pps_check,known]
  rfl

theorem bps_check_at_call (r : BaseRule) (c : Call) : (r.at_call c).bps_check c.time = r.byte_check c := by
  have known : decide ((r.at_call c).dst_top.size > 0) = true := decide_eq_true c.known
  rw [bps_check,known]
  rfl

theorem called_fst (r : BaseRule) (c : Call) : (r.called c).1 = ((r.packet_check c).1 || (r.byte_check c).1) := by
  rw [called,is_triggered,pps_check_at_call,bps_check_at_call]
  split_ifs with alarm
  · simp [alarm]
  · simp [alarm]

/-- A call changes the clocks only, and not the byte clock if the packet threshold
    raises an alarm. -/
theorem called_trigger_state (r : BaseRule) (c : Call) : (r.called c).2.trigger_state = { r.trigger_state with
    pps_last_not_triggered := (r.packet_check c).2
    bps_last_not_triggered := if (r.packet_check c).1 then r.bps_last_not_triggered else (r.byte_check c).2 } := by
  rw [called,trigger_state_is_triggered,pps_check_at_call,bps_check_at_call]
  rfl

/-- The answers of `is_triggered` to the calls. -/
def outcomes (r : BaseRule) (calls : List Call) : List Bool := (Debounce.trace called r calls).map Prod.snd

end BaseRule

/-! ### Alarms in time -/

/-- The parameters of the thresholds are those of the rule. -/
structure SameThresholds (r s : BaseRule) : Prop where
  pps_trigger : s.pps_trigger = r.pps_trigger
  bps_trigger : s.bps_trigger = r.bps_trigger
  pps_trigger_period : s.pps_trigger_period = r.pps_trigger_period
  bps_trigger_period : s.bps_trigger_period = r.bps_trigger_period

namespace BaseRule
variable {r s : BaseRule} {c : Call}

theorem same_thresholds_called (same : SameThresholds r s) : SameThresholds r (s.called c).2 := by
  have changed := called_trigger_state s c
  simp only [trigger_state,TriggerState.mk.injEq] at changed
  exact ⟨changed.1.trans same.1,changed.2.1.trans same.2,changed.2.2.1.trans same.3,changed.2.2.2.1.trans same.4⟩

theorem called_pps_clock (s : BaseRule) (c : Call) : (s.called c).2.pps_last_not_triggered = (s.packet_check c).2 :=
  congrArg TriggerState.pps_last_not_triggered (called_trigger_state s c)

theorem called_bps_clock (s : BaseRule) (c : Call) : (s.called c).2.bps_last_not_triggered =
    if (s.packet_check c).1 then s.bps_last_not_triggered else (s.byte_check c).2 :=
  congrArg TriggerState.bps_last_not_triggered (called_trigger_state s c)

theorem packet_check_off (off : s.pps_trigger = 0) : s.packet_check c = (false,s.pps_last_not_triggered) :=
  threshold_off off

theorem byte_check_off (off : s.bps_trigger = 0) : s.byte_check c = (false,s.bps_last_not_triggered) :=
  threshold_off off

/-- Some call after `t0` and not after `t` returns true. -/
def AlarmIn (r : BaseRule) (calls : List Call) (t0 t : Int) : Prop :=
  ∃ answer ∈ Debounce.trace called r calls, t0 < answer.1.time ∧ answer.1.time ≤ t ∧ answer.2 = true

/-- Any two calls that return true are more than the period apart. -/
def AlarmsApart (r : BaseRule) (calls : List Call) (period : UInt32) : Prop :=
  (Debounce.trace called r calls).Pairwise fun a b =>
    a.2 = true → b.2 = true → (period.toNat : Int) < b.1.time - a.1.time

/-- The rule answers as its thresholds do. -/
theorem called_looked (r : BaseRule) (c : Call) :
    r.trigger_state.looked c.look = ((r.called c).1,(r.called c).2.trigger_state) := by
  have found : (r.at_call c).look c.time = c.look := by
    simp [BaseRule.look,Call.look,at_call,c.known]
  have looked := is_triggered_looked (r.at_call c) c.time
  rwa [found] at looked

theorem answers_looked (r : BaseRule) (calls : List Call) :
    (Debounce.trace called r calls).map (fun answer => (answer.1.look,answer.2)) =
      Debounce.trace TriggerState.looked r.trigger_state (calls.map Call.look) :=
  Debounce.trace_map called_looked r calls

theorem alarmIn_of_watches {clock : TriggerState → Int} {period : Int} {high : Look → Prop}
    (watches : Debounce.Watches TriggerState.looked Look.time clock (TriggerState.Alike r.trigger_state) period high)
    {t0 : Int} (behind : clock r.trigger_state ≤ t0) {calls : List Call} (ordered : calls.Pairwise fun a b => a.time ≤ b.time)
    (member : c ∈ calls) (after : t0 < c.time) (long : period < c.time - t0)
    (sustained : ∀ d ∈ calls, t0 < d.time → d.time ≤ c.time → high d.look) : AlarmIn r calls t0 c.time := by
  have looks : (calls.map Call.look).Pairwise fun a b => a.time ≤ b.time := List.pairwise_map.mpr ordered
  have lasting : ∀ d ∈ calls.map Call.look, t0 < d.time → d.time ≤ c.time → high d := by
    intro d found
    obtain ⟨d,inside,rfl⟩ := List.mem_map.mp found
    exact sustained d inside
  have alike : TriggerState.Alike r.trigger_state r.trigger_state := rfl
  obtain ⟨answer,found,within⟩ := Debounce.alarm_within watches long alike behind looks
    ⟨c.look,List.mem_map_of_mem member,rfl⟩ after lasting
  rw [← answers_looked] at found
  obtain ⟨answer,inside,rfl⟩ := List.mem_map.mp found
  exact ⟨answer,inside,within⟩

theorem alarmsApart_of_waits {clock : TriggerState → Int} {period : UInt32}
    (waits : Debounce.Waits TriggerState.looked Look.time clock (TriggerState.Alike r.trigger_state) (period.toNat : Int))
    {calls : List Call} (ordered : calls.Pairwise fun a b => a.time ≤ b.time) : AlarmsApart r calls period := by
  have alike : TriggerState.Alike r.trigger_state r.trigger_state := rfl
  have apart := Debounce.alarms_apart waits alike (List.pairwise_map.mpr ordered : (calls.map Call.look).Pairwise _)
  rw [← answers_looked] at apart
  exact List.pairwise_map.mp apart

theorem same_thresholds (r : BaseRule) : SameThresholds r r := ⟨rfl,rfl,rfl,rfl⟩

/-- No alarm is missed, and those of a single threshold are not repeated within its
    period: for every rule from its construction on, whatever its rates at the calls. -/
theorem alarms_in_time {r : BaseRule} (constructed : Fresh r) {calls : List Call}
    (ordered : calls.Pairwise fun a b => a.time ≤ b.time) (nonnegative : ∀ c ∈ calls, 0 ≤ c.time) :
    (∀ c0 ∈ calls, ∀ c ∈ calls, (r.pps_trigger_period.toNat : Int) < c.time - c0.time → 0 < r.pps_trigger →
      (∀ d ∈ calls, c0.time < d.time → d.time ≤ c.time → r.pps_trigger.toUInt64 < d.pps) →
        AlarmIn r calls c0.time c.time) ∧
    (∀ c0 ∈ calls, ∀ c ∈ calls, (r.bps_trigger_period.toNat : Int) < c.time - c0.time → 0 < r.bps_trigger →
      (∀ d ∈ calls, c0.time < d.time → d.time ≤ c.time → r.bps_trigger.toUInt64 < d.bps) →
        AlarmIn r calls c0.time c.time) ∧
    (r.bps_trigger = 0 → AlarmsApart r calls r.pps_trigger_period) ∧
    (r.pps_trigger = 0 → AlarmsApart r calls r.bps_trigger_period) := by
  refine ⟨?_,?_,?_,?_⟩
  · intro c0 member0 c member long set sustained
    have behind : r.pps_last_not_triggered ≤ c0.time := constructed.1 ▸ nonnegative c0 member0
    have after : c0.time < c.time := by omega
    exact alarmIn_of_watches (TriggerState.watches_pps set) behind ordered member after long
      fun d inside later within => ⟨sustained d inside later within,rfl⟩
  · intro c0 member0 c member long set sustained
    have behind : r.bps_last_not_triggered ≤ c0.time := constructed.2 ▸ nonnegative c0 member0
    have after : c0.time < c.time := by omega
    exact alarmIn_of_watches (TriggerState.watches_bps set) behind ordered member after long
      fun d inside later within => ⟨sustained d inside later within,rfl⟩
  · intro off
    exact alarmsApart_of_waits (TriggerState.waits_pps off) ordered
  · intro off
    exact alarmsApart_of_waits (TriggerState.waits_bps off) ordered

def sample_call (time : Int) (pps bps : UInt64) : Call := ⟨time,pps,bps,({} : CountersList).increase 1,by decide⟩

theorem alarms_in_time_packets :
    AlarmIn { pps_trigger := 1 } [sample_call 1 0 0,sample_call 12 5 0] 1 12 ∧
      AlarmsApart { pps_trigger := 1 } [sample_call 1 0 0,sample_call 12 5 0] 10 := by
  have constructed : Fresh { pps_trigger := 1 } := ⟨rfl,rfl⟩
  have ordered : ([sample_call 1 0 0,sample_call 12 5 0]).Pairwise (fun a b => a.time ≤ b.time) := by
    simp [sample_call]
  have nonnegative : ∀ c ∈ [sample_call 1 0 0,sample_call 12 5 0], 0 ≤ c.time := by simp [sample_call]
  have sustained : ∀ d ∈ [sample_call 1 0 0,sample_call 12 5 0], (1 : Int) < d.time → d.time ≤ 12 →
      (1 : UInt32).toUInt64 < d.pps := by
    intro d member after _
    rcases List.mem_cons.mp member with rfl | member
    · exact absurd after (by decide)
    · rw [List.mem_singleton.mp member]
      decide
  obtain ⟨in_time,_,apart,_⟩ := alarms_in_time constructed ordered nonnegative
  exact ⟨in_time (sample_call 1 0 0) (by simp) (sample_call 12 5 0) (by simp) (by decide) (by decide) sustained,apart rfl⟩

/-! ### Two thresholds -/

/-- The copies with one threshold. -/
def packets_only (r : BaseRule) : BaseRule := { r with bps_trigger := 0 }
def bytes_only (r : BaseRule) : BaseRule := { r with pps_trigger := 0 }

/-- The rule returns true exactly at the calls at which one of the copies does. -/
def Independent (r : BaseRule) (calls : List Call) : Prop :=
  r.outcomes calls = List.zipWith or (r.packets_only.outcomes calls) (r.bytes_only.outcomes calls)

/-- A call that would raise a packet alarm finds the byte clock at its own time, or
    sees more bytes than the threshold allows within the byte period. -/
def Undisturbed (r : BaseRule) (c : Call) : Prop :=
  r.pps_trigger.toUInt64 < c.pps → (r.pps_trigger_period.toNat : Int) < c.time - r.pps_last_not_triggered →
    c.time = r.bps_last_not_triggered ∨
      r.bps_trigger.toUInt64 < c.bps ∧ c.time - r.bps_last_not_triggered ≤ r.bps_trigger_period.toNat

instance (r : BaseRule) (c : Call) : Decidable (Undisturbed r c) :=
  inferInstanceAs (Decidable (_ → _ → _ = _ ∨ _ ∧ _))

/-- All calls are undisturbed in the states they find. -/
def Steady : BaseRule → List Call → Prop
  | _, [] => True
  | r, c :: calls => Undisturbed r c ∧ Steady (r.called c).2 calls

/-- A call is undisturbed if its packet alarm keeps nothing from the byte clock. -/
theorem undisturbed_iff (packets : 0 < r.pps_trigger) (bytes : 0 < r.bps_trigger) : Undisturbed r c ↔
    ((r.packet_check c).1 = true → (r.byte_check c).2 = r.bps_last_not_triggered) := by
  rw [packet_check,threshold_raises_iff packets,byte_check,threshold_stays_iff bytes,Undisturbed,and_imp]

/-- The rule beside its copies: each copy has the clock of its threshold. -/
structure Beside (r p b : BaseRule) : Prop where
  packets : SameThresholds r.packets_only p
  bytes : SameThresholds r.bytes_only b
  packet_clock : p.pps_last_not_triggered = r.pps_last_not_triggered
  byte_clock : b.bps_last_not_triggered = r.bps_last_not_triggered

theorem beside_copies (r : BaseRule) : Beside r r.packets_only r.bytes_only :=
  ⟨⟨rfl,rfl,rfl,rfl⟩,⟨rfl,rfl,rfl,rfl⟩,rfl,rfl⟩

variable {p b : BaseRule}

theorem packet_check_copy (beside : Beside r p b) (c : Call) : p.packet_check c = r.packet_check c := by
  unfold packet_check
  rw [beside.packets.pps_trigger,beside.packets.pps_trigger_period,beside.packet_clock]
  rfl

theorem byte_check_copy (beside : Beside r p b) (c : Call) : b.byte_check c = r.byte_check c := by
  unfold byte_check
  rw [beside.bytes.bps_trigger,beside.bytes.bps_trigger_period,beside.byte_clock]
  rfl

theorem called_packets_only (beside : Beside r p b) (c : Call) : (p.called c).1 = (r.packet_check c).1 := by
  have off := byte_check_off (c := c) beside.packets.bps_trigger
  rw [called_fst,off,Bool.or_false,packet_check_copy beside]

theorem called_bytes_only (beside : Beside r p b) (c : Call) : (b.called c).1 = (r.byte_check c).1 := by
  have off := packet_check_off (c := c) beside.bytes.pps_trigger
  rw [called_fst,off,Bool.false_or,byte_check_copy beside]

/-- While the clocks agree the answers do. -/
theorem called_beside (beside : Beside r p b) (c : Call) : (r.called c).1 = ((p.called c).1 || (b.called c).1) := by
  rw [called_packets_only beside,called_bytes_only beside,called_fst]

theorem byte_clock_copy (beside : Beside r p b) (c : Call) :
    (b.called c).2.bps_last_not_triggered = (r.byte_check c).2 := by
  have off := packet_check_off (c := c) beside.bytes.pps_trigger
  rw [called_bps_clock,off,byte_check_copy beside]
  rfl

theorem same_thresholds_copies (beside : Beside r p b) (c : Call) :
    SameThresholds (r.called c).2.packets_only (p.called c).2 ∧ SameThresholds (r.called c).2.bytes_only (b.called c).2 := by
  have same := same_thresholds_called (c := c) (same_thresholds r)
  have packets := same_thresholds_called (c := c) beside.packets
  have bytes := same_thresholds_called (c := c) beside.bytes
  exact ⟨⟨packets.1.trans same.1.symm,packets.2,packets.3.trans same.3.symm,packets.4.trans same.4.symm⟩,
    ⟨bytes.1,bytes.2.trans same.2.symm,bytes.3.trans same.3.symm,bytes.4.trans same.4.symm⟩⟩

/-- An undisturbed call keeps the clocks together. -/
theorem beside_called (packets : 0 < r.pps_trigger) (bytes : 0 < r.bps_trigger) (beside : Beside r p b)
    (undisturbed : Undisturbed r c) : Beside (r.called c).2 (p.called c).2 (b.called c).2 := by
  obtain ⟨same_packets,same_bytes⟩ := same_thresholds_copies beside c
  refine ⟨same_packets,same_bytes,?_,?_⟩
  · rw [called_pps_clock,called_pps_clock,packet_check_copy beside]
  · rw [byte_clock_copy beside,called_bps_clock]
    split_ifs with alarm
    · exact (undisturbed_iff packets bytes).mp undisturbed alarm
    · rfl

theorem triggers_called (packets : 0 < r.pps_trigger) (bytes : 0 < r.bps_trigger) (c : Call) :
    0 < (r.called c).2.pps_trigger ∧ 0 < (r.called c).2.bps_trigger := by
  have same := same_thresholds_called (c := c) (same_thresholds r)
  rw [same.pps_trigger,same.bps_trigger]
  exact ⟨packets,bytes⟩

theorem outcomes_cons (r : BaseRule) (c : Call) (calls : List Call) :
    r.outcomes (c :: calls) = (r.called c).1 :: (r.called c).2.outcomes calls := rfl

/-- Steady calls, and any one after them, are answered as the copies answer them. -/
theorem outcomes_steady (packets : 0 < r.pps_trigger) (bytes : 0 < r.bps_trigger) (beside : Beside r p b)
    {calls : List Call} (steady : Steady r calls) (next : List Call) (one : next.length ≤ 1) :
    r.outcomes (calls ++ next) = List.zipWith or (p.outcomes (calls ++ next)) (b.outcomes (calls ++ next)) := by
  induction calls generalizing r p b with
  | nil =>
    match next, one with
    | [], _ => rfl
    | [c], _ =>
      rw [List.nil_append,outcomes_cons,outcomes_cons,outcomes_cons,called_beside beside]
      rfl
  | cons c calls ih =>
    obtain ⟨undisturbed,steady⟩ := steady
    obtain ⟨packets',bytes'⟩ := triggers_called packets bytes c
    rw [List.cons_append,outcomes_cons,outcomes_cons,outcomes_cons,List.zipWith_cons_cons,called_beside beside,
      ih packets' bytes' (beside_called packets bytes beside undisturbed) steady]

/-- After a disturbed call the byte clocks differ; without packets, this call finds the
    byte period over for one of them only. -/
def telling (r : BaseRule) (c : Call) : Call where
  time := max c.time (min c.time r.bps_last_not_triggered + r.bps_trigger_period.toNat + 1)
  pps := 0
  bps := 0xFFFFFFFFFFFFFFFF
  dst_top := c.dst_top
  known := c.known

theorem packet_check_telling (s r : BaseRule) (c : Call) : (s.packet_check (telling r c)).1 = false := by
  rw [Bool.eq_false_iff]
  intro alarm
  have high := (threshold_alarm alarm).2
  simp [Debounce.check,telling] at high

theorem byte_check_telling {s : BaseRule} (set : 0 < s.bps_trigger) (r : BaseRule) (c : Call) :
    (s.byte_check (telling r c)).1 = true ↔
      (s.bps_trigger_period.toNat : Int) < (telling r c).time - s.bps_last_not_triggered := by
  have high : s.bps_trigger.toUInt64 < (telling r c).bps := by
    have small := s.bps_trigger.toNat_lt
    rw [UInt64.lt_iff_toNat_lt,UInt32.toNat_toUInt64]
    show s.bps_trigger.toNat < 18446744073709551615
    omega
  rw [byte_check,threshold_raises_iff set,and_iff_right high]

theorem telling_differs {r : BaseRule} {c : Call} (apart : c.time ≠ r.bps_last_not_triggered) :
    ¬ ((r.bps_trigger_period.toNat : Int) < (telling r c).time - r.bps_last_not_triggered ↔
      (r.bps_trigger_period.toNat : Int) < (telling r c).time - c.time) := by
  simp only [telling]
  omega

/-- A disturbed call is told by the call after it. -/
theorem disturbed_differs (packets : 0 < r.pps_trigger) (bytes : 0 < r.bps_trigger) (beside : Beside r p b)
    (disturbed : ¬ Undisturbed r c) : r.outcomes [c,telling r c] ≠
      List.zipWith or (p.outcomes [c,telling r c]) (b.outcomes [c,telling r c]) := by
  intro same
  rw [undisturbed_iff packets bytes,Classical.not_imp] at disturbed
  obtain ⟨alarm,moved⟩ := disturbed
  have set : (r.byte_check c).2 = c.time := threshold_clock_next.resolve_left moved
  have thresholds := same_thresholds_called (c := c) (same_thresholds r)
  have copy := same_thresholds_called (c := c) beside.bytes
  -- the rule's byte clock has stayed, the copy's stands at the call
  have clock : (r.called c).2.bps_last_not_triggered = r.bps_last_not_triggered := by rw [called_bps_clock,alarm]; rfl
  have copy_clock : (b.called c).2.bps_last_not_triggered = c.time := by rw [byte_clock_copy beside,set]
  have set_rule : 0 < (r.called c).2.bps_trigger := thresholds.bps_trigger ▸ bytes
  have set_copy : 0 < (b.called c).2.bps_trigger := copy.bps_trigger ▸ bytes
  have quiet_p : ((p.called c).2.byte_check (telling r c)).1 = false := by
    have off : (p.called c).2.bps_trigger = 0 :=
      (same_thresholds_called (c := c) beside.packets).bps_trigger
    rw [byte_check_off off]
  have answers : ((r.called c).2.byte_check (telling r c)).1 = ((b.called c).2.byte_check (telling r c)).1 := by
    have second := congrArg (fun answers => answers[1]?) same
    simpa [outcomes,Debounce.trace,called_fst,packet_check_telling,quiet_p] using second
  have told := byte_check_telling set_rule r c
  rw [answers,byte_check_telling set_copy r c,clock,copy_clock,thresholds.bps_trigger_period,copy.bps_trigger_period] at told
  exact telling_differs (fun at_clock => moved (set.trans at_clock)) told.symm

theorem steady_of_outcomes (packets : 0 < r.pps_trigger) (bytes : 0 < r.bps_trigger) (beside : Beside r p b)
    {calls : List Call} (ordered : calls.Pairwise fun a b => a.time ≤ b.time) (bound : Int)
    (later : ∀ c ∈ calls, bound ≤ c.time)
    (same : ∀ seen next, seen <+: calls → (seen ++ [next]).Pairwise (fun a b => a.time ≤ b.time) → bound ≤ next.time →
      r.outcomes (seen ++ [next]) = List.zipWith or (p.outcomes (seen ++ [next])) (b.outcomes (seen ++ [next]))) :
    Steady r calls := by
  induction calls generalizing r p b bound with
  | nil => trivial
  | cons c calls ih =>
    obtain ⟨first,ordered⟩ := List.pairwise_cons.mp ordered
    have undisturbed : Undisturbed r c := by
      by_contra disturbed
      have forward : c.time ≤ (telling r c).time := le_max_left _ _
      refine disturbed_differs packets bytes beside disturbed (same [c] (telling r c) ⟨calls,rfl⟩ ?_ ?_)
      · simpa using forward
      · exact (later c (by simp)).trans forward
    obtain ⟨packets',bytes'⟩ := triggers_called packets bytes c
    refine ⟨undisturbed,ih packets' bytes' (beside_called packets bytes beside undisturbed) ordered c.time first ?_⟩
    intro seen next part ascending forward
    have all : ∀ d ∈ seen ++ [next], c.time ≤ d.time := by
      intro d member
      rcases List.mem_append.mp member with old | new
      · exact first d (part.subset old)
      · exact List.mem_singleton.mp new ▸ forward
    have answers := same (c :: seen) next (List.cons_prefix_cons.mpr ⟨rfl,part⟩)
      (List.pairwise_cons.mpr ⟨all,ascending⟩) ((later c (by simp)).trans forward)
    rw [List.cons_append,outcomes_cons,outcomes_cons,outcomes_cons,List.zipWith_cons_cons] at answers
    exact (List.cons.inj answers).2

theorem steady_of_part {seen calls : List Call} (part : seen <+: calls) (steady : Steady r calls) : Steady r seen := by
  induction seen generalizing r calls with
  | nil => trivial
  | cons c seen ih =>
    obtain ⟨more,rfl⟩ := part
    exact ⟨steady.1,ih ⟨more,rfl⟩ steady.2⟩

/-- A rule with two thresholds answers as its copies do if every call is undisturbed;
    and only then, if what comes after each of the calls is to be answered so as well. -/
theorem thresholds_independent_iff {r : BaseRule} (packets : 0 < r.pps_trigger) (bytes : 0 < r.bps_trigger)
    {calls : List Call} (ordered : calls.Pairwise fun a b => a.time ≤ b.time) :
    (Steady r calls → Independent r calls) ∧
      ((∀ seen next, seen <+: calls → (seen ++ [next]).Pairwise (fun a b => a.time ≤ b.time) →
        Independent r (seen ++ [next])) ↔ Steady r calls) := by
  have beside := beside_copies r
  refine ⟨fun steady => ?_,fun same => ?_,fun steady seen next part ascending => ?_⟩
  · simpa [Independent] using outcomes_steady packets bytes beside steady [] (by simp)
  · cases calls with
    | nil => trivial
    | cons c calls =>
      have later : ∀ d ∈ c :: calls, c.time ≤ d.time := by
        intro d member
        rcases List.mem_cons.mp member with rfl | member
        · exact le_refl _
        · exact (List.pairwise_cons.mp ordered).1 d member
      exact steady_of_outcomes packets bytes beside ordered c.time later fun seen next part ascending _ =>
        same seen next part ascending
  · exact outcomes_steady packets bytes beside (steady_of_part part steady) [next] (by simp)

/-- More than one packet or byte in a second, each for ten seconds. -/
def sample_thresholds : BaseRule := { pps_trigger := 1, bps_trigger := 1 }

/-- One second after a packet alarm without bytes, the rule raises a byte alarm that
    none of its copies raises. -/
theorem byte_alarm_early :
    ¬ ∀ (r : BaseRule) (calls : List Call), 0 < r.pps_trigger → 0 < r.bps_trigger →
      calls.Pairwise (fun a b => a.time ≤ b.time) → Independent r calls := by
  intro independent
  have two : ([sample_call 100 5 0,sample_call 101 0 5]).Pairwise (fun a b => a.time ≤ b.time) := by
    simp [sample_call]
  have same : _ = List.zipWith or _ _ :=
    independent sample_thresholds [sample_call 100 5 0,sample_call 101 0 5] (by decide) (by decide) two
  exact absurd same (by decide)

/-- A packet alarm while the bytes have not been high for long, and a byte alarm after it. -/
def both_calls : List Call := [sample_call 100 0 0,sample_call 105 5 0,sample_call 111 5 5,sample_call 116 0 5]

theorem thresholds_independent_both : sample_thresholds.outcomes both_calls = [false,false,true,true] ∧
    Independent sample_thresholds both_calls ∧
    ∀ seen next, seen <+: both_calls → (seen ++ [next]).Pairwise (fun a b => a.time ≤ b.time) →
      Independent sample_thresholds (seen ++ [next]) := by
  have ordered : both_calls.Pairwise fun a b => a.time ≤ b.time := by simp [both_calls,sample_call]
  have steady : Steady sample_thresholds both_calls := by
    refine ⟨?_,?_,?_,?_,trivial⟩ <;> decide
  obtain ⟨independent,next_iff⟩ := thresholds_independent_iff (r := sample_thresholds) (by decide) (by decide) ordered
  exact ⟨by decide,independent steady,next_iff.mpr steady⟩

end BaseRule
end DdosDetector
