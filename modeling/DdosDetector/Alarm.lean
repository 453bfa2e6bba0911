import DdosDetector.Debounce
import DdosDetector.Provenance

/-!
What an alarm says about the time before it. Each threshold of a rule is an alarm on
a signal that stays high; the clocks start at 0, which no check has set, and the byte
threshold is not looked at when the packet threshold raises an alarm. The checks of a
rule are followed from the moment it enters main, through edits that move it.
-/
namespace DdosDetector

/-- What a check of a rule sees: when, which rates, and whether it looks at the byte
    threshold. -/
structure Check where
  time : Int
  pps : UInt64
  bps : UInt64
  looked : Bool
deriving DecidableEq

def BaseRule.checked (r : BaseRule) (cur_time : Int) : Check := ⟨cur_time,r.pps,r.bps,!(r.pps_check cur_time).1⟩

/-- What the thresholds of a rule go by: their parameters and clocks. -/
structure TriggerState where
  pps_trigger : UInt32
  bps_trigger : UInt32
  pps_trigger_period : UInt32
  bps_trigger_period : UInt32
  pps_last_not_triggered : Int
  bps_last_not_triggered : Int

def BaseRule.trigger_state (r : BaseRule) : TriggerState :=
  ⟨r.pps_trigger,r.bps_trigger,r.pps_trigger_period,r.bps_trigger_period,r.pps_last_not_triggered,
    r.bps_last_not_triggered⟩

def packet_samples (trigger : UInt32) (checks : List Check) : List (Debounce.Sample Int) :=
  checks.map fun c => ⟨c.time,decide (trigger.toUInt64 < c.pps)⟩

/-- Only checks that look at the byte threshold count for it. -/
def byte_samples (trigger : UInt32) (checks : List Check) : List (Debounce.Sample Int) :=
  (checks.filter Check.looked).map fun c => ⟨c.time,decide (trigger.toUInt64 < c.bps)⟩

theorem mem_packet_samples (trigger : UInt32) {checks : List Check} {c : Check} (member : c ∈ checks) :
    ⟨c.time,decide (trigger.toUInt64 < c.pps)⟩ ∈ packet_samples trigger checks :=
  List.mem_map_of_mem member

theorem mem_byte_samples (trigger : UInt32) {checks : List Check} {c : Check} (member : c ∈ checks)
    (looked : c.looked = true) : ⟨c.time,decide (trigger.toUInt64 < c.bps)⟩ ∈ byte_samples trigger checks :=
  List.mem_map_of_mem (List.mem_filter.mpr ⟨member,looked⟩)

theorem packet_samples_checked (trigger : UInt32) (checks : List Check) (r : BaseRule) (t : Int) :
    packet_samples trigger (checks ++ [r.checked t]) =
      packet_samples trigger checks ++ [⟨t,decide (trigger.toUInt64 < r.pps)⟩] :=
  List.map_append

theorem byte_samples_checked (trigger : UInt32) (checks : List Check) {r : BaseRule} {t : Int}
    (looked : (r.pps_check t).1 = false) : byte_samples trigger (checks ++ [r.checked t]) =
      byte_samples trigger checks ++ [⟨t,decide (trigger.toUInt64 < r.bps)⟩] := by
  have kept : [r.checked t].filter Check.looked = [r.checked t] := by simp [BaseRule.checked,looked]
  rw [byte_samples,List.filter_append,List.map_append,kept]
  rfl

theorem byte_samples_skipped (trigger : UInt32) (checks : List Check) {r : BaseRule} {t : Int}
    (alarm : (r.pps_check t).1 = true) :
    byte_samples trigger (checks ++ [r.checked t]) = byte_samples trigger checks := by
  simp [byte_samples,BaseRule.checked,alarm]

/-- The clocks are what the checks so far have made of them. -/
structure Tracked (latest : Int) (t : TriggerState) (checks : List Check) : Prop where
  times : ∀ c ∈ checks, c.time ≤ latest
  packets : 0 < t.pps_trigger → Debounce.Tracks 0 (t.pps_trigger_period.toNat : Int)
    (packet_samples t.pps_trigger checks) t.pps_last_not_triggered
  bytes : 0 < t.bps_trigger → Debounce.Tracks 0 (t.bps_trigger_period.toNat : Int)
    (byte_samples t.bps_trigger checks) t.bps_last_not_triggered

/-- Both clocks stand at their start. -/
def Fresh (r : BaseRule) : Prop := r.pps_last_not_triggered = 0 ∧ r.bps_last_not_triggered = 0

theorem tracked_fresh {r : BaseRule} (fresh : Fresh r) (latest : Int) : Tracked latest r.trigger_state [] where
  times := by simp
  packets _ := by
    rw [show r.trigger_state.pps_last_not_triggered = 0 from fresh.1]
    exact Debounce.tracks_nil 0 _
  bytes _ := by
    rw [show r.trigger_state.bps_last_not_triggered = 0 from fresh.2]
    exact Debounce.tracks_nil 0 _

theorem tracked_later {latest latest' : Int} {t : TriggerState} {checks : List Check} (tracked : Tracked latest t checks)
    (later : latest ≤ latest') : Tracked latest' t checks :=
  ⟨fun c member => (tracked.times c member).trans later,tracked.packets,tracked.bytes⟩

/-- A threshold that is set is an alarm on the excess, raised where a destination is
    known. -/
theorem threshold_eq {trigger : UInt32} (set : 0 < trigger) (rate : UInt64) (last : Int) (period : UInt32) (t : Int)
    (known : Bool) : threshold trigger rate last period t known =
      ((Debounce.check (period.toNat : Int) last ⟨t,decide (trigger.toUInt64 < rate)⟩).1 && known,
        (Debounce.check (period.toNat : Int) last ⟨t,decide (trigger.toUInt64 < rate)⟩).2) := by
  have on : trigger > 0 := set
  simp only [threshold,Debounce.check,on,↓reduceIte,gt_iff_lt,decide_eq_true_eq]
  split_ifs <;> simp

theorem threshold_alarm {trigger : UInt32} {rate : UInt64} {last : Int} {period : UInt32} {t : Int} {known : Bool}
    (alarm : (threshold trigger rate last period t known).1 = true) :
    0 < trigger ∧ (Debounce.check (period.toNat : Int) last ⟨t,decide (trigger.toUInt64 < rate)⟩).1 = true := by
  by_cases set : 0 < trigger
  · rw [threshold_eq set,Bool.and_eq_true] at alarm
    exact ⟨set,alarm.1⟩
  · have off : ¬ trigger > 0 := set
    simp [threshold,off] at alarm

theorem trigger_state_is_triggered (r : BaseRule) (t : Int) :
    (r.is_triggered t).2.trigger_state = { r.trigger_state with
      pps_last_not_triggered := (r.pps_check t).2
      bps_last_not_triggered :=
        if (r.pps_check t).1 then r.bps_last_not_triggered else (r.bps_check t).2 } := by
  unfold BaseRule.is_triggered
  split_ifs <;> rfl

/-- Each check keeps the clocks tracked. -/
theorem tracked_check {latest : Int} {r : BaseRule} {checks : List Check}
    (tracked : Tracked latest r.trigger_state checks) {t : Int} (later : latest ≤ t) :
    Tracked t (r.is_triggered t).2.trigger_state (checks ++ [r.checked t]) := by
  have before : ∀ c ∈ checks, c.time ≤ t := fun c member => (tracked.times c member).trans later
  rw [trigger_state_is_triggered]
  constructor
  · intro c member
    rcases List.mem_append.mp member with old | new
    · exact before c old
    · rw [List.mem_singleton.mp new]
      exact le_refl t
  · intro set
    have on : 0 < r.pps_trigger := set
    have samples : ∀ s ∈ packet_samples r.pps_trigger checks, s.time ≤ t := by
      intro s member
      obtain ⟨c,old,rfl⟩ := List.mem_map.mp member
      exact before c old
    show Debounce.Tracks 0 _ (packet_samples r.pps_trigger (checks ++ [r.checked t])) (r.pps_check t).2
    rw [packet_samples_checked,BaseRule.pps_check,threshold_eq on]
    exact Debounce.tracks_check (tracked.packets on) samples
  · intro set
    have on : 0 < r.bps_trigger := set
    have samples : ∀ s ∈ byte_samples r.bps_trigger checks, s.time ≤ t := by
      intro s member
      obtain ⟨c,old,rfl⟩ := List.mem_map.mp member
      exact before c (List.mem_of_mem_filter old)
    cases alarm : (r.pps_check t).1 with
    | true =>
      simp only [↓reduceIte]
      rw [byte_samples_skipped _ _ alarm]
      exact tracked.bytes on
    | false =>
      show Debounce.Tracks 0 _ (byte_samples r.bps_trigger (checks ++ [r.checked t])) (r.bps_check t).2
      rw [byte_samples_checked _ _ alarm,BaseRule.bps_check,threshold_eq on]
      exact Debounce.tracks_check (tracked.bytes on) samples

/-! ### What an alarm tells -/

/-- The rule had been checked a period before `t` or earlier, and each check since then
    saw more packets than the threshold allows. -/
def PacketSustained (r : BaseRule) (checks : List Check) (t : Int) : Prop :=
  (∃ c ∈ checks, c.time ≤ t - r.pps_trigger_period.toNat) ∧
    ∀ c ∈ checks ++ [r.checked t], t - r.pps_trigger_period.toNat ≤ c.time → r.pps_trigger.toUInt64 < c.pps

/-- The same for bytes. -/
def ByteSustained (r : BaseRule) (checks : List Check) (t : Int) : Prop :=
  (∃ c ∈ checks, c.time ≤ t - r.bps_trigger_period.toNat) ∧
    ∀ c ∈ checks ++ [r.checked t], t - r.bps_trigger_period.toNat ≤ c.time → r.bps_trigger.toUInt64 < c.bps

/-- The rule has been checked before: at a time past the period, or a period before `t`. -/
def CheckedBefore (r : BaseRule) (checks : List Check) (t : Int) : Prop :=
  ∃ c ∈ checks, (r.pps_trigger_period.toNat : Int) < c.time ∨ c.time ≤ t - r.pps_trigger_period.toNat

/-- The byte threshold has been looked at before, at a time past the period, or the
    rule was checked a period before `t`; and every check since then that raised a
    packet alarm instead saw more bytes than the threshold allows. -/
def LookedBefore (r : BaseRule) (checks : List Check) (t : Int) : Prop :=
  (∃ c ∈ checks, (c.looked = true ∧ (r.bps_trigger_period.toNat : Int) < c.time) ∨
      c.time ≤ t - r.bps_trigger_period.toNat) ∧
    ∀ c ∈ checks, c.looked = false → t - r.bps_trigger_period.toNat ≤ c.time → r.bps_trigger.toUInt64 < c.bps

theorem packet_sustained_iff {latest : Int} {r : BaseRule} {checks : List Check}
    (tracked : Tracked latest r.trigger_state checks) {t : Int} (alarm : (r.pps_check t).1 = true) :
    PacketSustained r checks t ↔ CheckedBefore r checks t := by
  obtain ⟨set,elapsed⟩ := threshold_alarm alarm
  have tracks := tracked.packets set
  have high := Debounce.high_within tracks elapsed
  have ago := Debounce.sampled_before_iff tracks elapsed
  have second : ∀ c ∈ checks ++ [r.checked t], t - r.pps_trigger_period.toNat ≤ c.time →
      r.pps_trigger.toUInt64 < c.pps := by
    intro c member within
    have sampled := mem_packet_samples r.pps_trigger member
    rw [packet_samples_checked] at sampled
    exact of_decide_eq_true (high _ sampled within)
  rw [PacketSustained,and_iff_left second]
  simpa [packet_samples,CheckedBefore,BaseRule.trigger_state] using ago

theorem byte_sustained_iff {latest : Int} {r : BaseRule} {checks : List Check}
    (tracked : Tracked latest r.trigger_state checks) {t : Int} (no_packet_alarm : (r.pps_check t).1 = false)
    (alarm : (r.bps_check t).1 = true) : ByteSustained r checks t ↔ LookedBefore r checks t := by
  obtain ⟨set,elapsed⟩ := threshold_alarm alarm
  have tracks := tracked.bytes set
  have high := Debounce.high_within tracks elapsed
  have ago := Debounce.sampled_before_iff tracks elapsed
  have looked_high : ∀ c ∈ checks ++ [r.checked t], c.looked = true → t - r.bps_trigger_period.toNat ≤ c.time →
      r.bps_trigger.toUInt64 < c.bps := by
    intro c member looked within
    have sampled := mem_byte_samples r.bps_trigger member looked
    rw [byte_samples_checked _ _ no_packet_alarm] at sampled
    exact of_decide_eq_true (high _ sampled within)
  constructor
  · rintro ⟨⟨c,member,before⟩,all⟩
    exact ⟨⟨c,member,.inr before⟩,fun d found _ within => all d (by simp [found]) within⟩
  · rintro ⟨⟨c,member,reason⟩,skipped_high⟩
    constructor
    · rcases reason with ⟨looked,late⟩ | before
      · have sampled : ∃ s ∈ byte_samples r.bps_trigger checks,
            (r.bps_trigger_period.toNat : Int) < s.time - 0 ∨ s.time ≤ t - r.bps_trigger_period.toNat :=
          ⟨_,mem_byte_samples r.bps_trigger member looked,.inl (by simpa using late)⟩
        obtain ⟨s,found,before⟩ := ago.mpr sampled
        obtain ⟨d,kept,rfl⟩ := List.mem_map.mp found
        exact ⟨d,List.mem_of_mem_filter kept,before⟩
      · exact ⟨c,member,before⟩
    · intro d found within
      cases looked : d.looked with
      | true => exact looked_high d found looked within
      | false =>
        rcases List.mem_append.mp found with old | new
        · exact skipped_high d old looked within
        · rw [List.mem_singleton.mp new] at looked
          simp [BaseRule.checked,no_packet_alarm] at looked

end DdosDetector
