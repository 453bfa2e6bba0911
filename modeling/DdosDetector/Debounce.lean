import Mathlib

/-!
An alarm on a signal that stays high. A clock remembers the last sample that was low
or that found the period over; a high sample that comes more than a period after it
finds the period over. Until its first such sample the clock stands at its start, which
no sample has set.
-/
namespace DdosDetector.Debounce
universe u
set_option linter.unusedSectionVars false

structure Sample (Time : Type u) where
  time : Time
  high : Bool

variable {Time : Type u} [AddCommGroup Time] [LinearOrder Time] [IsOrderedAddMonoid Time]

/-- Whether a sample finds the period over, and the clock afterwards. -/
def check (period last : Time) (s : Sample Time) : Bool × Time :=
  if s.high then if period < s.time - last then (true, s.time) else (false, last) else (false, s.time)

/-- The clock after the samples: still at its start, all samples having been high and
    within the period, or at the time of a sample after which all were high. -/
def Tracks (start period : Time) (seen : List (Sample Time)) (last : Time) : Prop :=
  (last = start ∧ ∀ c ∈ seen, c.high = true ∧ c.time - start ≤ period) ∨
    (∃ c ∈ seen, c.time = last) ∧ ∀ c ∈ seen, last < c.time → c.high = true

theorem tracks_nil (start period : Time) : Tracks start period [] start :=
  .inl ⟨rfl, fun c member => by simp at member⟩

/-- A clock set to the time of the latest sample is tracked. -/
theorem tracks_latest {start period : Time} {seen : List (Sample Time)} {s : Sample Time}
    (later : ∀ c ∈ seen, c.time ≤ s.time) : Tracks start period (seen ++ [s]) s.time := by
  refine .inr ⟨⟨s, by simp, rfl⟩, ?_⟩
  intro c member after
  rcases List.mem_append.mp member with old | new
  · exact absurd after (not_lt.mpr (later c old))
  · rw [List.mem_singleton.mp new] at after
    exact absurd after (lt_irrefl _)

/-- Each sample keeps the clock tracked. -/
theorem tracks_check {start period last : Time} {seen : List (Sample Time)} {s : Sample Time}
    (tracks : Tracks start period seen last) (later : ∀ c ∈ seen, c.time ≤ s.time) :
    Tracks start period (seen ++ [s]) (check period last s).2 := by
  unfold check
  split_ifs with high elapsed
  · exact tracks_latest later
  · have within : s.time - last ≤ period := not_lt.mp elapsed
    rcases tracks with ⟨rfl, all⟩ | ⟨⟨c, member, set⟩, since⟩
    · refine .inl ⟨rfl, ?_⟩
      intro c member
      rcases List.mem_append.mp member with old | new
      · exact all c old
      · rw [List.mem_singleton.mp new]
        exact ⟨high, within⟩
    · refine .inr ⟨⟨c, by simp [member], set⟩, ?_⟩
      intro d found after
      rcases List.mem_append.mp found with old | new
      · exact since d old after
      · rw [List.mem_singleton.mp new]
        exact high
  · exact tracks_latest later

theorem check_elapsed {period last : Time} {s : Sample Time} (elapsed : (check period last s).1 = true) :
    s.high = true ∧ last < s.time - period := by
  unfold check at elapsed
  split_ifs at elapsed with high longer
  exact ⟨high, lt_sub_comm.mp longer⟩

/-- A sample that finds the period over tells that the signal was high at every
    sample within the period. -/
theorem high_within {start period last : Time} {seen : List (Sample Time)} {s : Sample Time}
    (tracks : Tracks start period seen last) (elapsed : (check period last s).1 = true) :
    ∀ c ∈ seen ++ [s], s.time - period ≤ c.time → c.high = true := by
  obtain ⟨high, before⟩ := check_elapsed elapsed
  intro c member within
  rcases List.mem_append.mp member with old | new
  · rcases tracks with ⟨_, all⟩ | ⟨_, since⟩
    · exact (all c old).1
    · exact since c old (before.trans_le within)
  · rw [List.mem_singleton.mp new]
    exact high

/-- It does not tell of an earlier sample, since the clock may still be at its start.
    There is one at the beginning of the period or before it if any sample was later
    than a period after the start. -/
theorem sampled_before_iff {start period last : Time} {seen : List (Sample Time)} {s : Sample Time}
    (tracks : Tracks start period seen last) (elapsed : (check period last s).1 = true) :
    (∃ c ∈ seen, c.time ≤ s.time - period) ↔
      ∃ c ∈ seen, period < c.time - start ∨ c.time ≤ s.time - period := by
  obtain ⟨_, before⟩ := check_elapsed elapsed
  constructor
  · rintro ⟨c, member, ago⟩
    exact ⟨c, member, .inr ago⟩
  · rintro ⟨c, member, reason⟩
    rcases tracks with ⟨_, all⟩ | ⟨⟨d, set_by, set⟩, _⟩
    · exact ⟨c, member, reason.resolve_left (not_lt.mpr (all c member).2)⟩
    · exact ⟨d, set_by, set ▸ before.le⟩

/-! ### Machines that answer with alarms -/

section machine
variable {State Call : Type u}

/-- The answers of a machine to the calls, in order. -/
def trace (step : State → Call → Bool × State) (s : State) : List Call → List (Call × Bool)
  | [] => []
  | c :: calls => (c, (step s c).1) :: trace step (step s c).2 calls

/-- The state of a machine after the calls. -/
def after (step : State → Call → Bool × State) (s : State) (calls : List Call) : State :=
  calls.foldl (fun s c => (step s c).2) s

theorem after_snoc (step : State → Call → Bool × State) (s : State) (calls : List Call) (c : Call) :
    after step s (calls ++ [c]) = (step (after step s calls) c).2 := by
  simp [after]

theorem trace_snoc (step : State → Call → Bool × State) (s : State) (calls : List Call) (c : Call) :
    trace step s (calls ++ [c]) = trace step s calls ++ [(c, (step (after step s calls) c).1)] := by
  induction calls generalizing s with
  | nil => rfl
  | cons d calls ih => exact congrArg _ (ih (step s d).2)

/-- What is seen of a machine is a machine, if it steps alike. -/
theorem trace_map {Seen Look : Type u} {step : State → Call → Bool × State} {seen_step : Seen → Look → Bool × Seen}
    {seen : State → Seen} {look : Call → Look}
    (alike : ∀ s c, seen_step (seen s) (look c) = ((step s c).1, seen (step s c).2)) (s : State) (calls : List Call) :
    (trace step s calls).map (fun answer => (look answer.1, answer.2)) = trace seen_step (seen s) (calls.map look) := by
  induction calls generalizing s with
  | nil => rfl
  | cons c calls ih =>
    simp only [trace, List.map_cons, alike, ih]

/-- A machine with a clock that is set to the times of calls only. -/
structure Clocked (step : State → Call → Bool × State) (time : Call → Time) (clock : State → Time)
    (Inv : State → Prop) : Prop where
  keeps : ∀ {s c}, Inv s → Inv (step s c).2
  clock_next : ∀ {s c}, Inv s → clock (step s c).2 = clock s ∨ clock (step s c).2 = time c

/-- It answers every excess that lasts: at a call that sees a high signal and gets no
    alarm the clock stays, the period not being over. -/
structure Watches (step : State → Call → Bool × State) (time : Call → Time) (clock : State → Time)
    (Inv : State → Prop) (period : Time) (high : Call → Prop) : Prop extends Clocked step time clock Inv where
  silent : ∀ {s c}, Inv s → high c → (step s c).1 = false → clock (step s c).2 = clock s ∧ time c - clock s ≤ period

/-- It raises no alarm before the period is over. -/
structure Waits (step : State → Call → Bool × State) (time : Call → Time) (clock : State → Time)
    (Inv : State → Prop) (period : Time) : Prop extends Clocked step time clock Inv where
  fired : ∀ {s c}, Inv s → (step s c).1 = true → clock (step s c).2 = time c ∧ period < time c - clock s

variable {step : State → Call → Bool × State} {time : Call → Time} {clock : State → Time} {period : Time}
  {high : Call → Prop} {Inv : State → Prop}

/-- A signal that is high at all calls since `t0`, and at one more than a period after,
    gets an alarm. -/
theorem alarm_within (watches : Watches step time clock Inv period high) {t0 t : Time} (long : period < t - t0)
    {s : State} (inv : Inv s) (behind : clock s ≤ t0) {calls : List Call}
    (ordered : calls.Pairwise fun a b => time a ≤ time b) (called : ∃ c ∈ calls, time c = t) (after : t0 < t)
    (sustained : ∀ c ∈ calls, t0 < time c → time c ≤ t → high c) :
    ∃ answer ∈ trace step s calls, t0 < time answer.1 ∧ time answer.1 ≤ t ∧ answer.2 = true := by
  induction calls generalizing s with
  | nil => simp at called
  | cons c calls ih =>
    obtain ⟨first, ordered⟩ := List.pairwise_cons.mp ordered
    have inv' := watches.keeps (c := c) inv
    have later : ∀ d ∈ calls, t0 < time d → time d ≤ t → high d := fun d member => sustained d (by simp [member])
    by_cases early : time c ≤ t0
    · -- no call up to `t0` moves the clock past `t0`
      have behind' : clock (step s c).2 ≤ t0 := by
        rcases watches.clock_next (c := c) inv with kept | set
        · exact kept.le.trans behind
        · exact set.le.trans early
      have remaining : ∃ d ∈ calls, time d = t := by
        obtain ⟨d, member, here⟩ := called
        rcases List.mem_cons.mp member with rfl | member
        · exact absurd (here ▸ early) (not_le.mpr after)
        · exact ⟨d, member, here⟩
      obtain ⟨answer, member, within⟩ := ih inv' behind' ordered remaining later
      exact ⟨answer, List.mem_cons_of_mem _ member, within⟩
    · have begun : t0 < time c := not_le.mp early
      have within : time c ≤ t := by
        obtain ⟨d, member, here⟩ := called
        rcases List.mem_cons.mp member with rfl | member
        · exact here.le
        · exact here ▸ first d member
      cases answer : (step s c).1 with
      | true => exact ⟨(c, true), by simp [trace, answer], begun, within, rfl⟩
      | false =>
        obtain ⟨kept, waiting⟩ := watches.silent inv (sustained c (by simp) begun within) answer
        have remaining : ∃ d ∈ calls, time d = t := by
          obtain ⟨d, member, here⟩ := called
          rcases List.mem_cons.mp member with rfl | member
          · have elapsed : t - t0 ≤ time d - clock s := here ▸ sub_le_sub_left behind t
            exact absurd (elapsed.trans waiting) (not_le.mpr long)
          · exact ⟨d, member, here⟩
        obtain ⟨answer, member, within⟩ := ih inv' (kept.le.trans behind) ordered remaining later
        exact ⟨answer, List.mem_cons_of_mem _ member, within⟩

/-- All alarms come more than a period after what the clock stands at. -/
theorem alarm_after (waits : Waits step time clock Inv period) {t : Time} {s : State} (inv : Inv s) (since : t ≤ clock s)
    {calls : List Call} (later : ∀ c ∈ calls, t ≤ time c) :
    ∀ answer ∈ trace step s calls, answer.2 = true → period < time answer.1 - t := by
  induction calls generalizing s with
  | nil => simp [trace]
  | cons c calls ih =>
    intro answer member alarm
    rcases List.mem_cons.mp member with rfl | member
    · exact (waits.fired inv alarm).2.trans_le (sub_le_sub_left since (time c))
    · have since' : t ≤ clock (step s c).2 := by
        rcases waits.clock_next (c := c) inv with kept | set
        · exact since.trans kept.ge
        · exact (later c (by simp)).trans set.ge
      exact ih (waits.keeps inv) since' (fun d found => later d (by simp [found])) answer member alarm

/-- Any two alarms are more than a period apart. -/
theorem alarms_apart (waits : Waits step time clock Inv period) {s : State} (inv : Inv s) {calls : List Call}
    (ordered : calls.Pairwise fun a b => time a ≤ time b) : (trace step s calls).Pairwise fun a b =>
      a.2 = true → b.2 = true → period < time b.1 - time a.1 := by
  induction calls generalizing s with
  | nil => exact .nil
  | cons c calls ih =>
    obtain ⟨first, ordered⟩ := List.pairwise_cons.mp ordered
    refine List.pairwise_cons.mpr ⟨fun b member alarm => ?_, ih (waits.keeps inv) ordered⟩
    obtain ⟨set, _⟩ := waits.fired inv alarm
    exact alarm_after waits (waits.keeps inv) set.ge first b member

end machine

end DdosDetector.Debounce
