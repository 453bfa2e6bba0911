import DdosDetector.Sharding
import DdosDetector.Simulations

/-!
The iterations of the watcher. Whatever the receivers, the console and the loader do in
between, the watcher comes round within a number of its own steps that the number of
threads tells, unless a merge throws.
-/
namespace DdosDetector
namespace Daemon
variable {platform : Platform} {a : Label} {s s' : Daemon} {now : time_point} {clock : Nat → Int}

/-! ### What is left of an iteration -/

/-- The steps that the watcher has left in an iteration over `n` threads, at most: up to
    twelve for each thread, three for the rates, three for the snapshot, one for the gate
    and three for the triggers. -/
def left (n : Nat) : Pc → Nat
  | .compare i p => 12 * (n - i - 1) + (22 - p.index)
  | .copy i p => 12 * (n - i - 1) + (19 - p.index)
  | .stamp i p => 12 * (n - i - 1) + (16 - 2 * p.index)
  | .merge i p => 12 * (n - i - 1) + (15 - 2 * p.index)
  | .delta p => 10 - p.index
  | .snapshot p => 7 - p.index
  | .gate => 4
  | .triggers p => 3 - p.index
  | .reread => 1
  | .terminated => 0

/-- The next step of the watcher ends the iteration. -/
def finishes (s : Daemon) : Bool :=
  match s.pc with
  | .reread => true
  | .triggers p => p.next.isNone
  | _ => false

/-- The thread whose turn it is. -/
def visits : Pc → Option Nat
  | .compare i _ | .copy i _ | .stamp i _ | .merge i _ => some i
  | _ => none

/-- The watcher is at a thread that there is. -/
def InRange (s : Daemon) : Prop := ∀ i, visits s.pc = some i → i < s.threads.length

theorem inRange_visit (s : Daemon) (i j : Nat) (here : visits (s.visit i) = some j) : j < s.threads.length := by
  unfold visit at here
  split_ifs at here with inside
  · simp only [visits,Option.some.injEq] at here
    omega
  · cases here

theorem left_visit (s : Daemon) (i : Nat) : left s.threads.length (s.visit i) = 12 * (s.threads.length - i) + 10 := by
  unfold visit
  split_ifs with inside
  · simp only [left,Proto.index]
    omega
  · simp only [left,Proto.index]
    omega

theorem left_pos {n : Nat} {pc : Pc} (running : pc ≠ .terminated) : 0 < left n pc := by
  cases pc with
  | terminated => exact absurd rfl running
  | reread => simp [left]
  | gate => simp [left]
  | compare i p | copy i p | stamp i p | merge i p => cases p <;> simp [left,Proto.index]
  | delta p | snapshot p | triggers p => cases p <;> simp [left,Proto.index]

theorem left_le (in_range : InRange s) : left s.threads.length s.pc ≤ 12 * s.threads.length + 10 := by
  have inside (i : Nat) (here : visits s.pc = some i) : i < s.threads.length := in_range i here
  cases here : s.pc with
  | compare i p | copy i p | stamp i p | merge i p =>
    have there := inside i (by rw [here]; rfl)
    simp only [left]
    omega
  | _ =>
    simp only [left]
    omega

/-- A step of the watcher ends the iteration, or brings it nearer to its end. -/
theorem left_step (watched : Watched platform now clock s s') :
    if finishes s then s'.pc = s.visit 0
    else s'.pc = .terminated ∨ left s.threads.length s'.pc < left s.threads.length s.pc := by
  cases watched with
  | @equal i p _ here thread _ =>
    have inside := (List.getElem?_eq_some_iff.mp thread).1
    rw [if_neg (by simp [finishes,here])]
    cases p <;> exact .inr (by simp only [here,compared,Proto.next,left,Proto.index]; omega)
  | @differ i p _ here thread _ =>
    rw [if_neg (by simp [finishes,here])]
    cases p <;> exact .inr (by simp only [here,left,Proto.index]; omega)
  | @copied i p _ here thread =>
    rw [if_neg (by simp [finishes,here])]
    cases p <;> exact .inr (by simp only [here,Daemon.copied,Proto.next,left,Proto.index]; omega)
  | @stamped i p here =>
    rw [if_neg (by simp [finishes,here])]
    cases p <;> exact .inr (by simp only [here,left,Proto.index]; omega)
  | @merged i p _ _ _ here thread _ =>
    have inside := (List.getElem?_eq_some_iff.mp thread).1
    rw [if_neg (by simp [finishes,here])]
    cases p with
    | TCP | UDP => exact .inr (by simp only [here,Daemon.merged,Proto.next,left,Proto.index]; omega)
    | ICMP =>
      refine .inr ?_
      show left s.threads.length (s.visit (i + 1)) < _
      rw [left_visit,here]
      simp only [left,Proto.index]
      omega
  | failed here =>
    rw [if_neg (by simp [finishes,here])]
    exact .inl rfl
  | @rated p here =>
    rw [if_neg (by simp [finishes,here])]
    cases p <;> exact .inr (by simp [here,Daemon.rated,Proto.next,left,Proto.index])
  | @saved p here =>
    rw [if_neg (by simp [finishes,here])]
    cases p <;> exact .inr (by simp [here,Daemon.saved,Proto.next,left,Proto.index])
  | opened here | closed here =>
    rw [if_neg (by simp [finishes,here])]
    exact .inr (by simp [here,left,Proto.index])
  | reread here => rw [if_pos (by simp [finishes,here])]
  | @checked p _ _ here =>
    cases p with
    | TCP | UDP =>
      rw [if_neg (by simp [finishes,here,Proto.next])]
      exact .inr (by simp [here,Daemon.checked,Proto.next,left,Proto.index])
    | ICMP =>
      rw [if_pos (by simp [finishes,here,Proto.next])]
      rfl

/-- The others leave the watcher where it is. -/
theorem pc_other (moved : Stepped platform s a s') (other : ∀ now clock, a ≠ .watch now clock) : s'.pc = s.pc := by
  cases moved with
  | load loaded => cases loaded <;> rfl
  | watch => exact absurd rfl (other _ _)
  | _ => rfl

/-! ### Iterations -/

def is_watch : Label → Bool
  | .watch _ _ => true
  | _ => false

/-- The iterations that have ended. -/
def iterations : Label → Daemon → Nat → Nat
  | .watch _ _, s, ended => if finishes s then ended + 1 else ended
  | _, _, ended => ended

/-- The watcher has ended so many iterations, or has been ended. -/
def Came (n : Nat) (sh : Daemon × Nat) : Prop := n ≤ sh.2 ∨ sh.1.pc = .terminated

/-- The steps left of all the iterations that are to come. -/
def ahead (threads n : Nat) (sh : Daemon × Nat) : Nat := (12 * threads + 10) * (n - 1 - sh.2) + left threads sh.1.pc

/-- The daemon has so many threads. -/
def Sized (threads : Nat) (sh : Daemon × Nat) : Prop := sh.1.threads.length = threads

theorem sized_step {threads : Nat} {sh sh' : Daemon × Nat} (taken : Runs.recorded (step platform) iterations a sh = some sh')
    (size : Sized threads sh) : Sized threads sh' :=
  (threads_length (stepped (Runs.recorded_eq_some.mp taken).1)).trans size

theorem iterations_progress (threads n : Nat) : Runs.Progress (Runs.recorded (step platform) iterations)
    (fun sh _ => Sized threads sh) is_watch (Came n) (ahead threads n) where
  own_step {a sh sh'} size taken own undone := by
    obtain ⟨s',ended'⟩ := sh'
    obtain ⟨moved,ended⟩ := Runs.recorded_eq_some.mp taken
    obtain ⟨behind,running⟩ := not_or.mp undone
    cases stepped moved with
    | @watch now clock _ watched =>
      have nearer := left_step watched
      simp only [iterations] at ended
      cases last : finishes sh.1 with
      | true =>
        simp only [last,↓reduceIte] at ended nearer
        by_cases done : n ≤ sh.2 + 1
        · exact .inl (.inl (ended ▸ done))
        · refine .inr ?_
          have fresh : left threads s'.pc = 12 * threads + 10 := by
            rw [nearer,← (size : sh.1.threads.length = threads),left_visit]
            omega
          have some_left := left_pos (n := threads) running
          obtain ⟨m,ahead_of⟩ : ∃ m, n - 1 - sh.2 = m + 1 := ⟨n - 2 - sh.2,by omega⟩
          have one_less : n - 1 - ended' = m := by omega
          simp only [ahead,ahead_of,one_less,fresh,Nat.mul_succ]
          omega
      | false =>
        simp only [last,Bool.false_eq_true,↓reduceIte] at ended nearer
        rcases nearer with stopped | lower
        · exact .inl (.inr stopped)
        · rw [(size : sh.1.threads.length = threads)] at lower
          have same : ended' = sh.2 := ended
          refine .inr ?_
          simp only [ahead,same]
          omega
    | _ => cases own
  other_step {a sh sh'} size taken other undone := by
    obtain ⟨moved,ended⟩ := Runs.recorded_eq_some.mp taken
    have elsewhere : ∀ now clock, a ≠ .watch now clock := by
      rintro now clock rfl
      cases other
    have same : sh'.2 = sh.2 := by
      rw [ended]
      cases a with
      | watch now clock => cases other
      | _ => rfl
    refine .inr ?_
    rw [ahead,ahead,pc_other (stepped moved) elsewhere,same]
  stays_done {a sh sh'} _ taken came := by
    obtain ⟨moved,ended⟩ := Runs.recorded_eq_some.mp taken
    rcases came with enough | stopped
    · refine .inl (enough.trans ?_)
      rw [ended]
      unfold iterations
      split
      · split_ifs <;> omega
      · exact le_rfl
    · simp [step,stopped] at moved

/-- With so many steps of the watcher, so many iterations have ended, the one that was
    going on included. -/
theorem iterations_ended {init : Daemon} {labels : List Label} {before ended n : Nat} {ok : Daemon × Nat → Label → Prop}
    (run : Runs.Run (Runs.recorded (step platform) iterations) ok (init,before) labels (s,ended))
    (enough : n * (12 * init.threads.length + 10) + left init.threads.length init.pc ≤ labels.countP is_watch) :
    before + n + 1 ≤ ended ∨ s.pc = .terminated := by
  have first : Sized init.threads.length (init,before) := rfl
  have sized : Runs.Run (Runs.recorded (step platform) iterations) (fun sh _ => Sized init.threads.length sh) (init,before)
      labels (s,ended) := run.strengthen first (fun _ _ _ size _ taken => sized_step taken size) fun _ _ size _ => size
  refine (iterations_progress init.threads.length (before + n + 1)).done_of_count (fun sh undone => ?_) sized ?_
  · have some_left := left_pos (n := init.threads.length) (not_or.mp undone).2
    rw [ahead]
    omega
  · have others : (12 * init.threads.length + 10) * (before + n + 1 - 1 - before) = n * (12 * init.threads.length + 10) := by
      rw [Nat.mul_comm,show before + n + 1 - 1 - before = n by omega]
    rw [ahead,others]
    exact enough

/-! ### No merge throws -/

/-- Without edits and reloads, from threads in sync, no merge throws. -/
theorem receives_running {init : Daemon} (start : init.pc = init.visit 0) (sync : InSync init) {labels : List Label}
    (run : Runs.Run (step platform) (fun _ a => Receives a) init labels s) : s.pc ≠ .terminated := by
  have first : Sharded init [] init :=
    ⟨sync,start ▸ visit_not_copy init 0,start ▸ visit_running init 0,fun _ => rfl,fun p c k => by simp⟩
  have sharded : Sharded init labels s :=
    run.invariant_labels first fun labels s a s' sharded receives taken => sharded_step (stepped taken) receives sharded
  exact sharded.running

/-- In every run in which the watcher has taken the steps of so many iterations, which the
    number of threads tells, so many have ended, unless a merge has thrown; from threads in
    sync, without edits and reloads, none does. -/
theorem watcher_advances (platform : Platform) {init : Daemon} (start : init.pc = init.visit 0) {labels : List Label}
    {s : Daemon} {ended : Nat}
    (run : Runs.Run (Runs.recorded (step platform) iterations) (fun _ _ => True) (init,0) labels (s,ended)) :
    (∀ n, n * (12 * init.threads.length + 10) ≤ labels.countP is_watch → n ≤ ended ∨ s.pc = .terminated) ∧
    (InSync init → (∀ a ∈ labels, Receives a) → s.pc ≠ .terminated) := by
  have daemon_run : Runs.Run (step platform) (fun _ _ => True) init labels s := run.forget
  refine ⟨fun n enough => ?_,fun sync receives => receives_running start sync (daemon_run.restrict receives)⟩
  cases n with
  | zero => exact .inl (Nat.zero_le _)
  | succ n =>
    have came : 0 + n + 1 ≤ ended ∨ s.pc = .terminated := by
      refine iterations_ended run ?_
      rw [start,left_visit]
      rw [Nat.succ_mul] at enough
      omega
    rwa [Nat.zero_add] at came

/-- A packet and a rule that is added, before the first iteration is over. -/
theorem watcher_advances_first : ∃ labels s ended,
    Runs.Run (Runs.recorded (step documented) iterations) (fun _ _ => True) (sample_daemon,0) labels (s,ended) ∧
      labels.countP is_watch = 22 ∧ (1 ≤ ended ∨ s.pc = .terminated) := by
  obtain ⟨s,ended,reached⟩ : ∃ s ended, Runs.runFrom (Runs.recorded (step documented) iterations) (sample_daemon,0)
      (List.replicate 11 (tick 1) ++ [.packet 0 .TCP sample_packet,.console .TCP (.add_rule (TcpRule.new sample_words))] ++
        List.replicate 11 (tick 2)) = some (s,ended) := ⟨_,_,rfl⟩
  have run := Runs.Run.of_runFrom_free (fun _ _ _ => trivial) reached
  exact ⟨_,s,ended,run,rfl,(watcher_advances documented rfl run).1 1 (by decide)⟩

end Daemon
end DdosDetector
