import Mathlib

/-!
Runs of a labelled machine. A machine is a partial step function: `step a s` is
the state after the action `a`, or `none` where `a` is not possible in `s`. A
run is guarded by a condition on each step taken, so that a theorem about every
run whose steps all meet a condition is an induction over `Run`. A machine can
be recorded by a history that observes its steps and never influences them.
-/
namespace DdosDetector.Runs
universe u v w

variable {State : Type u} {Label : Type v} {History : Type w}

/-- The runs from `init`: the actions taken, oldest first, and the state reached. -/
inductive Run (step : Label → State → Option State) (ok : State → Label → Prop) (init : State) :
    List Label → State → Prop
  | nil : Run step ok init [] init
  | snoc {labels : List Label} {s s' : State} {a : Label} :
      Run step ok init labels s → ok s a → step a s = some s' → Run step ok init (labels ++ [a]) s'

variable {step : Label → State → Option State} {ok : State → Label → Prop} {init : State}

/-- What holds at first and is kept by every step that meets the condition holds
    of every state reached. -/
theorem Run.invariant {inv : State → Prop} (first : inv init)
    (keep : ∀ s a s', inv s → ok s a → step a s = some s' → inv s')
    {labels : List Label} {s : State} (run : Run step ok init labels s) : inv s := by
  induction run with
  | nil => exact first
  | snoc _ allowed taken ih => exact keep _ _ _ ih allowed taken

/-- The same for a property of the actions taken so far and the state reached. -/
theorem Run.invariant_labels {inv : List Label → State → Prop} (first : inv [] init)
    (keep : ∀ labels s a s', inv labels s → ok s a → step a s = some s' → inv (labels ++ [a]) s')
    {labels : List Label} {s : State} (run : Run step ok init labels s) : inv labels s := by
  induction run with
  | nil => exact first
  | snoc _ allowed taken ih => exact keep _ _ _ _ ih allowed taken

/-- The state after the actions in turn. -/
def runFrom (step : Label → State → Option State) : State → List Label → Option State
  | s, [] => some s
  | s, a :: rest => (step a s).bind fun s' => runFrom step s' rest

theorem runFrom_append (s : State) (before after : List Label) :
    runFrom step s (before ++ after) = (runFrom step s before).bind fun s' => runFrom step s' after := by
  induction before generalizing s with
  | nil => rfl
  | cons a rest ih =>
    simp only [List.cons_append, runFrom]
    cases step a s with
    | none => rfl
    | some s' => exact ih s'

/-- A list of actions that can be taken in turn is a run, if each of them passes a test
    that makes it allowed. -/
theorem Run.of_runFrom {test : Label → State → Bool} {labels : List Label} {s : State}
    (allowed : ∀ a ∈ labels, ∀ s, test a s = true → ok s a)
    (reached : runFrom (fun a s => if test a s then step a s else none) init labels = some s) :
    Run step ok init labels s := by
  induction labels using List.reverseRecOn generalizing s with
  | nil =>
    obtain rfl : init = s := Option.some.inj reached
    exact .nil
  | append_singleton before a ih =>
    rw [runFrom_append, Option.bind_eq_some_iff] at reached
    obtain ⟨middle, earlier, last⟩ := reached
    simp only [runFrom, Option.bind_eq_some_iff] at last
    obtain ⟨s', taken, same⟩ := last
    obtain rfl := Option.some.inj same
    split_ifs at taken with passed
    have before_allowed : ∀ b ∈ before, ∀ s, test b s = true → ok s b :=
      fun b member => allowed b (by simp [member])
    exact .snoc (ih before_allowed earlier) (allowed a (by simp) middle passed) taken

/-- The same where every action is allowed in every state. -/
theorem Run.of_runFrom_free {labels : List Label} {s : State} (allowed : ∀ a ∈ labels, ∀ s, ok s a)
    (reached : runFrom step init labels = some s) : Run step ok init labels s := by
  have always : ∀ a ∈ labels, ∀ s, (fun _ _ => true : Label → State → Bool) a s = true → ok s a :=
    fun a member s _ => allowed a member s
  exact .of_runFrom always (by simpa using reached)

/-- The machine with a history beside it: `observe` sees each action and the
    state that it is taken in. -/
def recorded (step : Label → State → Option State) (observe : Label → State → History → History) :
    Label → State × History → Option (State × History) :=
  fun a sh => (step a sh.1).map fun s' => (s', observe a sh.1 sh.2)

variable {observe : Label → State → History → History}

theorem recorded_eq_some {a : Label} {sh sh' : State × History} :
    recorded step observe a sh = some sh' ↔ step a sh.1 = some sh'.1 ∧ sh'.2 = observe a sh.1 sh.2 := by
  obtain ⟨s', h'⟩ := sh'
  simp only [recorded, Option.map_eq_some_iff, Prod.mk.injEq]
  constructor
  · rintro ⟨_, taken, rfl, rfl⟩
    exact ⟨taken, rfl⟩
  · rintro ⟨taken, rfl⟩
    exact ⟨_, taken, rfl, rfl⟩

/-- What holds at first of state and history together, and is kept by every step that
    meets the condition, holds of every state reached and its history. -/
theorem Run.invariant_recorded {inv : State → History → Prop} {ok : State × History → Label → Prop} {h : History}
    {labels : List Label} {s' : State} {h' : History}
    (run : Run (recorded step observe) ok (init, h) labels (s', h')) (first : inv init h)
    (keep : ∀ s h a s', inv s h → ok (s, h) a → step a s = some s' → inv s' (observe a s h)) : inv s' h' := by
  generalize reached : (s', h') = sh at run
  induction run generalizing s' h' with
  | nil =>
    obtain ⟨rfl, rfl⟩ := Prod.mk.inj reached
    exact first
  | @snoc _ before _ a _ allowed taken ih =>
    obtain ⟨moved, noted⟩ := recorded_eq_some.mp (reached ▸ taken)
    obtain rfl : h' = observe a before.1 before.2 := noted
    exact keep before.1 before.2 a s' (ih rfl) allowed moved

end DdosDetector.Runs
