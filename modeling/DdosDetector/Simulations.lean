import DdosDetector.Runs

/-!
Parts of a machine and their progress. Where every step of a machine is a step of one
of its parts or leaves that part alone, every run of the machine is a run of the part,
and what holds of all runs of the part holds in the machine. Where the steps of one
party bring down a measure that no other step raises, the party gets somewhere within
so many steps of its own, whatever the others do in between.
-/
namespace DdosDetector.Runs
universe u v w x

variable {State : Type u} {Label : Type v} {Part : Type w} {PartLabel : Type x}
  {step : Label → State → Option State} {ok : State → Label → Prop} {init : State}
  {part_step : PartLabel → Part → Option Part} {part_ok : Part → PartLabel → Prop}

/-- Every step of the machine is the step of the part that `view` tells, or leaves the
    part alone where `view` tells none. -/
structure Projection (step : Label → State → Option State) (ok : State → Label → Prop)
    (part_step : PartLabel → Part → Option Part) (part_ok : Part → PartLabel → Prop)
    (part : State → Part) (view : Label → Option PartLabel) : Prop where
  moves : ∀ {a s s' b}, ok s a → step a s = some s' → view a = some b →
    part_ok (part s) b ∧ part_step b (part s) = some (part s')
  stays : ∀ {a s s'}, ok s a → step a s = some s' → view a = none → part s' = part s

/-- A run of the machine is a run of its part, by the steps viewed. -/
theorem Projection.run {part : State → Part} {view : Label → Option PartLabel}
    (projection : Projection step ok part_step part_ok part view) {labels : List Label} {s : State}
    (run : Run step ok init labels s) : Run part_step part_ok (part init) (labels.filterMap view) (part s) := by
  induction run with
  | nil => exact .nil
  | @snoc labels s s' a _ allowed taken ih =>
    rw [List.filterMap_append]
    cases seen : view a with
    | none =>
      rw [List.filterMap_cons_none seen,List.filterMap_nil,List.append_nil,projection.stays allowed taken seen]
      exact ih
    | some b =>
      obtain ⟨part_allowed,part_taken⟩ := projection.moves allowed taken seen
      rw [List.filterMap_cons_some seen,List.filterMap_nil]
      exact .snoc ih part_allowed part_taken

theorem Run.append {labels more : List Label} {s t : State} (run : Run step ok init labels s) (rest : Run step ok s more t) :
    Run step ok init (labels ++ more) t := by
  induction rest with
  | nil => exact (List.append_nil labels).symm ▸ run
  | snoc _ allowed taken ih => exact List.append_assoc .. ▸ .snoc ih allowed taken

/-- Where every step of the machine is some steps of an abstract one, every run of the
    machine is a run of it, by the same steps. -/
theorem Run.refines {part : State → Part} {amounts : Label → List PartLabel → Prop}
    (each : ∀ s a s', ok s a → step a s = some s' → ∃ bs, amounts a bs ∧ Run part_step part_ok (part s) bs (part s'))
    {labels : List Label} {s : State} (run : Run step ok init labels s) :
    ∃ parts, List.Forall₂ amounts labels parts ∧ Run part_step part_ok (part init) parts.flatten (part s) := by
  induction run with
  | nil => exact ⟨[],.nil,.nil⟩
  | snoc _ allowed taken ih =>
    obtain ⟨parts,amount,part_run⟩ := ih
    obtain ⟨bs,last,part_step⟩ := each _ _ _ allowed taken
    refine ⟨parts ++ [bs],List.rel_append amount (.cons last .nil),?_⟩
    rw [List.flatten_append,List.flatten_singleton]
    exact part_run.append part_step

/-- The steps of a run meet every condition that follows from an invariant. -/
theorem Run.strengthen {inv : State → Prop} {ok' : State → Label → Prop} (first : inv init)
    (keep : ∀ s a s', inv s → ok s a → step a s = some s' → inv s')
    (stronger : ∀ s a, inv s → ok s a → ok' s a) {labels : List Label} {s : State} (run : Run step ok init labels s) :
    Run step ok' init labels s := by
  induction run with
  | nil => exact .nil
  | snoc earlier allowed taken ih =>
    exact .snoc ih (stronger _ _ (earlier.invariant first keep) allowed) taken

/-- What holds of all labels of a run may be asked of each step. -/
theorem Run.restrict {good : Label → Prop} {labels : List Label} {s : State} (run : Run step ok init labels s)
    (all : ∀ a ∈ labels, good a) : Run step (fun _ a => good a) init labels s := by
  induction run with
  | nil => exact .nil
  | snoc _ _ taken ih =>
    exact .snoc (ih fun a member => all a (List.mem_append_left _ member)) (all _ (by simp)) taken

/-- A run with a history is a run without it. -/
theorem Run.forget {History : Type w} {observe : Label → State → History → History} {labels : List Label}
    {sh₀ sh : State × History} {ok : State × History → Label → Prop} (run : Run (recorded step observe) ok sh₀ labels sh) :
    Run step (fun _ _ => True) sh₀.1 labels sh.1 := by
  induction run with
  | nil => exact .nil
  | snoc _ _ taken ih => exact .snoc ih trivial (recorded_eq_some.mp taken).1

/-- Every run can be recorded. -/
theorem Run.record {History : Type w} (observe : Label → State → History → History) (h : History) {labels : List Label}
    {s : State} (run : Run step ok init labels s) :
    ∃ h', Run (recorded step observe) (fun sh a => ok sh.1 a) (init,h) labels (s,h') := by
  induction run with
  | nil => exact ⟨h,.nil⟩
  | @snoc labels s s' a _ allowed taken ih =>
    obtain ⟨h',recorded_run⟩ := ih
    exact ⟨observe a s h',.snoc recorded_run allowed (recorded_eq_some.mpr ⟨taken,rfl⟩)⟩

/-! ### Progress -/

/-- The steps of the party bring the measure down until it is done, and those of the
    others do not raise it. -/
structure Progress (step : Label → State → Option State) (ok : State → Label → Prop) (own : Label → Bool)
    (done : State → Prop) (measure : State → Nat) : Prop where
  own_step : ∀ {a s s'}, ok s a → step a s = some s' → own a = true → ¬ done s → done s' ∨ measure s' < measure s
  other_step : ∀ {a s s'}, ok s a → step a s = some s' → own a = false → ¬ done s → done s' ∨ measure s' ≤ measure s
  stays_done : ∀ {a s s'}, ok s a → step a s = some s' → done s → done s'

/-- Each step of the party has brought the measure down, unless it is done. -/
theorem Progress.count_le {own : Label → Bool} {done : State → Prop} {measure : State → Nat}
    (progress : Progress step ok own done measure) {labels : List Label} {s : State} (run : Run step ok init labels s) :
    done s ∨ labels.countP own + measure s ≤ measure init := by
  induction run with
  | nil => exact .inr (by simp)
  | @snoc labels s s' a _ allowed taken ih =>
    by_cases ended : done s
    · exact .inl (progress.stays_done allowed taken ended)
    have before := ih.resolve_left ended
    rw [List.countP_append,List.countP_singleton]
    cases mine : own a with
    | true =>
      rcases progress.own_step allowed taken mine ended with there | lower
      · exact .inl there
      · exact .inr (by simp only [↓reduceIte]; omega)
    | false =>
      rcases progress.other_step allowed taken mine ended with there | lower
      · exact .inl there
      · exact .inr (by simp only [Bool.false_eq_true,↓reduceIte]; omega)

/-- After as many steps of its own as the measure tells, the party is done. -/
theorem Progress.done_of_count {own : Label → Bool} {done : State → Prop} {measure : State → Nat}
    (progress : Progress step ok own done measure) (positive : ∀ s, ¬ done s → 0 < measure s)
    {labels : List Label} {s : State} (run : Run step ok init labels s) (enough : measure init ≤ labels.countP own) :
    done s := by
  rcases progress.count_le run with there | bound
  · exact there
  · by_contra undone
    have left := positive s undone
    omega

end DdosDetector.Runs
