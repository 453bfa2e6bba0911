import Mathlib

/-!
Loops. A round of a loop is a partial function on the state of its variables: `none`
where the condition of the loop fails. A loop that ends is a finite sequence of rounds;
a measure that every round lowers shows that it ends, and one that every round lowers by
one, after how many rounds.
-/
namespace DdosDetector.Loops
universe u

variable {State : Type u} {round : State → Option State} {s t : State}

/-- The loop that starts in `s` ends in `t` after so many rounds. -/
inductive Loop (round : State → Option State) : State → Nat → State → Prop
  | done {s : State} : round s = none → Loop round s 0 s
  | next {s s' t : State} {n : Nat} : round s = some s' → Loop round s' n t → Loop round s (n + 1) t

/-- What holds at first and is kept by every round holds at the end, where the condition
    of the loop fails. -/
theorem Loop.invariant {inv : State → Prop} {n : Nat} (loop : Loop round s n t) (first : inv s)
    (keep : ∀ s s', inv s → round s = some s' → inv s') : inv t ∧ round t = none := by
  induction loop with
  | done ended => exact ⟨first,ended⟩
  | next taken _ ih => exact ih (keep _ _ first taken)

/-- A loop ends if every round lowers a measure. -/
theorem ends_of_measure (measure : State → Nat) (lower : ∀ s s', round s = some s' → measure s' < measure s) (s : State) :
    ∃ n t, Loop round s n t ∧ n ≤ measure s := by
  induction size : measure s using Nat.strong_induction_on generalizing s with
  | _ m ih =>
    cases taken : round s with
    | none => exact ⟨0,s,.done taken,by omega⟩
    | some s' =>
      have less := lower s s' taken
      obtain ⟨n,t,rest,bound⟩ := ih (measure s') (by omega) s' rfl
      exact ⟨n + 1,t,.next taken rest,by omega⟩

/-- Where an invariant makes every round lower the measure by one, and the loop go on
    exactly while it is not zero, the measure is the number of rounds. -/
theorem ends_after_measure {inv : State → Prop} (measure : State → Nat) (first : inv s)
    (finish : ∀ s, inv s → measure s = 0 → round s = none)
    (lower : ∀ s n, inv s → measure s = n + 1 → ∃ s', round s = some s' ∧ inv s' ∧ measure s' = n) :
    ∃ t, Loop round s (measure s) t ∧ inv t := by
  generalize size : measure s = n
  induction n generalizing s with
  | zero => exact ⟨s,.done (finish s first size),first⟩
  | succ n ih =>
    obtain ⟨s',taken,kept,size'⟩ := lower s n first size
    obtain ⟨t,rest,last⟩ := ih kept size'
    exact ⟨t,.next taken rest,last⟩

end DdosDetector.Loops
