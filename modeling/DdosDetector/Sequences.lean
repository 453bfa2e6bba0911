import Mathlib

/-!
Sequences that are changed at their end or at one of their positions. A change at a
position that the sequence does not have is not carried out. Whatever the elements
are, the same changes of their names give the sequence of the names; so the names tell
which elements have stayed and where they are.
-/
namespace DdosDetector.Sequences
universe u v
variable {α : Type u} {β : Type v}

/-- A change: one element at the end, before a position, or the one at a position. -/
inductive Change (α : Type u)
  | append (a : α)
  | insert (i : Nat) (a : α)
  | delete (i : Nat)

namespace Change

/-- The same change, of other elements. -/
def map (f : α → β) : Change α → Change β
  | .append a => .append (f a)
  | .insert i a => .insert i (f a)
  | .delete i => .delete i

/-- The element that the change brings in. -/
def new? : Change α → Option α
  | .append a => some a
  | .insert _ a => some a
  | .delete _ => none

/-- A sequence of size `n` has the position of the change. -/
def Has (n : Nat) : Change α → Prop
  | .append _ => True
  | .insert i _ => i < n
  | .delete i => i < n

instance (n : Nat) : (c : Change α) → Decidable (c.Has n)
  | .append _ => isTrue trivial
  | .insert i _ => inferInstanceAs (Decidable (i < n))
  | .delete i => inferInstanceAs (Decidable (i < n))

def apply (xs : List α) : Change α → List α
  | .append a => xs ++ [a]
  | .insert i a => xs.insertIdx i a
  | .delete i => xs.eraseIdx i

@[simp] theorem has_map (f : α → β) (n : Nat) (c : Change α) : (c.map f).Has n ↔ c.Has n := by
  cases c <;> rfl

theorem apply_map (f : α → β) (xs : List α) (c : Change α) : (c.map f).apply (xs.map f) = (c.apply xs).map f := by
  cases c with
  | append a => simp [map,apply]
  | insert i a => exact (List.map_insertIdx ..).symm
  | delete i => simp [map,apply,List.eraseIdx_map]

/-- After a change the sequence has elements that it had and the new one. -/
theorem mem_apply {xs : List α} {c : Change α} {x : α} (member : x ∈ c.apply xs) : x ∈ xs ∨ c.new? = some x := by
  cases c with
  | append a => simpa [apply,new?,eq_comm] using member
  | insert i a =>
    rcases List.eq_or_mem_of_mem_insertIdx member with rfl | old
    · exact .inr rfl
    · exact .inl old
  | delete i => exact .inl (List.mem_of_mem_eraseIdx member)

/-- A change brings in no element twice. -/
theorem nodup_apply {xs : List α} {c : Change α} (nodup : xs.Nodup) (fresh : ∀ a, c.new? = some a → a ∉ xs) :
    (c.apply xs).Nodup := by
  cases c with
  | append a => exact (List.perm_append_singleton a xs).nodup_iff.mpr (List.nodup_cons.mpr ⟨fresh a rfl,nodup⟩)
  | insert i a =>
    by_cases inside : i ≤ xs.length
    · exact (List.perm_insertIdx a xs inside).nodup_iff.mpr (List.nodup_cons.mpr ⟨fresh a rfl,nodup⟩)
    · rw [apply,List.insertIdx_of_length_lt (by omega)]
      exact nodup
  | delete i => exact nodup.eraseIdx i

end Change

/-- The change is carried out if the sequence has its position. -/
def carry (xs : List α) (c : Change α) : List α := if c.Has xs.length then c.apply xs else xs

theorem carry_map (f : α → β) (xs : List α) (c : Change α) : carry (xs.map f) (c.map f) = (carry xs c).map f := by
  unfold carry
  rw [List.length_map,Change.apply_map]
  simp only [Change.has_map]
  split_ifs <;> rfl

/-- The same changes of the names of the elements give the names of the sequence. -/
theorem foldl_carry_map (f : α → β) (changes : List (Change α)) (xs : List α) :
    (changes.map (Change.map f)).foldl carry (xs.map f) = (changes.foldl carry xs).map f := by
  induction changes generalizing xs with
  | nil => rfl
  | cons c rest ih => rw [List.map_cons,List.foldl_cons,List.foldl_cons,carry_map,ih]

/-- Changes that bring in different elements, none of which was there, leave no
    element twice. -/
theorem nodup_foldl_carry {changes : List (Change α)} {xs : List α} (nodup : xs.Nodup)
    (fresh : ∀ c ∈ changes, ∀ a, c.new? = some a → a ∉ xs)
    (different : changes.Pairwise fun c d => ∀ a, c.new? = some a → d.new? ≠ some a) :
    (changes.foldl carry xs).Nodup := by
  induction changes generalizing xs with
  | nil => exact nodup
  | cons c rest ih =>
    rw [List.pairwise_cons] at different
    rw [List.foldl_cons]
    refine ih ?_ (fun d later a new member => ?_) different.2
    · unfold carry
      split_ifs
      · exact Change.nodup_apply nodup (fresh c (by simp))
      · exact nodup
    · have old : a ∉ xs := fresh d (by simp [later]) a new
      unfold carry at member
      split_ifs at member
      · rcases Change.mem_apply member with before | brought
        · exact old before
        · exact different.1 d later a brought new
      · exact old member

end DdosDetector.Sequences
