import Mathlib

/-!
Places on a ring. From a first place one comes to every place by single steps, which
wrap around at the last place; after fewer steps than there are places one comes to
none twice.
-/
namespace DdosDetector.Rings

/-- The place after so many steps from the first. -/
def place (size first k : Nat) : Nat := (first + k) % size

/-- How many steps it takes to come to the last place. -/
def distance (size first last : Nat) : Nat := (last + size - first) % size

variable {size first last : Nat}

theorem place_lt (some_place : 0 < size) (k : Nat) : place size first k < size := Nat.mod_lt _ some_place

theorem distance_lt (some_place : 0 < size) : distance size first last < size := Nat.mod_lt _ some_place

/-- Within one turn a place is past the end of the array at most once. -/
theorem place_eq {k : Nat} (inside : first < size) (turn : k < size) :
    place size first k = if first + k < size then first + k else first + k - size := by
  unfold place
  split_ifs with before
  · exact Nat.mod_eq_of_lt before
  · rw [Nat.mod_eq_sub_mod (by omega),Nat.mod_eq_of_lt (by omega)]

theorem distance_eq (inside : first < size) (inside' : last < size) :
    distance size first last = if first ≤ last then last - first else last + size - first := by
  unfold distance
  split_ifs with before
  · have turn : last + size - first = last - first + size := by omega
    rw [turn,Nat.add_mod_right,Nat.mod_eq_of_lt (by omega)]
  · exact Nat.mod_eq_of_lt (by omega)

@[simp] theorem place_zero (inside : first < size) : place size first 0 = first := Nat.mod_eq_of_lt inside

/-- A step wraps around at the last place. -/
theorem place_succ (some_place : 0 < size) (k : Nat) :
    place size first (k + 1) = if place size first k + 1 = size then 0 else place size first k + 1 := by
  have step : place size first (k + 1) = (place size first k + 1) % size := by
    rw [place,place,Nat.mod_add_mod,Nat.add_assoc]
  have bound : place size first k < size := place_lt some_place k
  rw [step]
  split_ifs with wrapped
  · rw [wrapped,Nat.mod_self]
  · exact Nat.mod_eq_of_lt (by omega)

theorem place_distance (inside : first < size) (inside' : last < size) :
    place size first (distance size first last) = last := by
  rw [place_eq inside (distance_lt (by omega)),distance_eq inside inside']
  split_ifs <;> omega

/-- Within one turn no place comes twice. -/
theorem place_inj {j k : Nat} (inside : first < size) (turn : j < size) (turn' : k < size)
    (same : place size first j = place size first k) : j = k := by
  rw [place_eq inside turn,place_eq inside turn'] at same
  split_ifs at same <;> omega

theorem distance_eq_zero_iff (inside : first < size) (inside' : last < size) :
    distance size first last = 0 ↔ first = last := by
  rw [distance_eq inside inside']
  split_ifs <;> omega

theorem place_ne_last {k : Nat} (inside : first < size) (inside' : last < size) (before : k < distance size first last) :
    place size first k ≠ last := by
  intro reached
  have turn : distance size first last < size := distance_lt (by omega)
  have same := place_inj inside (before.trans turn) turn (reached.trans (place_distance inside inside').symm)
  omega

/-- The steps from a place on go on where those to it have ended. -/
theorem place_place (j k : Nat) : place size (place size first j) k = place size first (j + k) := by
  rw [place,place,place,Nat.mod_add_mod,Nat.add_assoc]

theorem distance_place {j k : Nat} (before : j ≤ k) (turn : k - j < size) :
    distance size (place size first j) (place size first k) = k - j := by
  have there : place size first k = place size (place size first j) (k - j) := by
    rw [place_place,Nat.add_sub_cancel' before]
  have inside : place size first j < size := place_lt (by omega) j
  rw [there,place_eq inside turn,distance_eq inside (by split_ifs <;> omega)]
  split_ifs <;> omega

/-- The same for a turn that begins anywhere. -/
theorem place_inj_between {j k : Nat} (before : j ≤ k) (turn : k - j < size) (same : place size first j = place size first k) :
    j = k := by
  have inside (i : Nat) : place size first i < size := place_lt (by omega) i
  have none_between := (distance_eq_zero_iff (inside j) (inside k)).mpr same
  rw [distance_place before turn] at none_between
  omega

/-- The places from the first to the one before the last. -/
def places (size first last : Nat) : List Nat := (List.range (distance size first last)).map (place size first)

theorem places_between {j k : Nat} (before : j ≤ k) (turn : k - j < size) :
    places size (place size first j) (place size first k) = (List.range' j (k - j)).map (place size first) := by
  rw [places,distance_place before turn,List.range'_eq_map_range,List.map_map]
  exact List.map_congr_left fun i _ => place_place j i

end DdosDetector.Rings
