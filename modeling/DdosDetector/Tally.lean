import Mathlib

/-!
Tallies: ordered maps from keys to 32-bit counters. A tally counts a list of
keys when every key has the number of its occurrences, modulo the counter's
size, and no other key is present. Increments and merges of tallies count the
concatenated lists, and the scan that keeps every strictly larger count ends at
the smallest key of the largest count.
-/
namespace DdosDetector.Tally
universe u

variable {Key : Type u} [Ord Key]

/-- One more occurrence of the key; an absent key starts at zero. -/
def increase (m : Std.TreeMap Key UInt32) (k : Key) : Std.TreeMap Key UInt32 :=
  m.alter k fun n => some (n.getD 0 + 1)

/-- The counts of the second tally added to those of the first, in key order. -/
def merge (m other : Std.TreeMap Key UInt32) : Std.TreeMap Key UInt32 :=
  other.foldl (fun m k n => m.alter k fun old => some (old.getD 0 + n)) m

/-- The scan of entries that moves on to every strictly larger count. -/
def scan_max (best : Key × UInt32) (entries : List (Key × UInt32)) : Key × UInt32 :=
  entries.foldl (fun best entry => if entry.2 > best.2 then entry else best) best

variable [Std.TransOrd Key] [Std.LawfulEqOrd Key]
set_option linter.unusedSectionVars false
set_option linter.unusedSimpArgs false

theorem compare_eq_iff (a b : Key) : compare a b = .eq ↔ a = b :=
  ⟨Std.LawfulEqCmp.eq_of_compare,fun equal => equal ▸ Std.ReflCmp.compare_self⟩

theorem getD_increase [DecidableEq Key] (m : Std.TreeMap Key UInt32) (k d : Key) :
    (increase m k).getD d 0 = if k = d then m.getD d 0 + 1 else m.getD d 0 := by
  rw [increase,Std.TreeMap.getD_alter]
  by_cases same : k = d
  · subst same
    simp [Std.TreeMap.getD_eq_getD_getElem?]
  · simp [same,compare_eq_iff]

theorem mem_increase (m : Std.TreeMap Key UInt32) (k d : Key) : d ∈ increase m k ↔ d ∈ m ∨ d = k := by
  classical
  rw [increase,Std.TreeMap.mem_alter]
  by_cases same : k = d
  · simp [same]
  · simp [same,compare_eq_iff,Ne.symm same]

/-- Increments for a list of keys add up to their numbers of occurrences. -/
theorem foldl_increase [DecidableEq Key] (m : Std.TreeMap Key UInt32) (keys : List Key) (d : Key) :
    (keys.foldl increase m).getD d 0 = m.getD d 0 + UInt32.ofNat (keys.count d) ∧
      (d ∈ keys.foldl increase m ↔ d ∈ m ∨ d ∈ keys) := by
  induction keys generalizing m with
  | nil => simp
  | cons k keys ih =>
    obtain ⟨number,present⟩ := ih (increase m k)
    rw [List.foldl_cons,number,present,getD_increase,mem_increase]
    by_cases same : k = d
    · subst same
      refine ⟨?_,by simp⟩
      rw [if_pos rfl,List.count_cons_self,UInt32.ofNat_add,UInt32.add_assoc,UInt32.add_comm (UInt32.ofNat _)]
      rfl
    · refine ⟨?_,by simp [Ne.symm same]⟩
      rw [if_neg same,List.count_cons_of_ne same]

/-! ### Merging -/

/-- The counts that a list of entries holds for a key, together. -/
private def held [DecidableEq Key] (k : Key) (entries : List (Key × UInt32)) : UInt32 :=
  ((entries.filter fun entry => entry.1 = k).map Prod.snd).sum

private theorem merge_entries [DecidableEq Key] (entries : List (Key × UInt32)) (m : Std.TreeMap Key UInt32)
    (k : Key) :
    (entries.foldl (fun m entry => m.alter entry.1 fun old => some (old.getD 0 + entry.2)) m).getD k 0 =
        m.getD k 0 + held k entries ∧
      (k ∈ entries.foldl (fun m entry => m.alter entry.1 fun old => some (old.getD 0 + entry.2)) m ↔
        k ∈ m ∨ k ∈ entries.map Prod.fst) := by
  induction entries generalizing m with
  | nil => simp [held]
  | cons entry rest ih =>
    obtain ⟨counts,keys⟩ := ih (m.alter entry.1 fun old => some (old.getD 0 + entry.2))
    rw [List.foldl_cons,counts,keys,Std.TreeMap.getD_alter,Std.TreeMap.mem_alter]
    by_cases same : entry.1 = k
    · subst same
      simp [held,Std.TreeMap.getD_eq_getD_getElem?,UInt32.add_assoc]
    · simp [held,same,compare_eq_iff,Ne.symm same]

private theorem held_distinct [DecidableEq Key] {k : Key} {n : UInt32} {entries : List (Key × UInt32)}
    (distinct : entries.Pairwise fun a b => ¬ compare a.1 b.1 = .eq) (member : (k,n) ∈ entries) :
    held k entries = n := by
  induction entries with
  | nil => cases member
  | cons entry rest ih =>
    obtain ⟨apart,distinct'⟩ := List.pairwise_cons.mp distinct
    rcases List.mem_cons.mp member with rfl | later
    · have none_later : rest.filter (fun entry => entry.1 = k) = [] := by
        simp only [List.filter_eq_nil_iff,decide_eq_true_eq]
        intro entry inside clash
        exact apart entry inside ((compare_eq_iff _ _).mpr clash.symm)
      simp [held,none_later]
    · have different : entry.1 ≠ k := fun same => apart _ later ((compare_eq_iff _ _).mpr same)
      simpa [held,different] using ih distinct' later

private theorem held_toList [DecidableEq Key] (m : Std.TreeMap Key UInt32) (k : Key) :
    held k m.toList = m.getD k 0 := by
  rw [Std.TreeMap.getD_eq_getD_getElem?]
  cases found : m[k]? with
  | some n => exact held_distinct m.distinct_keys_toList (m.mem_toList_iff_getElem?_eq_some.mpr found)
  | none =>
    have absent : m.toList.filter (fun entry => entry.1 = k) = [] := by
      simp only [List.filter_eq_nil_iff,decide_eq_true_eq]
      rintro ⟨_,n⟩ member rfl
      simp [m.mem_toList_iff_getElem?_eq_some.mp member] at found
    simp [held,absent]

theorem getD_merge (m other : Std.TreeMap Key UInt32) (k : Key) :
    (merge m other).getD k 0 = m.getD k 0 + other.getD k 0 := by
  classical
  rw [merge,Std.TreeMap.foldl_eq_foldl_toList,(merge_entries other.toList m k).1,held_toList]

theorem mem_merge (m other : Std.TreeMap Key UInt32) (k : Key) : k ∈ merge m other ↔ k ∈ m ∨ k ∈ other := by
  classical
  rw [merge,Std.TreeMap.foldl_eq_foldl_toList,(merge_entries other.toList m k).2,
    Std.TreeMap.map_fst_toList_eq_keys,Std.TreeMap.mem_keys]

/-! ### Counting a list of keys -/

/-- The tally counts the listed keys: each as often as it occurs, and no other. -/
def Counts [DecidableEq Key] (m : Std.TreeMap Key UInt32) (keys : List Key) : Prop :=
  ∀ k, m.getD k 0 = UInt32.ofNat (keys.count k) ∧ (k ∈ m ↔ k ∈ keys)

variable [DecidableEq Key]

theorem counts_empty : Counts (∅ : Std.TreeMap Key UInt32) [] := by
  intro k
  simp

theorem counts_increase {m : Std.TreeMap Key UInt32} {keys : List Key} (counts : Counts m keys) (k : Key) :
    Counts (increase m k) (keys ++ [k]) := by
  intro d
  obtain ⟨number,present⟩ := counts d
  rw [getD_increase,mem_increase,number,present]
  refine ⟨?_,by simp⟩
  by_cases same : k = d
  · simp [same,List.count_append]
  · simp [same,List.count_append]

theorem counts_merge {m other : Std.TreeMap Key UInt32} {keys more : List Key} (counts : Counts m keys)
    (others : Counts other more) : Counts (merge m other) (keys ++ more) := by
  intro d
  rw [getD_merge,mem_merge,(counts d).1,(counts d).2,(others d).1,(others d).2,List.count_append,List.mem_append]
  exact ⟨by simp,Iff.rfl⟩

/-- A tally is empty exactly when it counts nothing. -/
theorem counts_size {m : Std.TreeMap Key UInt32} {keys : List Key} (counts : Counts m keys) :
    m.size = 0 ↔ keys = [] := by
  rw [List.eq_nil_iff_forall_not_mem]
  constructor
  · intro empty k member
    have inside := (counts k).2.mpr member
    have none : m.isEmpty = true := by simp [Std.TreeMap.isEmpty_eq_size_eq_zero,empty]
    exact Std.TreeMap.not_mem_of_isEmpty none inside
  · intro none
    have empty : m.isEmpty = true :=
      Std.TreeMap.isEmpty_iff_forall_not_mem.mpr fun k member => none k ((counts k).2.mp member)
    simpa [Std.TreeMap.isEmpty_eq_size_eq_zero] using empty

/-! ### The largest count -/

/-- The scan stays where it starts or moves to a strictly larger entry. -/
private theorem scan_max_origin (best : Key × UInt32) (entries : List (Key × UInt32)) :
    scan_max best entries = best ∨ scan_max best entries ∈ entries ∧ best.2 < (scan_max best entries).2 := by
  induction entries generalizing best with
  | nil => exact .inl rfl
  | cons entry rest ih =>
    rw [scan_max,List.foldl_cons,← scan_max]
    by_cases larger : entry.2 > best.2
    · rw [if_pos larger]
      rcases ih entry with same | ⟨later,above⟩
      · exact .inr ⟨by simp [same],by rw [same]; exact larger⟩
      · exact .inr ⟨by simp [later],UInt32.lt_trans larger above⟩
    · rw [if_neg larger]
      exact (ih best).imp_right fun ⟨later,above⟩ => ⟨by simp [later],above⟩

private theorem scan_max_least (best : Key × UInt32) (entries : List (Key × UInt32)) :
    best.2 ≤ (scan_max best entries).2 := by
  rcases scan_max_origin best entries with same | ⟨_,above⟩
  · rw [same]; exact UInt32.le_refl _
  · exact UInt32.le_of_lt above

private theorem scan_max_largest (best : Key × UInt32) (entries : List (Key × UInt32)) :
    ∀ entry ∈ entries, entry.2 ≤ (scan_max best entries).2 := by
  induction entries generalizing best with
  | nil => simp
  | cons entry rest ih =>
    rw [scan_max,List.foldl_cons,← scan_max]
    rintro other (_ | ⟨_,later⟩)
    · by_cases larger : entry.2 > best.2
      · rw [if_pos larger]; exact scan_max_least entry rest
      · rw [if_neg larger]; exact UInt32.le_trans (UInt32.not_lt.mp larger) (scan_max_least best rest)
    · exact ih _ other later

/-- Where the scan moves, it moves to the first entry of the largest count. -/
private theorem scan_max_first {entries : List (Key × UInt32)} (best : Key × UInt32)
    (ordered : entries.Pairwise fun a b => compare a.1 b.1 = .lt) (moved : best.2 < (scan_max best entries).2) :
    ∀ entry ∈ entries, entry.2 = (scan_max best entries).2 →
      entry = scan_max best entries ∨ compare (scan_max best entries).1 entry.1 = .lt := by
  induction entries generalizing best with
  | nil => simp
  | cons entry rest ih =>
    obtain ⟨before,ordered'⟩ := List.pairwise_cons.mp ordered
    rw [scan_max,List.foldl_cons,← scan_max] at moved ⊢
    by_cases larger : entry.2 > best.2
    · rw [if_pos larger] at moved ⊢
      rintro other member equal
      rcases scan_max_origin entry rest with here | ⟨_,above⟩
      · rw [here]
        exact (List.mem_cons.mp member).imp_right (before other)
      · rcases List.mem_cons.mp member with rfl | later
        · exact absurd equal (UInt32.ne_of_lt above)
        · exact ih entry ordered' above other later equal
    · rw [if_neg larger] at moved ⊢
      rintro other member equal
      rcases List.mem_cons.mp member with rfl | later
      · exact absurd (equal ▸ moved) larger
      · exact ih best ordered' moved other later equal

/-- From zero, the scan of a tally ends at a key that no other key has a larger count
    than; a key that is not there counts as zero. -/
theorem scan_max_top (m : Std.TreeMap Key UInt32) (zero k : Key) :
    m.getD k 0 ≤ m.getD (scan_max (zero,0) m.toList).1 0 := by
  have below : m.getD k 0 ≤ (scan_max (zero,0) m.toList).2 := by
    rw [Std.TreeMap.getD_eq_getD_getElem?]
    cases found : m[k]? with
    | none => exact UInt32.zero_le
    | some n => exact scan_max_largest (zero,0) m.toList (k,n) (m.mem_toList_iff_getElem?_eq_some.mpr found)
  refine UInt32.le_trans below ?_
  rcases scan_max_origin (zero,0) m.toList with same | ⟨member,_⟩
  · rw [same]
    exact UInt32.zero_le
  · have found : m[(scan_max (zero,0) m.toList).1]? = some (scan_max (zero,0) m.toList).2 :=
      m.mem_toList_iff_getElem?_eq_some.mp member
    rw [Std.TreeMap.getD_eq_getD_getElem?,found]
    exact UInt32.le_refl _

/-- From zero, the scan of a tally ends at the smallest key with the largest
    number of occurrences, when every number fits the counter. -/
theorem scan_max_counts {m : Std.TreeMap Key UInt32} {keys : List Key} (counts : Counts m keys)
    (fits : ∀ k, keys.count k < 2^32) (some_key : keys ≠ []) (zero : Key) :
    ∃ top ∈ keys, (scan_max (zero,0) m.toList).1 = top ∧
      ∀ k ∈ keys, keys.count k ≤ keys.count top ∧
        (keys.count k = keys.count top → k = top ∨ compare top k = .lt) := by
  have value : ∀ k n, (k,n) ∈ m.toList → n.toNat = keys.count k ∧ k ∈ keys := by
    intro k n member
    have found := m.mem_toList_iff_getElem?_eq_some.mp member
    have number := (counts k).1
    rw [Std.TreeMap.getD_eq_getD_getElem?,found,Option.getD_some] at number
    refine ⟨by rw [number,UInt32.toNat_ofNat']; exact Nat.mod_eq_of_lt (fits k),?_⟩
    exact (counts k).2.mp (Std.TreeMap.mem_iff_isSome_getElem?.mpr (by simp [found]))
  have entry : ∀ k ∈ keys, ∃ n, (k,n) ∈ m.toList := by
    intro k member
    have present := Std.TreeMap.mem_iff_isSome_getElem?.mp ((counts k).2.mpr member)
    obtain ⟨n,found⟩ := Option.isSome_iff_exists.mp present
    exact ⟨n,m.mem_toList_iff_getElem?_eq_some.mpr found⟩
  have moved : (0 : UInt32) < (scan_max (zero,0) m.toList).2 := by
    obtain ⟨k,member⟩ := List.exists_mem_of_ne_nil keys some_key
    obtain ⟨n,inside⟩ := entry k member
    have positive : 0 < n.toNat := by
      rw [(value k n inside).1]; exact List.count_pos_iff.mpr member
    exact UInt32.lt_of_lt_of_le (UInt32.lt_iff_toNat_lt.mpr (by simpa using positive))
      (scan_max_largest (zero,0) m.toList (k,n) inside)
  have inside : scan_max (zero,0) m.toList ∈ m.toList := by
    rcases scan_max_origin (zero,0) m.toList with same | ⟨member,_⟩
    · rw [same] at moved; exact absurd moved (by simp)
    · exact member
  obtain ⟨number,member⟩ : (scan_max (zero,0) m.toList).2.toNat = keys.count (scan_max (zero,0) m.toList).1 ∧ _ :=
    value _ _ inside
  refine ⟨_,member,rfl,?_⟩
  intro k present
  obtain ⟨n,entered⟩ := entry k present
  have below := UInt32.le_iff_toNat_le.mp (scan_max_largest (zero,0) m.toList (k,n) entered)
  rw [number,(value k n entered).1] at below
  refine ⟨below,?_⟩
  intro tie
  have equal : n = (scan_max (zero,0) m.toList).2 := by
    rw [← UInt32.toNat_inj,number,(value k n entered).1,tie]
  exact (scan_max_first (zero,0) m.ordered_keys_toList moved (k,n) entered equal).imp_left (congrArg Prod.fst)

end DdosDetector.Tally
