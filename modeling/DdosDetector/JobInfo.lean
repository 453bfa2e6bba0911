import DdosDetector.BaseRule

/-!
The information that a rule gives to the script of its job, and what the script that
dumps an attack reads of it. The separator is not escaped and the comment is left out
where it is empty, so that the three elements that the script reads are the rule's own
only for some comments.
-/
namespace DdosDetector

/-- No address has been counted more often; an address that is not there counts as zero. -/
def CountersList.Top (l : CountersList) (address : UInt32) : Prop :=
  ∀ other, l.map_.getD other 0 ≤ l.map_.getD address 0

/-- `params` of `send-dump.py`. -/
def send_dump_params (argv1 : Text) : List Text := argv1.splitOn '|'

/-- The elements that the script reads are the type, a dotted quad of a top destination
    and the comment. -/
def ReadBack (platform : Platform) (r : BaseRule) : Prop :=
  ∃ quad address, (send_dump_params (r.get_job_info platform))[0]? = some r.rule_type ∧
    (send_dump_params (r.get_job_info platform))[1]? = some quad ∧
    (send_dump_params (r.get_job_info platform))[2]? = some r.comment ∧
    dotted_quad quad = .ok address ∧ r.dst_top.Top address

/-! ### What is split -/

/-- A text with the separator in it is not the first piece of itself and what follows. -/
theorem first_piece_ne {separator : Char} {text : Text} (inside : separator ∈ text) (rest : Text) :
    ((text ++ rest).splitOn separator)[0]? ≠ some text := by
  obtain ⟨before,after,rfl,first⟩ := List.eq_append_cons_of_mem inside
  rw [List.append_assoc,List.cons_append,List.splitOn_append_cons_self_of_not_mem first,List.getElem?_cons_zero]
  intro same
  have sizes := congrArg List.length (Option.some.inj same)
  rw [List.length_append,List.length_cons] at sizes
  omega

/-- A dotted quad is made of dots and digits. -/
theorem dotted_quad_letters {text : Text} {address : UInt32} (read : dotted_quad text = .ok address) :
    ∀ c ∈ text, c = '.' ∨ c.isDigit = true := by
  unfold dotted_quad at read
  dsimp only at read
  split at read
  · rename_i a b c d parts
    split_ifs at read with all
    have joined : ['.'].intercalate (text.splitOn '.') = text := List.intercalate_splitOn '.'
    simp only [Bool.and_eq_true,decide_eq_true_eq,List.all_eq_true] at all
    obtain ⟨⟨⟨⟨_,a_digits,_⟩,⟨_,b_digits,_⟩⟩,⟨_,c_digits,_⟩⟩,⟨_,d_digits,_⟩⟩ := all
    intro letter member
    rw [← joined,parts] at member
    simp only [List.intercalate,List.intersperse,List.flatten_cons,List.flatten_nil,List.mem_append,
      List.mem_singleton,List.append_nil] at member
    rcases member with inside | dot | inside | dot | inside | dot | inside
    · exact .inr (a_digits letter inside)
    · exact .inl dot
    · exact .inr (b_digits letter inside)
    · exact .inl dot
    · exact .inr (c_digits letter inside)
    · exact .inl dot
    · exact .inr (d_digits letter inside)
  · cases read

theorem dotted_quad_whole {text : Text} {address : UInt32} (read : dotted_quad text = .ok address) : '|' ∉ text := by
  intro inside
  rcases dotted_quad_letters read '|' inside with dot | digit
  · exact absurd dot (by decide)
  · exact absurd digit (by decide)

theorem get_max_top (l : CountersList) : l.Top (Tally.scan_max (0,0) l.map_.toList).1 :=
  fun other => Tally.scan_max_top l.map_ 0 other

/-! ### The elements -/

/-- The script reads a rule's type, top destination and comment exactly if the type has
    no separator in it, and the comment neither has one nor is empty. -/
theorem read_back_iff (platform : Platform) (quads : ∀ address, dotted_quad (platform.address_to_string address) = .ok address)
    (r : BaseRule) : ReadBack platform r ↔ '|' ∉ r.rule_type ∧ r.comment ≠ [] ∧ '|' ∉ r.comment := by
  have info : r.get_job_info platform = r.rule_type ++ '|' :: (r.dst_top.get_max platform ++
      if r.comment = [] then [] else '|' :: r.comment) := by
    simp [BaseRule.get_job_info]
  have whole : '|' ∉ r.dst_top.get_max platform := dotted_quad_whole (quads _)
  rw [ReadBack,info]
  by_cases split : '|' ∈ r.rule_type
  · refine iff_of_false ?_ fun all => all.1 split
    rintro ⟨_,_,type,_⟩
    exact first_piece_ne split _ type
  rw [send_dump_params,List.splitOn_append_cons_self_of_not_mem split]
  by_cases none : r.comment = []
  · rw [if_pos none,List.append_nil,List.splitOn_eq_singleton whole]
    simp [none]
  rw [if_neg none,List.splitOn_append_cons_self_of_not_mem whole]
  simp only [List.getElem?_cons_zero,List.getElem?_cons_succ,split,none,not_false_eq_true,ne_eq,true_and]
  constructor
  · rintro ⟨_,_,_,comment,_⟩ inside
    exact first_piece_ne inside [] (by rwa [List.append_nil])
  · intro one
    rw [List.splitOn_eq_singleton one]
    exact ⟨_,_,rfl,rfl,quads _,get_max_top r.dst_top⟩

/-- A number of a dotted quad, as it is written and read. -/
theorem octet_read : ∀ n < 256, (toString n).toList ≠ [] ∧ (toString n).toList.all Char.isDigit = true ∧
    decimal (toString n).toList = n ∧ ((toString n).toList.length = 1 ∨ (toString n).toList.head? ≠ some '0') := by
  decide +kernel

/-- The numbers of an address, from the highest. -/
def octets (address : UInt32) : List Nat :=
  [address.toNat / 2^24,address.toNat / 2^16 % 256,address.toNat / 2^8 % 256,address.toNat % 256]

theorem octets_small (address : UInt32) : ∀ n ∈ octets address, n < 256 := by
  have range := address.toNat_lt
  intro n member
  simp only [octets,List.mem_cons,List.not_mem_nil,or_false] at member
  omega

theorem address_to_string_octets (address : UInt32) : documented.address_to_string address =
    ['.'].intercalate ((octets address).map fun octet => (toString octet).toList) := by
  have mask (x : UInt32) : (x &&& (255 : UInt32)).toNat = x.toNat % 256 := by
    rw [UInt32.toNat_and]
    exact Nat.and_two_pow_sub_one_eq_mod x.toNat 8
  have first : (address >>> 24).toNat = address.toNat / 2^24 := by
    rw [UInt32.toNat_shiftRight,← Nat.shiftRight_eq_div_pow]
    rfl
  have second : ((address >>> 16) &&& (255 : UInt32)).toNat = address.toNat / 2^16 % 256 := by
    rw [mask,UInt32.toNat_shiftRight,← Nat.shiftRight_eq_div_pow]
    rfl
  have third : ((address >>> 8) &&& (255 : UInt32)).toNat = address.toNat / 2^8 % 256 := by
    rw [mask,UInt32.toNat_shiftRight,← Nat.shiftRight_eq_div_pow]
    rfl
  have fourth : (address &&& (255 : UInt32)).toNat = address.toNat % 256 := mask address
  rw [octets,← first,← second,← third,← fourth]
  rfl

theorem quad_parts (address : UInt32) : (documented.address_to_string address).splitOn '.' =
    (octets address).map fun octet => (toString octet).toList := by
  rw [address_to_string_octets]
  refine List.splitOn_intercalate '.' ?_ (by simp [octets])
  intro part member dot
  obtain ⟨n,octet,rfl⟩ := List.mem_map.mp member
  have digit := List.all_eq_true.mp (octet_read n (octets_small address n octet)).2.1 '.' dot
  exact absurd digit (by decide)

/-- The numbers of a dotted quad are those of the address. -/
theorem quad_read (address : UInt32) : dotted_quad (documented.address_to_string address) = .ok address := by
  have range := address.toNat_lt
  have a := octet_read (address.toNat / 2^24) (by omega)
  have b := octet_read (address.toNat / 2^16 % 256) (by omega)
  have c := octet_read (address.toNat / 2^8 % 256) (by omega)
  have d := octet_read (address.toNat % 256) (by omega)
  have small : address.toNat / 2^24 < 256 := by omega
  have whole : ((address.toNat / 2^24 * 256 + address.toNat / 2^16 % 256) * 256 + address.toNat / 2^8 % 256) * 256 +
      address.toNat % 256 = address.toNat := by omega
  unfold dotted_quad
  simp only [quad_parts,octets,List.map_cons,List.map_nil,a.2.1,a.2.2,b.2.1,b.2.2,c.2.1,c.2.2,d.2.1,d.2.2,small,Nat.mod_lt,
    Nat.ofNat_pos,and_true,whole,UInt32.ofNat_toNat]
  simp only [decide_eq_true a.1,decide_eq_true b.1,decide_eq_true c.1,decide_eq_true d.1,Bool.and_self,↓reduceIte]

/-- A rule with a destination and this comment. -/
def commented (comment : Text) : BaseRule :=
  { rule_type := "tcp", comment := comment, dst_top := CountersList.increase {} 167772161 }

theorem read_back_flood : ReadBack documented (commented "flood") := by
  have type : '|' ∉ (commented "flood").rule_type := by simp [commented]
  have comment : (commented "flood").comment ≠ [] ∧ '|' ∉ (commented "flood").comment := by simp [commented]
  exact (read_back_iff documented quad_read _).mpr ⟨type,comment⟩

/-- Without a comment there is nothing to read, and a comment with a separator is cut. -/
theorem comments_not_read_back : (∀ address, dotted_quad (documented.address_to_string address) = .ok address) ∧
    (send_dump_params ((commented "").get_job_info documented))[2]? = none ∧
    (send_dump_params ((commented "flood|web").get_job_info documented))[2]? = some "flood".toList ∧
    ¬ ReadBack documented (commented "") ∧ ¬ ReadBack documented (commented "flood|web") := by
  have empty : (send_dump_params ((commented "").get_job_info documented))[2]? = none := by decide +kernel
  have cut : (send_dump_params ((commented "flood|web").get_job_info documented))[2]? = some "flood".toList := by
    decide +kernel
  refine ⟨quad_read,empty,cut,?_,?_⟩
  · rintro ⟨_,_,_,_,comment,_⟩
    cases empty.symm.trans comment
  · rintro ⟨_,_,_,_,comment,_⟩
    have same := Option.some.inj (cut.symm.trans comment)
    exact absurd (congrArg List.length same) (by decide +kernel)

end DdosDetector
