import Mathlib

/-!
Points as lines of text: a measurement with its tags, the fields and the time, set off by
blanks; commas and equal signs set off what is inside. Words that hold none of these
characters need no escapes, and a line of such words is read back as it was written.
-/
namespace DdosDetector.LineProtocol

/-- A point. Its fields and its time are texts or, once read, numbers. -/
structure Point (Value : Type) where
  measurement : List Char
  tags : List (List Char × List Char)
  fields : List (List Char × Value)
  time : Value
deriving DecidableEq

def pair (entry : List Char × List Char) : List Char := entry.1 ++ '=' :: entry.2

def Point.line (p : Point (List Char)) : List Char :=
  [' '].intercalate [[','].intercalate (p.measurement :: p.tags.map pair),[','].intercalate (p.fields.map pair),p.time]

/-- The line up to its time. -/
def Point.head {Value : Type} (p : Point Value) (text : Value → List Char) : List Char :=
  [','].intercalate (p.measurement :: p.tags.map pair) ++ ' ' ::
    ([','].intercalate (p.fields.map fun field => pair (field.1,text field.2)) ++ [' '])

theorem Point.line_head (p : Point (List Char)) : p.line = p.head id ++ p.time := by
  simp [line,head,List.intercalate]

/-! ### Reading -/

def split_pair (text : List Char) : Option (List Char × List Char) :=
  match text.splitOn '=' with
  | [key,value] => some (key,value)
  | _ => none

def read_line (line : List Char) : Option (Point (List Char)) :=
  match line.splitOn ' ' with
  | [series,fields,time] =>
    match series.splitOn ',' with
    | measurement :: tags => do
      let tags ← tags.mapM split_pair
      let fields ← (fields.splitOn ',').mapM split_pair
      return ⟨measurement,tags,fields,time⟩
    | [] => none
  | _ => none

def number (digits : List Char) : Option Nat :=
  if digits ≠ [] ∧ digits.all Char.isDigit then some (Nat.ofDigitChars 10 digits 0) else none

def Point.numbers (p : Point (List Char)) : Option (Point Nat) := do
  let fields ← p.fields.mapM fun field => (number field.2).map fun n => (field.1,n)
  let time ← number p.time
  return ⟨p.measurement,p.tags,fields,time⟩

/-- The lines of a text; a newline ends each of them. -/
def lines (text : List Char) : List (List Char) := (text.splitOn '\n').dropLast

def read (text : List Char) : Option (List (Point Nat)) := (lines text).mapM fun line => (read_line line).bind Point.numbers

/-! ### What was written is read -/

/-- The word has none of the characters that set words off. -/
def Plain (word : List Char) : Prop := ∀ c ∈ word, c ∉ [' ',',','=','\n']

theorem Plain.free {word : List Char} (plain : Plain word) {c : Char} (delimiter : c ∈ [' ',',','=','\n']) : c ∉ word :=
  fun member => plain c member delimiter

theorem plain_digits {digits : List Char} (all : ∀ c ∈ digits, c.isDigit = true) : Plain digits := by
  intro c member delimiter
  have digit := all c member
  simp only [List.mem_cons,List.not_mem_nil,or_false] at delimiter
  rcases delimiter with rfl | rfl | rfl | rfl <;> revert digit <;> decide

structure Point.Plain (p : Point (List Char)) : Prop where
  measurement : LineProtocol.Plain p.measurement
  tags : ∀ tag ∈ p.tags, LineProtocol.Plain tag.1 ∧ LineProtocol.Plain tag.2
  fields : ∀ field ∈ p.fields, LineProtocol.Plain field.1 ∧ LineProtocol.Plain field.2
  some_field : p.fields ≠ []
  time : LineProtocol.Plain p.time

theorem split_pair_pair {entry : List Char × List Char} (plain : Plain entry.1 ∧ Plain entry.2) :
    split_pair (pair entry) = some entry := by
  rw [split_pair,pair,List.splitOn_append_cons_self_of_not_mem (plain.1.free (by simp)),
    List.splitOn_eq_singleton (plain.2.free (by simp))]

theorem mapM_map_eq {α β : Type} {f : α → β} {g : β → Option α} {l : List α} (inverse : ∀ a ∈ l, g (f a) = some a) :
    (l.map f).mapM g = some l := by
  induction l with
  | nil => rfl
  | cons a rest ih =>
    rw [List.map_cons,List.mapM_cons,inverse a (by simp),ih fun b member => inverse b (List.mem_cons_of_mem a member)]
    rfl

theorem mem_pair {entry : List Char × List Char} {c : Char} : c ∈ pair entry ↔ c ∈ entry.1 ∨ c = '=' ∨ c ∈ entry.2 := by
  simp [pair]

/-- A character that sets words off, other than the equal sign, is in no pair. -/
theorem not_mem_pair {entry : List Char × List Char} (plain : Plain entry.1 ∧ Plain entry.2) {c : Char}
    (delimiter : c ∈ [' ',',','\n']) : c ∉ pair entry := by
  have among : c ∈ [' ',',','=','\n'] := by
    simp only [List.mem_cons,List.not_mem_nil,or_false] at delimiter ⊢
    tauto
  have other : c ≠ '=' := by
    rintro rfl
    revert delimiter
    decide
  rw [mem_pair]
  rintro (first | equal | last)
  · exact plain.1.free among first
  · exact other equal
  · exact plain.2.free among last

theorem mem_intercalate {c separator : Char} {words : List (List Char)} (member : c ∈ [separator].intercalate words) :
    c = separator ∨ ∃ word ∈ words, c ∈ word := by
  rw [List.intercalate,List.mem_flatten] at member
  obtain ⟨piece,inside,here⟩ := member
  by_cases word : piece ∈ words
  · exact .inr ⟨piece,word,here⟩
  · refine .inl ?_
    have is_separator : piece = [separator] := by
      induction words with
      | nil => cases inside
      | cons first rest ih =>
        cases rest with
        | nil => exact absurd (by simpa using inside) word
        | cons second others =>
          rw [List.intersperse_cons_cons,List.mem_cons,List.mem_cons] at inside
          rcases inside with rfl | rfl | later
          · exact absurd (by simp) word
          · rfl
          · exact ih later fun among => word (List.mem_cons_of_mem _ among)
    rw [is_separator,List.mem_singleton] at here
    exact here

theorem read_line_line {p : Point (List Char)} (plain : p.Plain) : read_line p.line = some p := by
  have series_plain : ∀ word ∈ p.measurement :: p.tags.map pair, ∀ c ∈ [' ',',','\n'], c ∉ word := by
    intro word member c delimiter
    rw [List.mem_cons,List.mem_map] at member
    rcases member with rfl | ⟨tag,tag_member,rfl⟩
    · refine plain.measurement.free ?_
      simp only [List.mem_cons,List.not_mem_nil,or_false] at delimiter ⊢
      tauto
    · exact not_mem_pair (plain.tags tag tag_member) delimiter
  have fields_plain : ∀ word ∈ p.fields.map pair, ∀ c ∈ [' ',',','\n'], c ∉ word := by
    intro word member c delimiter
    obtain ⟨field,field_member,rfl⟩ := List.mem_map.mp member
    exact not_mem_pair (plain.fields field field_member) delimiter
  have no_blank {words : List (List Char)} (all : ∀ word ∈ words, ∀ c ∈ [' ',',','\n'], c ∉ word) :
      ' ' ∉ [','].intercalate words := by
    intro member
    rcases mem_intercalate member with comma | ⟨word,inside,here⟩
    · exact absurd comma (by decide)
    · exact all word inside ' ' (by simp) here
  have parts : p.line.splitOn ' ' =
      [[','].intercalate (p.measurement :: p.tags.map pair),[','].intercalate (p.fields.map pair),p.time] := by
    refine List.splitOn_intercalate ' ' (fun word member => ?_) (by simp)
    simp only [List.mem_cons,List.not_mem_nil,or_false] at member
    rcases member with rfl | rfl | rfl
    · exact no_blank series_plain
    · exact no_blank fields_plain
    · exact plain.time.free (by simp)
  have series : ([','].intercalate (p.measurement :: p.tags.map pair)).splitOn ',' = p.measurement :: p.tags.map pair :=
    List.splitOn_intercalate ',' (fun word member => series_plain word member ',' (by simp)) (by simp)
  have fields : ([','].intercalate (p.fields.map pair)).splitOn ',' = p.fields.map pair :=
    List.splitOn_intercalate ',' (fun word member => fields_plain word member ',' (by simp)) (by simpa using plain.some_field)
  simp only [read_line,parts,series,fields,mapM_map_eq fun tag member => split_pair_pair (plain.tags tag member),
    mapM_map_eq fun field member => split_pair_pair (plain.fields field member)]
  rfl

/-- Up to the time there are only the words and what sets them off. -/
theorem not_mem_head {p : Point (List Char)} {c : Char} (other : c ∉ [' ',',','='])
    (measurement : c ∉ p.measurement) (tags : ∀ tag ∈ p.tags, c ∉ tag.1 ∧ c ∉ tag.2)
    (fields : ∀ field ∈ p.fields, c ∉ field.1 ∧ c ∉ field.2) : c ∉ p.head id := by
  simp only [List.mem_cons,List.not_mem_nil,or_false,not_or] at other
  obtain ⟨no_blank,no_comma,no_equal⟩ := other
  have in_pair {entry : List Char × List Char} (free : c ∉ entry.1 ∧ c ∉ entry.2) : c ∉ pair entry := by
    rw [mem_pair]
    rintro (first | equal | last)
    · exact free.1 first
    · exact no_equal equal
    · exact free.2 last
  rw [Point.head,List.mem_append,List.mem_cons,List.mem_append,List.mem_singleton]
  rintro (series | blank | listed | blank)
  · rcases mem_intercalate series with comma | ⟨word,member,here⟩
    · exact no_comma comma
    · rw [List.mem_cons,List.mem_map] at member
      rcases member with rfl | ⟨tag,tag_member,rfl⟩
      · exact measurement here
      · exact in_pair (tags tag tag_member) here
  · exact no_blank blank
  · rcases mem_intercalate listed with comma | ⟨word,member,here⟩
    · exact no_comma comma
    · obtain ⟨field,field_member,rfl⟩ := List.mem_map.mp member
      exact in_pair (fields field field_member) here
  · exact no_blank blank

theorem newline_not_mem_line {p : Point (List Char)} (plain : p.Plain) : '\n' ∉ p.line := by
  rw [Point.line_head,List.mem_append,not_or]
  refine ⟨not_mem_head (by decide) (plain.measurement.free (by simp)) ?_ ?_,plain.time.free (by simp)⟩
  · exact fun tag member => ⟨(plain.tags tag member).1.free (by simp),(plain.tags tag member).2.free (by simp)⟩
  · exact fun field member => ⟨(plain.fields field member).1.free (by simp),(plain.fields field member).2.free (by simp)⟩

theorem lines_flatMap {texts : List (List Char)} (one_line : ∀ text ∈ texts, '\n' ∉ text) :
    lines (texts.flatMap fun text => text ++ ['\n']) = texts := by
  have pieces : (texts.flatMap fun text => text ++ ['\n']).splitOn '\n' = texts ++ [[]] := by
    induction texts with
    | nil => rfl
    | cons text rest ih =>
      rw [List.flatMap_cons,List.append_assoc,List.singleton_append,
        List.splitOn_append_cons_self_of_not_mem (one_line text (by simp)),
        ih fun other member => one_line other (List.mem_cons_of_mem text member),List.cons_append]
  rw [lines,pieces,List.dropLast_concat]

/-- The points of plain words that a text holds, line by line, are read from it. -/
theorem read_points {points : List (Point (List Char))} (plain : ∀ p ∈ points, p.Plain) :
    read (points.flatMap fun p => p.line ++ ['\n']) = points.mapM Point.numbers := by
  have one_line : ∀ text ∈ points.map Point.line, '\n' ∉ text := by
    intro text member
    obtain ⟨p,p_member,rfl⟩ := List.mem_map.mp member
    exact newline_not_mem_line (plain p p_member)
  have texts : (points.flatMap fun p => p.line ++ ['\n']) = (points.map Point.line).flatMap fun text => text ++ ['\n'] := by
    rw [List.flatMap_map]
  rw [read,texts,lines_flatMap one_line]
  clear texts one_line
  induction points with
  | nil => rfl
  | cons p rest ih =>
    rw [List.map_cons,List.mapM_cons,List.mapM_cons,read_line_line (plain p (by simp)),
      ih fun q member => plain q (List.mem_cons_of_mem p member)]
    rfl

/-! ### Numbers -/

theorem number_digits {digits : List Char} (some_digit : digits ≠ []) (all : ∀ c ∈ digits, c.isDigit = true) :
    number digits = some (Nat.ofDigitChars 10 digits 0) := if_pos ⟨some_digit,List.all_eq_true.mpr all⟩

theorem number_toDigits (n : Nat) : number (Nat.toDigits 10 n) = some n := by
  rw [number_digits Nat.toDigits_ne_nil fun c member => Nat.isDigit_of_mem_toDigits (by decide) (by decide) member,
    Nat.ofDigitChars_ten_toDigits]

/-- Zeros behind a numeral multiply its number. -/
theorem number_zeros (n k : Nat) : number (Nat.toDigits 10 n ++ List.replicate k '0') = some (10^k * n) := by
  have digits : ∀ c ∈ Nat.toDigits 10 n ++ List.replicate k '0', c.isDigit = true := by
    intro c member
    rw [List.mem_append,List.mem_replicate] at member
    rcases member with digit | ⟨_,rfl⟩
    · exact Nat.isDigit_of_mem_toDigits (by decide) (by decide) digit
    · rfl
  rw [number_digits (by simp) digits,Nat.ofDigitChars_append,Nat.ofDigitChars_ten_toDigits,Nat.ofDigitChars_replicate_zero]

end DdosDetector.LineProtocol
