import DdosDetector.Runs

/-!
Lines in a stream that arrives in pieces. The lines of a stream end at a stop letter.
A reader that gathers pieces until one of them brings a stop letter, and then takes
all that it has gathered for one line, finds the lines of the stream only where every
piece stops with the line that it completes. Letters of a kind that is dropped from
the lines, to which the stop letter belongs, may follow it.
-/
namespace DdosDetector.Framing
universe u

variable {Letter : Type u} [DecidableEq Letter]

/-- The complete lines of a stream without their stop letters, where `pending` is what
    came before the stream. -/
def lines (stop : Letter) (pending : List Letter) : List Letter → List (List Letter)
  | [] => []
  | c :: rest => if c = stop then pending :: lines stop [] rest else lines stop (pending ++ [c]) rest

/-- The elements up to the first that ends them, which is included. -/
def upto {α : Type u} (ends : α → Bool) : List α → List α
  | [] => []
  | a :: rest => a :: if ends a then [] else upto ends rest

/-- What the reader takes for lines: at the first piece that brings a stop letter, all
    that it has gathered, without the dropped letters. -/
def gather (stop : Letter) (dropped : Letter → Bool) (ends : List Letter → Bool) (pending : List Letter) :
    List (List Letter) → List (List Letter)
  | [] => []
  | piece :: pieces =>
    let text := pending ++ piece
    if stop ∈ text then
      let line := text.filter fun c => !dropped c
      line :: if ends line then [] else gather stop dropped ends [] pieces
    else gather stop dropped ends text pieces

/-- Every piece stops with the line that it completes. Behind the last line there may
    be dropped letters, where the reader knows it for the last; a line that ends the
    reader otherwise is the last of the stream. -/
def Framed (stop : Letter) (dropped : Letter → Bool) (last ends : List Letter → Bool) (pending : List Letter) :
    List (List Letter) → Prop
  | [] => True
  | piece :: pieces =>
    if stop ∈ piece then
      let line := (pending ++ piece.takeWhile (· ≠ stop)).filter fun c => !dropped c
      let behind := (piece.dropWhile (· ≠ stop)).tail
      (∀ c ∈ behind, dropped c = true) ∧
        (last line = true ∨
          stop ∉ behind ∧ if ends line then ∀ later ∈ pieces, stop ∉ later else Framed stop dropped last ends [] pieces)
    else Framed stop dropped last ends (pending ++ piece) pieces

variable {stop : Letter} {dropped : Letter → Bool} {last ends : List Letter → Bool}

/-! ### Lines -/

theorem lines_append {pending text : List Letter} (unfinished : stop ∉ text) (rest : List Letter) :
    lines stop pending (text ++ rest) = lines stop (pending ++ text) rest := by
  induction text generalizing pending with
  | nil => simp
  | cons c text ih =>
    have other : c ≠ stop := fun same => unfinished (by simp [same])
    have further : stop ∉ text := fun member => unfinished (by simp [member])
    rw [List.cons_append,lines,if_neg other,ih further,List.append_assoc,List.singleton_append]

theorem lines_stop {pending text : List Letter} (unfinished : stop ∉ text) (rest : List Letter) :
    lines stop pending (text ++ stop :: rest) = (pending ++ text) :: lines stop [] rest := by
  rw [lines_append unfinished,lines,if_pos rfl]

theorem lines_eq_nil_iff (pending text : List Letter) : lines stop pending text = [] ↔ stop ∉ text := by
  induction text generalizing pending with
  | nil => simp [lines]
  | cons c text ih =>
    by_cases same : c = stop
    · simp [lines,same]
    · simp [lines,same,ih,Ne.symm same]

/-- A line holds letters of the stream and of what came before it, and no stop letter
    of the stream. -/
theorem letters_of_lines {pending text line : List Letter} (member : line ∈ lines stop pending text) :
    ∀ c ∈ line, c ∈ pending ∨ c ∈ text ∧ c ≠ stop := by
  induction text generalizing pending with
  | nil => simp [lines] at member
  | cons d text ih =>
    intro c inside
    by_cases same : d = stop
    · rw [lines,if_pos same,List.mem_cons] at member
      rcases member with rfl | later
      · exact .inl inside
      · rcases ih later c inside with none | ⟨further,other⟩
        · exact absurd none List.not_mem_nil
        · exact .inr ⟨List.mem_cons_of_mem d further,other⟩
    · rw [lines,if_neg same] at member
      rcases ih member c inside with old | ⟨further,other⟩
      · rcases List.mem_append.mp old with before | new
        · exact .inl before
        · obtain rfl := List.mem_singleton.mp new
          exact .inr ⟨by simp,same⟩
      · exact .inr ⟨List.mem_cons_of_mem d further,other⟩

/-- Dropped letters before the stream do not show in its lines. -/
theorem map_lines_congr {pending pending' : List Letter}
    (same : pending.filter (fun c => !dropped c) = pending'.filter fun c => !dropped c) (text : List Letter) :
    (lines stop pending text).map (List.filter fun c => !dropped c) =
      (lines stop pending' text).map (List.filter fun c => !dropped c) := by
  induction text generalizing pending pending' with
  | nil => rfl
  | cons c text ih =>
    by_cases at_stop : c = stop
    · simp [lines,at_stop,same]
    · simp only [lines,at_stop,↓reduceIte]
      exact ih (by simp [same])

/-- A stretch of dropped letters before a stream makes empty lines, as many as it has
    stop letters. -/
theorem map_lines_dropped {behind : List Letter} (blank : ∀ c ∈ behind, dropped c = true) (rest : List Letter) :
    (lines stop [] (behind ++ rest)).map (List.filter fun c => !dropped c) =
      List.replicate (behind.count stop) [] ++ (lines stop [] rest).map (List.filter fun c => !dropped c) := by
  suffices every : ∀ pending : List Letter, (∀ c ∈ pending, dropped c = true) →
      (lines stop pending (behind ++ rest)).map (List.filter fun c => !dropped c) =
        List.replicate (behind.count stop) [] ++ (lines stop [] rest).map (List.filter fun c => !dropped c) from
    every [] (by simp)
  induction behind with
  | nil =>
    intro pending empty
    simpa using map_lines_congr (by simpa using empty) rest
  | cons c behind ih =>
    intro pending empty
    have c_dropped : dropped c = true := blank c (by simp)
    have further : ∀ d ∈ behind, dropped d = true := fun d member => blank d (by simp [member])
    by_cases same : c = stop
    · subst same
      have line : pending.filter (fun d => !dropped d) = [] := by simpa using empty
      rw [List.cons_append,lines,if_pos rfl,List.map_cons,line,ih further [] (by simp),List.count_cons_self,
        List.replicate_succ,List.cons_append]
    · rw [List.cons_append,lines,if_neg same,List.count_cons_of_ne same]
      refine ih further (pending ++ [c]) ?_
      intro d member
      rcases List.mem_append.mp member with old | new
      · exact empty d old
      · rw [List.mem_singleton.mp new]
        exact c_dropped

/-! ### Up to the last line -/

theorem upto_eq_nil_iff {α : Type u} (ends : α → Bool) (l : List α) : upto ends l = [] ↔ l = [] := by
  cases l with
  | nil => simp [upto]
  | cons a rest => simp [upto]

theorem upto_replicate {α : Type u} {ends : α → Bool} {a : α} (goes_on : ends a = false) (n : Nat) (l : List α) :
    upto ends (List.replicate n a ++ l) = List.replicate n a ++ upto ends l := by
  induction n with
  | zero => simp
  | succ n ih => simp [List.replicate_succ,upto,goes_on,ih]

/-! ### Pieces -/

/-- A piece with a stop letter, around the first one. -/
theorem around_stop {piece : List Letter} (member : stop ∈ piece) :
    ∃ before behind, piece = before ++ stop :: behind ∧ stop ∉ before ∧
      piece.takeWhile (· ≠ stop) = before ∧ (piece.dropWhile (· ≠ stop)).tail = behind := by
  obtain ⟨before,behind,split,first⟩ := List.eq_append_cons_of_mem member
  refine ⟨before,behind,split,first,?_,?_⟩
  all_goals
    have others : ∀ c ∈ before, decide (c ≠ stop) = true :=
      fun c inside => decide_eq_true fun same => first (same ▸ inside)
  · rw [split,List.takeWhile_append_of_pos others,List.takeWhile_cons_of_neg (by simp),List.append_nil]
  · rw [split,List.dropWhile_append_of_pos others,List.dropWhile_cons_of_neg (by simp),List.tail_cons]

omit [DecidableEq Letter] in
theorem not_last_of_goes_on (last_ends : ∀ line, last line = true → ends line = true) {line : List Letter}
    (goes_on : ends line = false) : last line = false :=
  Bool.eq_false_iff.mpr fun final => by simp [last_ends line final] at goes_on

/-- A reader never catches up with a stream that is ahead of it by empty lines: each
    of its lines takes at least one line of the stream. -/
theorem gather_ne_ahead (last_ends : ∀ line, last line = true → ends line = true) (goes_on : ends [] = false)
    (pieces : List (List Letter)) {pending : List Letter} (unfinished : stop ∉ pending) (n : Nat) :
    gather stop dropped ends pending pieces ≠ List.replicate (n + 1) [] ++
      upto last ((lines stop pending pieces.flatten).map (List.filter fun c => !dropped c)) := by
  induction pieces generalizing pending n with
  | nil => simp [gather,List.replicate_succ]
  | cons piece pieces ih =>
    by_cases brings : stop ∈ piece
    · obtain ⟨before,behind,rfl,first,_,_⟩ := around_stop brings
      intro equal
      rw [gather,if_pos (by simp),List.replicate_succ,List.cons_append] at equal
      obtain ⟨head,tails⟩ := List.cons.inj equal
      rw [head,if_neg (by simp [goes_on])] at tails
      have blank : ∀ c ∈ pending ++ (before ++ stop :: behind), dropped c = true := by
        simpa only [List.filter_eq_nil_iff,Bool.not_eq_true',Bool.not_eq_false] using head
      have line : (pending ++ before).filter (fun c => !dropped c) = [] := by
        simp only [List.filter_eq_nil_iff,Bool.not_eq_true',Bool.not_eq_false]
        exact fun c member => blank c (by simp only [List.mem_append] at member ⊢; tauto)
      have not_last := not_last_of_goes_on last_ends goes_on
      rw [List.flatten_cons,List.append_assoc,List.cons_append,lines_stop first,List.map_cons,line,upto,
        if_neg (by simp [not_last]),map_lines_dropped (fun c member => blank c (by simp [member])),
        upto_replicate not_last] at tails
      refine ih (List.not_mem_nil) (n + behind.count stop) (tails.trans ?_)
      rw [← List.cons_append,← List.replicate_succ,← List.append_assoc,List.replicate_append_replicate]
      rw [Nat.add_assoc]
    · have longer : stop ∉ pending ++ piece := by simp [unfinished,brings]
      rw [gather,if_neg longer,List.flatten_cons,lines_append brings]
      exact ih longer n

/-- The reader finds the lines of the stream, up to the last, exactly if every piece
    stops with the line that it completes. -/
theorem gather_eq_lines_iff (stop_dropped : dropped stop = true) (last_ends : ∀ line, last line = true → ends line = true)
    (goes_on : ends [] = false) (pieces : List (List Letter)) {pending : List Letter} (unfinished : stop ∉ pending) :
    gather stop dropped ends pending pieces =
        upto last ((lines stop pending pieces.flatten).map (List.filter fun c => !dropped c)) ↔
      Framed stop dropped last ends pending pieces := by
  induction pieces generalizing pending with
  | nil => simp [gather,lines,upto,Framed]
  | cons piece pieces ih =>
    by_cases brings : stop ∈ piece
    · obtain ⟨before,behind,split,first,front,back⟩ := around_stop brings
      rw [gather,Framed,if_pos (by simp [brings]),if_pos brings,front,back,List.flatten_cons,split,List.append_assoc,
        List.cons_append,lines_stop first,List.map_cons,upto]
      have gathered : (pending ++ (before ++ stop :: behind)).filter (fun c => !dropped c) =
          (pending ++ before).filter (fun c => !dropped c) ++ behind.filter fun c => !dropped c := by
        simp [stop_dropped]
      simp only [gathered]
      generalize (pending ++ before).filter (fun c => !dropped c) = line
      by_cases blank : ∀ c ∈ behind, dropped c = true
      · have nothing : behind.filter (fun c => !dropped c) = [] := by simpa using blank
        rw [nothing,List.append_nil,map_lines_dropped blank]
        cases final : last line with
        | true => simpa [last_ends line final] using blank
        | false =>
          have not_last := not_last_of_goes_on last_ends goes_on
          rw [and_iff_right blank,List.cons.injEq,and_iff_right rfl]
          simp only [Bool.false_eq_true,false_or,↓reduceIte]
          rw [upto_replicate not_last]
          cases over_now : ends line with
          | true =>
            rw [if_pos rfl,eq_comm,List.append_eq_nil_iff,List.replicate_eq_nil_iff,List.count_eq_zero,upto_eq_nil_iff,
              List.map_eq_nil_iff,lines_eq_nil_iff]
            simp
          | false =>
            simp only [Bool.false_eq_true,↓reduceIte]
            by_cases ahead : stop ∈ behind
            · obtain ⟨n,count⟩ := Nat.exists_eq_succ_of_ne_zero (List.count_pos_iff.mpr ahead).ne'
              rw [count]
              have nothing_pending : stop ∉ ([] : List Letter) := List.not_mem_nil
              exact iff_of_false (gather_ne_ahead last_ends goes_on pieces nothing_pending n) fun framed => framed.1 ahead
            · rw [List.count_eq_zero.mpr ahead,List.replicate_zero,List.nil_append,and_iff_right ahead]
              exact ih List.not_mem_nil
      · -- a letter behind the stop letter is glued to the line
        refine iff_of_false (fun equal => ?_) fun framed => blank framed.1
        have heads : line ++ behind.filter (fun c => !dropped c) = line := (List.cons.inj equal).1
        exact blank (by simpa using heads)
    · have longer : stop ∉ pending ++ piece := by simp [unfinished,brings]
      rw [gather,Framed,if_neg longer,if_neg brings,List.flatten_cons,lines_append brings]
      exact ih longer

/-! ### Piece by piece -/

/-- A reader between two pieces: what it has gathered, the lines that it has found, and
    whether the last of them has ended it. -/
structure Reader (Letter : Type u) where
  pending : List Letter
  found : List (List Letter)
  ended : Bool

namespace Reader

/-- The reader after one more piece, which it takes unless it has ended. -/
def take (stop : Letter) (dropped : Letter → Bool) (ends : List Letter → Bool) (piece : List Letter) (r : Reader Letter) :
    Option (Reader Letter) :=
  if r.ended then none
  else
    let text := r.pending ++ piece
    if stop ∈ text then
      let line := text.filter fun c => !dropped c
      some ⟨[],r.found ++ [line],ends line⟩
    else some ⟨text,r.found,false⟩

/-- What the reader will find in further pieces. -/
def rest (stop : Letter) (dropped : Letter → Bool) (ends : List Letter → Bool) (r : Reader Letter)
    (more : List (List Letter)) : List (List Letter) :=
  if r.ended then [] else gather stop dropped ends r.pending more

/-- A piece that is taken does not change what is found in all. -/
theorem take_rest {piece : List Letter} {r r' : Reader Letter} (taken : r.take stop dropped ends piece = some r')
    (more : List (List Letter)) :
    r'.found ++ r'.rest stop dropped ends more = r.found ++ r.rest stop dropped ends (piece :: more) := by
  simp only [take] at taken
  split_ifs at taken with ended brings
  · obtain rfl := Option.some.inj taken
    simp only [rest,ended,Bool.false_eq_true,↓reduceIte,gather,brings,List.append_assoc,List.singleton_append]
  · obtain rfl := Option.some.inj taken
    simp only [rest,ended,Bool.false_eq_true,↓reduceIte,gather,brings]

/-- A reader that starts with nothing finds what is gathered from its pieces. -/
theorem found_eq_gather {ok : Reader Letter → List Letter → Prop} {pieces : List (List Letter)} {r : Reader Letter}
    (run : Runs.Run (take stop dropped ends) ok ⟨[],[],false⟩ pieces r) : r.found = gather stop dropped ends [] pieces := by
  have all : ∀ more, gather stop dropped ends [] (pieces ++ more) = r.found ++ r.rest stop dropped ends more := by
    induction run with
    | nil => intro more; rfl
    | snoc _ _ taken ih =>
      intro more
      rw [List.append_assoc,ih,take_rest taken]
      rfl
  have whole := all []
  have nothing : r.rest stop dropped ends [] = [] := by
    unfold rest
    split_ifs <;> rfl
  rw [List.append_nil,nothing,List.append_nil] at whole
  exact whole.symm

end Reader
end DdosDetector.Framing
