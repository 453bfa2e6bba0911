import Mathlib

/-!
Lists of fields with escapes and quotes: fields end at a separator outside
quotes, a quote opens or closes quoting and is dropped, and an escape is followed
by an escaped character. Only the letter for a new line and the special
characters themselves can be escaped; anything else, and an escape at the end,
is a fault.
-/
namespace DdosDetector.EscapedList
universe u

/-- The special characters of a list, and the letter that escapes to a new line. -/
structure Grammar (Letter : Type u) where
  escape : Letter
  separator : Letter
  quotes : List Letter
  line_letter : Letter
  line : Letter

/-- What is wrong with an escape. -/
inductive Fault
  | trailing
  | unknown
deriving DecidableEq, Repr

variable {Letter : Type u} [DecidableEq Letter]

/-- The character that an escape followed by the letter stands for. -/
def Grammar.escaped (g : Grammar Letter) (c : Letter) : Except Fault Letter :=
  if c = g.line_letter then .ok g.line
  else if c ∈ g.quotes ∨ c = g.separator ∨ c = g.escape then .ok c
  else .error .unknown

/-- The fields from the middle of a field: whether quoting is open, what the
    field holds so far, and the rest of the input. -/
def Grammar.fields (g : Grammar Letter) : Bool → List Letter → List Letter → Except Fault (List (List Letter))
  | _, field, [] => .ok [field]
  | quoted, field, c :: rest =>
    if c = g.escape then
      match rest with
      | [] => .error .trailing
      | d :: rest' => (g.escaped d).bind fun e => g.fields quoted (field ++ [e]) rest'
    else if c = g.separator then
      if quoted then g.fields quoted (field ++ [c]) rest
      else (g.fields false [] rest).map (field :: ·)
    else if c ∈ g.quotes then g.fields (!quoted) field rest
    else g.fields quoted (field ++ [c]) rest

/-- All fields of an input; an empty input has none. -/
def Grammar.split (g : Grammar Letter) (input : List Letter) : Except Fault (List (List Letter)) :=
  if input = [] then .ok [] else g.fields false [] input

/-- Every escape of the input is followed by a letter that can be escaped. -/
def Grammar.WellEscaped (g : Grammar Letter) : List Letter → Prop
  | [] => True
  | c :: rest =>
    if c = g.escape then
      match rest with
      | [] => False
      | d :: rest' => (d = g.line_letter ∨ d ∈ g.quotes ∨ d = g.separator ∨ d = g.escape) ∧ g.WellEscaped rest'
    else g.WellEscaped rest

theorem escaped_ok_iff (g : Grammar Letter) (c : Letter) :
    (∃ e, g.escaped c = .ok e) ↔ c = g.line_letter ∨ c ∈ g.quotes ∨ c = g.separator ∨ c = g.escape := by
  unfold Grammar.escaped
  by_cases line : c = g.line_letter
  · simp [line]
  · by_cases special : c ∈ g.quotes ∨ c = g.separator ∨ c = g.escape
    · simp [line,special]
    · simp [line,special]

theorem fields_plain (g : Grammar Letter) (quoted : Bool) (field : List Letter) {c : Letter} (rest : List Letter)
    (plain : c ≠ g.escape) :
    g.fields quoted field (c :: rest) =
      if c = g.separator then
        if quoted then g.fields quoted (field ++ [c]) rest else (g.fields false [] rest).map (field :: ·)
      else if c ∈ g.quotes then g.fields (!quoted) field rest
      else g.fields quoted (field ++ [c]) rest := by
  rw [Grammar.fields.eq_def]
  simp only [plain,↓reduceIte]

theorem wellEscaped_plain (g : Grammar Letter) {c : Letter} (rest : List Letter) (plain : c ≠ g.escape) :
    g.WellEscaped (c :: rest) ↔ g.WellEscaped rest := by
  rw [Grammar.WellEscaped.eq_def]
  simp only [plain,↓reduceIte]

private theorem fields_ok_iff (g : Grammar Letter) (quoted : Bool) (field input : List Letter) :
    (∃ out, g.fields quoted field input = .ok out) ↔ g.WellEscaped input := by
  induction quoted, field, input using Grammar.fields.induct g with
  | case1 => simp [Grammar.fields,Grammar.WellEscaped]
  | case2 quoted field => simp [Grammar.fields,Grammar.WellEscaped]
  | case3 quoted field d rest ih =>
    rw [Grammar.fields,Grammar.WellEscaped,← escaped_ok_iff]
    cases found : g.escaped d with
    | error fault => simp [Except.bind]
    | ok e => simpa [Except.bind] using ih e
  | case4 field rest plain ih =>
    rw [fields_plain g true field rest plain,wellEscaped_plain g rest plain,if_pos rfl,if_pos rfl]
    exact ih
  | case5 quoted field rest outside plain ih =>
    rw [fields_plain g quoted field rest plain,wellEscaped_plain g rest plain,if_pos rfl,if_neg outside,← ih]
    cases g.fields false [] rest <;> simp [Except.map]
  | case6 quoted field c rest plain inside quote ih =>
    rw [fields_plain g quoted field rest plain,wellEscaped_plain g rest plain,if_neg inside,if_pos quote]
    exact ih
  | case7 quoted field c rest plain inside letter ih =>
    rw [fields_plain g quoted field rest plain,wellEscaped_plain g rest plain,if_neg inside,if_neg letter]
    exact ih

/-- A list can be split exactly when it is well escaped. -/
theorem split_ok_iff (g : Grammar Letter) (input : List Letter) :
    (∃ out, g.split input = .ok out) ↔ g.WellEscaped input := by
  cases input with
  | nil => simp [Grammar.split,Grammar.WellEscaped]
  | cons c rest => simpa [Grammar.split] using fields_ok_iff g false [] (c :: rest)

/-! ### Words and their join -/

/-- The fields that are not empty. -/
def Grammar.words (g : Grammar Letter) (input : List Letter) : Except Fault (List (List Letter)) :=
  (g.split input).map fun fields => fields.filter fun field => !field.isEmpty

/-- Each word and a separator behind it. -/
def Grammar.join (g : Grammar Letter) (words : List (List Letter)) : List Letter :=
  words.flatMap fun word => word ++ [g.separator]

/-- The letters that are read in another way than as themselves. -/
def Grammar.Special (g : Grammar Letter) (c : Letter) : Prop := c = g.escape ∨ c = g.separator ∨ c ∈ g.quotes

/-- The special characters differ, and an escape can stand for one that is not special. -/
structure Grammar.Apart (g : Grammar Letter) : Prop where
  separator : g.separator ≠ g.escape
  quotes : g.separator ∉ g.quotes ∧ g.escape ∉ g.quotes
  line_letter : ¬ g.Special g.line_letter
  line : ¬ g.Special g.line

/-- Nothing special gets into a word: the only escapes are those of a new line, and a
    separator stands only where quoting is not open. -/
def Grammar.Bare (g : Grammar Letter) (quoted : Bool) (input : List Letter) : Prop :=
  (∀ before after, input = before ++ g.escape :: after → after.head? = some g.line_letter) ∧
    ∀ before after, input = before ++ g.separator :: after → (Even (before.countP (· ∈ g.quotes)) ↔ quoted = false)

theorem bare_nil (g : Grammar Letter) (quoted : Bool) : g.Bare quoted [] := by
  constructor
  · intro before after none
    simp at none
  · intro before after none
    simp at none

theorem bare_cons (g : Grammar Letter) (quoted : Bool) (c : Letter) (rest : List Letter) :
    g.Bare quoted (c :: rest) ↔ (c = g.escape → rest.head? = some g.line_letter) ∧ (c = g.separator → quoted = false) ∧
      g.Bare (if c ∈ g.quotes then !quoted else quoted) rest := by
  have parity (before : List Letter) : (Even ((c :: before).countP (· ∈ g.quotes)) ↔ quoted = false) ↔
      (Even (before.countP (· ∈ g.quotes)) ↔ (if c ∈ g.quotes then !quoted else quoted) = false) := by
    by_cases quote : c ∈ g.quotes
    · rw [List.countP_cons_of_pos (by simpa using quote),Nat.even_add_one,if_pos quote]
      cases quoted <;> simp
    · rw [List.countP_cons_of_neg (by simpa using quote),if_neg quote]
  constructor
  · rintro ⟨escapes,separators⟩
    refine ⟨?_,?_,?_,?_⟩
    · rintro rfl
      exact escapes [] rest rfl
    · rintro rfl
      exact (separators [] rest rfl).mp (by simp)
    · rintro before after rfl
      exact escapes (c :: before) after rfl
    · rintro before after rfl
      exact (parity before).mp (separators (c :: before) after rfl)
  · rintro ⟨escape,separator,escapes,separators⟩
    constructor
    · intro before after split
      rcases List.cons_eq_append_iff.mp split with ⟨rfl,same⟩ | ⟨before',rfl,rfl⟩
      · obtain ⟨rfl,rfl⟩ := List.cons.inj same
        exact escape rfl
      · exact escapes before' after rfl
    · intro before after split
      rcases List.cons_eq_append_iff.mp split with ⟨rfl,same⟩ | ⟨before',rfl,rfl⟩
      · obtain ⟨rfl,rfl⟩ := List.cons.inj same
        simpa using separator rfl
      · exact (parity before').mpr (separators before' after rfl)

/-- A letter that is not special changes nothing. -/
theorem bare_letter {g : Grammar Letter} (quoted : Bool) {c : Letter} (rest : List Letter) (plain : ¬ g.Special c) :
    g.Bare quoted (c :: rest) ↔ g.Bare quoted rest := by
  simp only [Grammar.Special,not_or] at plain
  obtain ⟨no_escape,no_separator,no_quote⟩ := plain
  rw [bare_cons,if_neg no_quote]
  simp [no_escape,no_separator]

/-- How many letters are no separators. -/
def Grammar.letters (g : Grammar Letter) (input : List Letter) : Nat := input.countP (· ≠ g.separator)

@[simp] theorem letters_nil (g : Grammar Letter) : g.letters [] = 0 := rfl

@[simp] theorem letters_append (g : Grammar Letter) (input more : List Letter) :
    g.letters (input ++ more) = g.letters input + g.letters more := List.countP_append

theorem letters_cons (g : Grammar Letter) (c : Letter) (rest : List Letter) :
    g.letters (c :: rest) = g.letters rest + if c = g.separator then 0 else 1 := by
  by_cases same : c = g.separator <;> simp [Grammar.letters,same]

theorem letters_concat (g : Grammar Letter) (field : List Letter) (c : Letter) :
    g.letters (field ++ [c]) = g.letters field + if c = g.separator then 0 else 1 := by
  rw [letters_append,letters_cons,letters_nil,Nat.zero_add]

/-- An escaped letter counts no more than the one that it is written with. -/
theorem letters_escaped {g : Grammar Letter} (apart : g.Apart) {d e : Letter} (found : g.escaped d = .ok e) :
    (if e = g.separator then 0 else 1) ≤ if d = g.separator then 0 else 1 := by
  unfold Grammar.escaped at found
  split_ifs at found with letter special
  · subst letter
    have plain : g.line_letter ≠ g.separator := fun same => apart.line_letter (.inr (.inl same))
    rw [if_neg plain]
    split_ifs <;> simp
  · rw [Except.ok.inj found]

theorem map_ok {α β : Type u} {x : Except Fault α} {f : α → β} {b : β} (mapped : x.map f = .ok b) :
    ∃ a, x = .ok a ∧ f a = b := by
  cases x with
  | error fault => cases mapped
  | ok a => exact ⟨a,rfl,Except.ok.inj mapped⟩

/-- The fields have no more letters than the input; quotes and escapes are lost. -/
theorem fields_letters {g : Grammar Letter} (apart : g.Apart) (quoted : Bool) (field input : List Letter)
    {out : List (List Letter)} (split : g.fields quoted field input = .ok out) :
    g.letters out.flatten ≤ g.letters field + g.letters input := by
  induction quoted, field, input using Grammar.fields.induct g generalizing out with
  | case1 quoted field =>
    rw [Grammar.fields] at split
    obtain rfl := Except.ok.inj split
    simp
  | case2 quoted field =>
    rw [Grammar.fields,if_pos rfl] at split
    cases split
  | case3 quoted field d rest ih =>
    rw [Grammar.fields,if_pos rfl] at split
    cases found : g.escaped d with
    | error fault => simp [found,Except.bind] at split
    | ok e =>
      rw [found] at split
      have bound := ih e split
      have escaped := letters_escaped apart found
      rw [letters_concat] at bound
      rw [letters_cons,letters_cons]
      omega
  | case4 field rest plain ih =>
    rw [fields_plain g true field rest plain,if_pos rfl,if_pos rfl] at split
    have bound := ih split
    rw [letters_concat] at bound
    rw [letters_cons]
    omega
  | case5 quoted field rest outside plain ih =>
    rw [fields_plain g quoted field rest plain,if_pos rfl,if_neg outside] at split
    obtain ⟨others,later,rfl⟩ := map_ok split
    have bound := ih later
    rw [List.flatten_cons,letters_append,letters_cons]
    rw [letters_nil] at bound
    omega
  | case6 quoted field c rest plain inside quote ih =>
    rw [fields_plain g quoted field rest plain,if_neg inside,if_pos quote] at split
    have bound := ih split
    rw [letters_cons]
    omega
  | case7 quoted field c rest plain inside letter ih =>
    rw [fields_plain g quoted field rest plain,if_neg inside,if_neg letter] at split
    have bound := ih split
    rw [letters_concat] at bound
    rw [letters_cons]
    omega

/-- If no letter is lost from outside of quotes, there are neither quotes nor escapes. -/
theorem bare_of_letters {g : Grammar Letter} (apart : g.Apart) {field input : List Letter} {out : List (List Letter)}
    (split : g.fields false field input = .ok out) (all : g.letters field + g.letters input ≤ g.letters out.flatten) :
    g.Bare false input := by
  induction input generalizing field out with
  | nil => exact bare_nil g false
  | cons c rest ih =>
    rw [letters_cons] at all
    by_cases escape : c = g.escape
    · subst escape
      rw [if_neg (Ne.symm apart.separator)] at all
      cases rest with
      | nil =>
        rw [Grammar.fields,if_pos rfl] at split
        cases split
      | cons d rest =>
        rw [Grammar.fields,if_pos rfl] at split
        cases found : g.escaped d with
        | error fault => simp [found,Except.bind] at split
        | ok e =>
          rw [found] at split
          have bound := fields_letters apart false (field ++ [e]) rest split
          have escaped := letters_escaped apart found
          rw [letters_concat] at bound
          rw [letters_cons] at all
          omega
    rw [fields_plain g false field rest escape] at split
    by_cases separator : c = g.separator
    · rw [if_pos separator] at split all
      obtain ⟨others,later,rfl⟩ := map_ok split
      rw [List.flatten_cons,letters_append] at all
      have bare := ih later (by rw [letters_nil]; omega)
      refine (bare_cons g false c rest).mpr ⟨fun same => absurd same escape,fun _ => rfl,?_⟩
      rwa [if_neg (separator ▸ apart.quotes.1)]
    rw [if_neg separator] at split all
    by_cases quote : c ∈ g.quotes
    · rw [if_pos quote] at split
      have bound := fields_letters apart true field rest split
      omega
    · rw [if_neg quote] at split
      have ordinary : ¬ g.Special c := by simp [Grammar.Special,escape,separator,quote]
      have bare := ih split (by rw [letters_concat,if_neg separator]; omega)
      exact (bare_letter false rest ordinary).mpr bare

/-- An escape stands for a letter that is not special only if that is the new line. -/
theorem escaped_special_iff {g : Grammar Letter} (apart : g.Apart) {d e : Letter} (found : g.escaped d = .ok e) :
    ¬ g.Special e ↔ d = g.line_letter := by
  unfold Grammar.escaped at found
  split_ifs at found with letter special
  · obtain rfl := Except.ok.inj found
    exact iff_of_true apart.line letter
  · obtain rfl := Except.ok.inj found
    refine iff_of_false (fun plain => plain ?_) letter
    rcases special with quote | separator | escape
    · exact .inr (.inr quote)
    · exact .inr (.inl separator)
    · exact .inl escape

/-- Nothing special gets into the fields exactly if it is not in the field that has been
    begun, and the rest is bare. -/
theorem fields_special_iff {g : Grammar Letter} (apart : g.Apart) (quoted : Bool) (field input : List Letter)
    {out : List (List Letter)} (split : g.fields quoted field input = .ok out) :
    (∀ w ∈ out, ∀ c ∈ w, ¬ g.Special c) ↔ (∀ c ∈ field, ¬ g.Special c) ∧ g.Bare quoted input := by
  induction quoted, field, input using Grammar.fields.induct g generalizing out with
  | case1 quoted field =>
    rw [Grammar.fields] at split
    obtain rfl := Except.ok.inj split
    simp [bare_nil]
  | case2 quoted field =>
    rw [Grammar.fields,if_pos rfl] at split
    cases split
  | case3 quoted field d rest ih =>
    rw [Grammar.fields,if_pos rfl] at split
    cases found : g.escaped d with
    | error fault => simp [found,Except.bind] at split
    | ok e =>
      rw [found] at split
      rw [ih e split,bare_cons,if_neg apart.quotes.2]
      simp only [List.mem_append,List.mem_singleton,or_imp,forall_and,forall_eq,escaped_special_iff apart found,
        List.head?_cons,Option.some.injEq,forall_const]
      have separator : g.escape = g.separator → quoted = false := fun same => absurd same.symm apart.separator
      constructor
      · rintro ⟨⟨plain,letter⟩,bare⟩
        subst letter
        exact ⟨plain,rfl,separator,(bare_letter quoted rest apart.line_letter).mpr bare⟩
      · rintro ⟨plain,letter,_,bare⟩
        subst letter
        exact ⟨⟨plain,rfl⟩,(bare_letter quoted rest apart.line_letter).mp bare⟩
  | case4 field rest plain ih =>
    rw [fields_plain g true field rest plain,if_pos rfl,if_pos rfl] at split
    rw [ih split,bare_cons]
    refine iff_of_false ?_ ?_
    · rintro ⟨letters,_⟩
      exact letters g.separator (by simp) (.inr (.inl rfl))
    · rintro ⟨_,_,outside,_⟩
      cases outside rfl
  | case5 quoted field rest outside plain ih =>
    rw [fields_plain g quoted field rest plain,if_pos rfl,if_neg outside] at split
    obtain ⟨others,later,rfl⟩ := map_ok split
    have closed : quoted = false := by simpa using outside
    rw [List.forall_mem_cons,ih later,bare_cons,if_neg apart.quotes.1]
    simp [plain,closed]
  | case6 quoted field c rest plain inside quote ih =>
    rw [fields_plain g quoted field rest plain,if_neg inside,if_pos quote] at split
    rw [ih split,bare_cons,if_pos quote]
    simp [plain,inside]
  | case7 quoted field c rest plain inside letter ih =>
    rw [fields_plain g quoted field rest plain,if_neg inside,if_neg letter] at split
    have ordinary : ¬ g.Special c := by simp [Grammar.Special,plain,inside,letter]
    rw [ih split,bare_letter quoted rest ordinary]
    simp [or_imp,forall_and,ordinary]

/-- A word without special letters is read as it is. -/
theorem fields_word {g : Grammar Letter} (apart : g.Apart) {word : List Letter} (plain : ∀ c ∈ word, ¬ g.Special c)
    (field rest : List Letter) :
    g.fields false field (word ++ g.separator :: rest) = (g.fields false [] rest).map ((field ++ word) :: ·) := by
  induction word generalizing field with
  | nil =>
    rw [List.nil_append,List.append_nil,fields_plain g false field rest apart.separator,if_pos rfl]
    rfl
  | cons c word ih =>
    have ordinary := plain c (by simp)
    simp only [Grammar.Special,not_or] at ordinary
    obtain ⟨no_escape,no_separator,no_quote⟩ := ordinary
    rw [List.cons_append,fields_plain g false field _ no_escape,if_neg no_separator,if_neg no_quote,
      ih fun d member => plain d (by simp [member])]
    simp

theorem fields_join {g : Grammar Letter} (apart : g.Apart) {words : List (List Letter)}
    (plain : ∀ w ∈ words, ∀ c ∈ w, ¬ g.Special c) : g.fields false [] (g.join words) = .ok (words ++ [[]]) := by
  induction words with
  | nil => rfl
  | cons w rest ih =>
    have split : g.join (w :: rest) = w ++ g.separator :: g.join rest := by simp [Grammar.join]
    rw [split,fields_word apart (plain w (by simp)),ih fun v member => plain v (by simp [member])]
    rfl

/-- The words of an input that is not empty are those of its fields. -/
theorem words_ok {g : Grammar Letter} {input : List Letter} {words : List (List Letter)} (read : g.words input = .ok words) :
    ∃ out, g.fields false [] input = .ok out ∧ words = out.filter fun field => !field.isEmpty := by
  obtain ⟨out,split,rfl⟩ := map_ok read
  cases input with
  | nil =>
    obtain rfl := Except.ok.inj split
    exact ⟨[[]],rfl,rfl⟩
  | cons c rest => exact ⟨out,split,rfl⟩

theorem words_ne_nil {g : Grammar Letter} {input : List Letter} {words : List (List Letter)}
    (read : g.words input = .ok words) : ∀ w ∈ words, w ≠ [] := by
  obtain ⟨out,_,rfl⟩ := words_ok read
  intro w member
  simpa using (List.mem_filter.mp member).2

/-- There is nothing special in the words of an input exactly if it is bare. -/
theorem words_special_iff {g : Grammar Letter} (apart : g.Apart) {input : List Letter} {words : List (List Letter)}
    (read : g.words input = .ok words) : (∀ w ∈ words, ∀ c ∈ w, ¬ g.Special c) ↔ g.Bare false input := by
  obtain ⟨out,split,rfl⟩ := words_ok read
  have fields := fields_special_iff apart false [] input split
  simp only [List.not_mem_nil,false_implies,implies_true,true_and] at fields
  rw [← fields]
  constructor
  · intro plain w member c inside
    exact plain w (List.mem_filter.mpr ⟨member,by simpa using List.ne_nil_of_mem inside⟩) c inside
  · intro plain w member
    exact plain w (List.mem_filter.mp member).1

theorem letters_join (g : Grammar Letter) (words : List (List Letter)) : g.letters (g.join words) = g.letters words.flatten := by
  induction words with
  | nil => rfl
  | cons w rest ih =>
    have split : g.join (w :: rest) = w ++ [g.separator] ++ g.join rest := by simp [Grammar.join]
    rw [split,letters_append,letters_append,ih,List.flatten_cons,letters_append,letters_cons]
    simp

/-- Words that are not empty are read back from their join exactly if there is nothing
    special in them. -/
theorem words_join_iff {g : Grammar Letter} (apart : g.Apart) {words : List (List Letter)}
    (some_letter : ∀ w ∈ words, w ≠ []) :
    g.words (g.join words) = .ok words ↔ ∀ w ∈ words, ∀ c ∈ w, ¬ g.Special c := by
  constructor
  · intro read
    obtain ⟨out,split,same⟩ := words_ok read
    have kept : words.flatten = out.flatten := by
      rw [same]
      exact List.flatten_filter_not_isEmpty
    have bare : g.Bare false (g.join words) := by
      refine bare_of_letters apart split ?_
      rw [letters_nil,letters_join,kept]
      omega
    exact (words_special_iff apart read).mpr bare
  · intro plain
    have split : g.split (g.join words) = .ok (if words = [] then [] else words ++ [[]]) := by
      by_cases none : words = []
      · rw [none]
        rfl
      · obtain ⟨w,rest,rfl⟩ := List.exists_cons_of_ne_nil none
        have some_input : g.join (w :: rest) ≠ [] := by simp [Grammar.join]
        rw [Grammar.split,if_neg some_input,fields_join apart plain,if_neg none]
    have kept : words.filter (fun field => !field.isEmpty) = words := by
      rw [List.filter_eq_self]
      intro w member
      simpa using some_letter w member
    rw [Grammar.words,split]
    split_ifs with none
    · rw [none]
      rfl
    · show Except.ok ((words ++ [[]]).filter fun field => !field.isEmpty) = .ok words
      rw [List.filter_append,kept]
      simp

/-- The words of an input are read back from their join exactly if the input is bare. -/
theorem words_join_words_iff {g : Grammar Letter} (apart : g.Apart) {input : List Letter} {words : List (List Letter)}
    (read : g.words input = .ok words) : g.words (g.join words) = .ok words ↔ g.Bare false input := by
  rw [words_join_iff apart (words_ne_nil read),words_special_iff apart read]

end DdosDetector.EscapedList
