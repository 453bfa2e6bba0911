import Mathlib

/-!
The shell's reading of a command line, as far as simple commands go: quotes, escapes and
operators make tokens of the characters, and the tokens make commands with their words
and redirections. A line is not read where an expansion would take part in it, where a
quote is not closed, or where it is more than simple commands.
-/
namespace DdosDetector.Shell

/-! ### Tokens -/

inductive Token
  | word (text : List Char) (quoted : Bool)
  | io_number (digits : List Char)
  | operator (text : List Char)
  | newline
deriving DecidableEq

/-- The token that is being read. -/
inductive Current
  | none
  | word (text : List Char) (quoted : Bool)
  | operator (text : List Char)
deriving DecidableEq

/-- How the next character is read: a backslash or a dollar sign is put off until it is
    known what follows. -/
inductive Mode
  | plain
  | comment
  | escape
  | dollar
  | single
  | double
  | double_escape
  | double_dollar
deriving DecidableEq

structure Lexer where
  tokens : List Token
  current : Current
  mode : Mode
deriving DecidableEq

def operators : List (List Char) :=
  [['&'],['|'],[';'],['<'],['>'],['('],[')'],['&','&'],['|','|'],[';',';'],['<','<'],['>','>'],['<','&'],['>','&'],
    ['<','>'],['>','|'],['<','<','-']]

/-- The characters that are to be quoted, or may have to be. -/
def special : List Char :=
  ['|','&',';','<','>','(',')','$','`','\\','"','\'',' ','\t','\n','*','?','[','#','~','=','%','{','}',',']

/-- The dollar sign begins an expansion before these: parameters, braces, parentheses, and
    the brackets of an older arithmetic expansion. -/
def begins_expansion (c : Char) : Bool :=
  c.isAlphanum || c ∈ ['_','@','*','#','?','-','$','!','{','(','[']

/-- Outside of quotes these begin an expansion. -/
def expansions : List Char := ['`','*','?','[','~']

/-- Within double quotes a backslash escapes these. -/
def escapable : List Char := ['$','`','"','\\','\n']

/-- By this it is decided whether a text is in a list. -/
local instance texts_lawful : LawfulBEq (List Char) := inferInstance

namespace Lexer

def into (s : Lexer) (mode : Mode) : Lexer := { s with mode := mode }

/-- A token that stands for no characters, or has just been read. -/
def push (s : Lexer) (t : Token) : Lexer := { s with tokens := s.tokens ++ [t], current := .none }

/-- So much of an operator. -/
def operate (s : Lexer) (o : List Char) : Lexer := { s with current := .operator o, mode := .plain }

/-- More of a word, which ends an operator. -/
def extend (s : Lexer) (text : List Char) (quoted : Bool) : Lexer :=
  match s.current with
  | .none => { s with current := .word text quoted }
  | .word before quoted' => { s with current := .word (before ++ text) (quoted' || quoted) }
  | .operator o => { s.push (.operator o) with current := .word text quoted }

/-- The end of a token. Digits before a redirection are its number. -/
def delimit (s : Lexer) (redirects : Bool) : Lexer :=
  match s.current with
  | .none => s
  | .word text quoted =>
    s.push (if redirects && !quoted && text.all Char.isDigit then .io_number text else .word text quoted)
  | .operator o => s.push (.operator o)

/-- A character outside of quotes that does not belong to an operator before it. -/
def fresh (s : Lexer) (c : Char) : Option Lexer :=
  if c = '\\' then some (s.into .escape)
  else if c = '"' then some ((s.extend [] true).into .double)
  else if c = '\'' then some ((s.extend [] true).into .single)
  else if c = '$' then some (s.into .dollar)
  else if c ∈ expansions then none
  else if c = '#' ∧ ¬ (s.current matches .word ..) then some ((s.delimit false).into .comment)
  else if c = ' ' ∨ c = '\t' then some ((s.delimit false).into .plain)
  else if c = '\n' then some (((s.delimit false).push .newline).into .plain)
  else if [c] ∈ operators then some ((s.delimit (c ∈ ['<','>'])).operate [c])
  else some ((s.extend [c] false).into .plain)

/-- A character outside of quotes. -/
def plain (s : Lexer) (c : Char) : Option Lexer :=
  match s.current with
  | .operator o =>
    if o ++ [c] ∈ operators then some (s.operate (o ++ [c])) else s.fresh c
  | _ => s.fresh c

/-- A character within double quotes. -/
def double (s : Lexer) (c : Char) : Option Lexer :=
  if c = '"' then some (s.into .plain)
  else if c = '`' then none
  else if c = '\\' then some (s.into .double_escape)
  else if c = '$' then some (s.into .double_dollar)
  else some ((s.extend [c] true).into .double)

def step (s : Lexer) (c : Char) : Option Lexer :=
  match s.mode with
  | .plain => s.plain c
  | .comment => some (if c = '\n' then (s.push .newline).into .plain else s)
  | .escape => some (if c = '\n' then s.into .plain else (s.extend [c] true).into .plain)
  | .dollar => if begins_expansion c then none else (s.extend ['$'] false).plain c
  | .single => some (if c = '\'' then s.into .plain else s.extend [c] true)
  | .double => s.double c
  | .double_escape =>
    if c = '\n' then some (s.into .double)
    else if c ∈ escapable then some ((s.extend [c] true).into .double)
    else (s.extend ['\\'] true).double c
  | .double_dollar => if begins_expansion c then none else (s.extend ['$'] true).double c

/-- The end of the line. What has been put off is a character like others there. -/
def finish (s : Lexer) : Option (List Token) :=
  match s.mode with
  | .plain | .comment => some (s.delimit false).tokens
  | .escape => some ((s.extend ['\\'] true).delimit false).tokens
  | .dollar => some ((s.extend ['$'] false).delimit false).tokens
  | _ => none

end Lexer

/-- The tokens of a line. -/
def lex (line : List Char) : Option (List Token) :=
  (line.foldlM Lexer.step ⟨[],.none,.plain⟩).bind Lexer.finish

/-! ### Commands -/

structure Redirection where
  number : List Char
  operator : List Char
  target : List Char
deriving DecidableEq

/-- A simple command, and whether the shell does not wait for it. -/
structure Command where
  words : List (List Char)
  redirections : List Redirection
  background : Bool
deriving DecidableEq

def redirection_operators : List (List Char) := [['<'],['>'],['>','>'],['<','&'],['>','&'],['<','>'],['>','|']]

def reserved_words : List (List Char) :=
  ["!","\x7b","\x7d","case","do","done","elif","else","esac","fi","for","if","in","then","until","while"].map String.toList

/-- What a redirection still lacks. -/
inductive Awaited
  | none
  | redirect (number : List Char)
  | target (number operator : List Char)
deriving DecidableEq

structure Parser where
  commands : List Command
  words : List (List Char × Bool)
  redirections : List Redirection
  awaited : Awaited
deriving DecidableEq

namespace Parser

/-- The first word makes another command than a simple one, or assigns a variable. -/
def Other (p : Parser) : Prop :=
  ∃ first ∈ p.words.head?, (first.2 = false ∧ first.1 ∈ reserved_words) ∨ '=' ∈ first.1

instance (p : Parser) : Decidable p.Other := by
  unfold Other
  infer_instance

/-- The end of a command. -/
def close (p : Parser) (background : Bool) : Option Parser :=
  if (p.words = [] ∧ p.redirections = []) ∨ p.Other then none
  else some ⟨p.commands ++ [⟨p.words.map Prod.fst,p.redirections,background⟩],[],[],.none⟩

def step (p : Parser) (t : Token) : Option Parser :=
  match t, p.awaited with
  | .word text quoted, .none => some { p with words := p.words ++ [(text,quoted)] }
  | .word text _, .target number operator =>
    some { p with redirections := p.redirections ++ [⟨number,operator,text⟩], awaited := .none }
  | .io_number digits, .none => some { p with awaited := .redirect digits }
  | .operator o, .redirect number =>
    if o ∈ redirection_operators then some { p with awaited := .target number o } else none
  | .operator o, .none =>
    if o ∈ redirection_operators then some { p with awaited := .target [] o }
    else if o = ['&'] then p.close true
    else if o = [';'] then p.close false
    else none
  | .newline, .none => if p.words = [] ∧ p.redirections = [] then some p else p.close false
  | _, _ => none

def finish (p : Parser) : Option (List Command) :=
  if p.awaited ≠ .none then none
  else if p.words = [] ∧ p.redirections = [] then some p.commands
  else (p.close false).map Parser.commands

end Parser

def parse (tokens : List Token) : Option (List Command) :=
  (tokens.foldlM Parser.step ⟨[],[],[],.none⟩).bind Parser.finish

/-- The commands of a line, where it is nothing but simple commands with no expansion. -/
def read (line : List Char) : Option (List Command) := (lex line).bind parse

/-- The path of the program that a command runs. A name without a slash is no path: it is
    looked for among the commands that the shell has itself, and then along PATH. -/
def Command.path (c : Command) : Option (List Char) := c.words.head?.filter fun name => '/' ∈ name

/-- With a slash a name is not reserved, nor empty. -/
theorem not_reserved {name : List Char} (slash : '/' ∈ name) : name ≠ [] ∧ name ∉ reserved_words := by
  refine ⟨List.ne_nil_of_mem slash,fun reserved => ?_⟩
  have none : ∀ word ∈ reserved_words, '/' ∉ word := by decide +kernel
  exact none name reserved slash

/-! ### How many characters are kept -/

def Token.weight : Token → Nat
  | .word text _ => text.length
  | .io_number digits => digits.length
  | .operator text => text.length
  | .newline => 0

def Current.weight : Current → Nat
  | .none => 0
  | .word text _ => text.length
  | .operator text => text.length

/-- A character that is put off counts, though it may yet be dropped. -/
def Mode.weight : Mode → Nat
  | .escape | .dollar | .double_escape | .double_dollar => 1
  | _ => 0

def weight (tokens : List Token) : Nat := (tokens.map Token.weight).sum

@[simp] theorem weight_append (tokens more : List Token) : weight (tokens ++ more) = weight tokens + weight more := by
  simp [weight]

@[simp] theorem weight_singleton (t : Token) : weight [t] = t.weight := by simp [weight]

namespace Lexer

/-- What is kept for certain, and what is put off as well. -/
def kept (s : Lexer) : Nat := Shell.weight s.tokens + s.current.weight
def weight (s : Lexer) : Nat := s.kept + s.mode.weight

@[simp] theorem into_kept (s : Lexer) (mode : Mode) : (s.into mode).kept = s.kept := rfl
@[simp] theorem into_mode (s : Lexer) (mode : Mode) : (s.into mode).mode = mode := rfl
@[simp] theorem into_weight (s : Lexer) (mode : Mode) : (s.into mode).weight = s.kept + mode.weight := rfl

@[simp] theorem extend_mode (s : Lexer) (text : List Char) (quoted : Bool) : (s.extend text quoted).mode = s.mode := by
  unfold extend
  split <;> rfl

@[simp] theorem extend_kept (s : Lexer) (text : List Char) (quoted : Bool) :
    (s.extend text quoted).kept = s.kept + text.length := by
  unfold extend
  split <;> simp_all [kept,push,Current.weight,Token.weight]
  omega

@[simp] theorem delimit_mode (s : Lexer) (redirects : Bool) : (s.delimit redirects).mode = s.mode := by
  unfold delimit
  split <;> rfl

@[simp] theorem delimit_tokens (s : Lexer) (redirects : Bool) : Shell.weight (s.delimit redirects).tokens = s.kept := by
  unfold delimit
  split
  · simp_all [kept,Current.weight]
  · split_ifs <;> simp_all [kept,push,Current.weight,Token.weight]
  · simp_all [kept,push,Current.weight,Token.weight]

@[simp] theorem delimit_current (s : Lexer) (redirects : Bool) : (s.delimit redirects).current = .none := by
  unfold delimit
  split
  · assumption
  · rfl
  · rfl

@[simp] theorem delimit_kept (s : Lexer) (redirects : Bool) : (s.delimit redirects).kept = s.kept := by
  rw [kept,delimit_tokens,delimit_current]
  rfl

@[simp] theorem push_kept (s : Lexer) (t : Token) : (s.push t).kept = Shell.weight s.tokens + t.weight := by
  simp [kept,push,Current.weight]

@[simp] theorem operate_weight (s : Lexer) (o : List Char) : (s.operate o).weight = Shell.weight s.tokens + o.length := rfl

/-- Of a character outside of quotes at most itself is kept. -/
theorem fresh_weight {s s' : Lexer} {c : Char} (taken : s.fresh c = some s') : s'.weight ≤ s.kept + 1 := by
  unfold fresh at taken
  split_ifs at taken <;> obtain rfl := Option.some.inj taken
  all_goals simp [Mode.weight,Token.weight]

theorem plain_weight {s s' : Lexer} {c : Char} (taken : s.plain c = some s') : s'.weight ≤ s.kept + 1 := by
  unfold plain at taken
  split at taken
  · rename_i o current
    split_ifs at taken
    · obtain rfl := Option.some.inj taken
      simp [kept,current,Current.weight,Nat.add_assoc]
    · exact fresh_weight taken
  · exact fresh_weight taken

theorem double_weight {s s' : Lexer} {c : Char} (taken : s.double c = some s') : s'.weight ≤ s.kept + 1 := by
  unfold double at taken
  split_ifs at taken <;> obtain rfl := Option.some.inj taken
  all_goals simp [Mode.weight]

/-- A step keeps at most one more character. -/
theorem step_weight {s s' : Lexer} {c : Char} (taken : s.step c = some s') : s'.weight ≤ s.weight + 1 := by
  unfold step at taken
  have tokens : Shell.weight s.tokens ≤ s.kept := Nat.le_add_right ..
  cases mode : s.mode with
  | plain =>
    have bound := plain_weight (by simpa only [mode] using taken)
    simpa [weight,mode,Mode.weight] using bound
  | double =>
    have bound := double_weight (by simpa only [mode] using taken)
    simpa [weight,mode,Mode.weight] using bound
  | comment =>
    simp only [mode,Option.some.injEq] at taken
    split_ifs at taken <;> subst taken <;> simp [weight,mode,Mode.weight,Token.weight]
    omega
  | escape =>
    simp only [mode,Option.some.injEq] at taken
    split_ifs at taken <;> subst taken <;> simp [weight,mode,Mode.weight]
    omega
  | single =>
    simp only [mode,Option.some.injEq] at taken
    split_ifs at taken <;> subst taken <;> simp [weight,mode,Mode.weight]
  | dollar =>
    simp only [mode] at taken
    split_ifs at taken
    have bound := plain_weight taken
    simpa [weight,mode,Mode.weight] using bound
  | double_dollar =>
    simp only [mode] at taken
    split_ifs at taken
    have bound := double_weight taken
    simpa [weight,mode,Mode.weight] using bound
  | double_escape =>
    simp only [mode] at taken
    split_ifs at taken
    · obtain rfl := Option.some.inj taken
      simp [weight,mode,Mode.weight]
      omega
    · obtain rfl := Option.some.inj taken
      simp [weight,mode,Mode.weight]
    · have bound := double_weight taken
      simpa [weight,mode,Mode.weight] using bound

/-- A run keeps at most the characters that it reads. -/
theorem run_weight {line : List Char} {s s' : Lexer} (taken : line.foldlM step s = some s') :
    s'.weight ≤ s.weight + line.length := by
  induction line generalizing s with
  | nil =>
    obtain rfl := Option.some.inj taken
    exact Nat.le_add_right ..
  | cons c rest ih =>
    rw [List.foldlM_cons,Option.bind_eq_bind,Option.bind_eq_some_iff] at taken
    obtain ⟨next,first,others⟩ := taken
    have one := step_weight first
    have more := ih others
    rw [List.length_cons]
    omega

/-- At the end all that counts is in the tokens. -/
theorem finish_weight {s : Lexer} {tokens : List Token} (ended : s.finish = some tokens) :
    Shell.weight tokens = s.weight := by
  unfold finish at ended
  cases mode : s.mode with
  | plain | comment | escape | dollar =>
    simp only [mode,Option.some.injEq] at ended
    subst ended
    simp [weight,mode,Mode.weight]
  | single | double | double_escape | double_dollar => simp [mode] at ended

end Lexer

/-- What of a command its words and redirections are made of. -/
def Redirection.weight (r : Redirection) : Nat := r.number.length + r.operator.length + r.target.length
def Command.weight (c : Command) : Nat :=
  (c.words.map List.length).sum + (c.redirections.map Redirection.weight).sum + c.background.toNat
def Awaited.weight : Awaited → Nat
  | .none => 0
  | .redirect number => number.length
  | .target number operator => number.length + operator.length

namespace Parser

def weight (p : Parser) : Nat :=
  (p.commands.map Command.weight).sum + (p.words.map fun w => w.1.length).sum +
    (p.redirections.map Redirection.weight).sum + p.awaited.weight

theorem close_weight {p p' : Parser} {background : Bool} (closed : p.close background = some p')
    (complete : p.awaited = .none) : p'.weight = p.weight + background.toNat := by
  unfold close at closed
  split_ifs at closed
  obtain rfl := Option.some.inj closed
  simp [weight,Command.weight,complete,Awaited.weight,Function.comp_def]
  omega

/-- The commands have nothing that the tokens do not have. -/
theorem step_weight {p p' : Parser} {t : Token} (taken : p.step t = some p') : p'.weight ≤ p.weight + t.weight := by
  unfold step at taken
  split at taken
  · rename_i text quoted awaited
    obtain rfl := Option.some.inj taken
    simp [weight,awaited,Token.weight]
    omega
  · rename_i text _ number operator awaited
    obtain rfl := Option.some.inj taken
    simp [weight,awaited,Awaited.weight,Redirection.weight,Token.weight]
    omega
  · rename_i digits awaited
    obtain rfl := Option.some.inj taken
    simp [weight,awaited,Awaited.weight,Token.weight]
  · rename_i o number awaited
    split_ifs at taken
    obtain rfl := Option.some.inj taken
    simp [weight,awaited,Awaited.weight,Token.weight]
    omega
  · rename_i o awaited
    split_ifs at taken with redirects background sequential
    · obtain rfl := Option.some.inj taken
      simp [weight,awaited,Awaited.weight,Token.weight]
    · rw [close_weight taken awaited,background]
      rfl
    · rw [close_weight taken awaited,sequential]
      simp
  · rename_i awaited
    split_ifs at taken
    · obtain rfl := Option.some.inj taken
      simp
    · rw [close_weight taken awaited]
      simp
  · cases taken

theorem run_weight {tokens : List Token} {p p' : Parser} (taken : tokens.foldlM step p = some p') :
    p'.weight ≤ p.weight + Shell.weight tokens := by
  induction tokens generalizing p with
  | nil =>
    obtain rfl := Option.some.inj taken
    exact Nat.le_add_right ..
  | cons t rest ih =>
    rw [List.foldlM_cons,Option.bind_eq_bind,Option.bind_eq_some_iff] at taken
    obtain ⟨next,first,others⟩ := taken
    have one := step_weight first
    have more := ih others
    have sum : Shell.weight (t :: rest) = t.weight + Shell.weight rest := by simp [Shell.weight]
    omega

theorem finish_weight {p : Parser} {commands : List Command} (ended : p.finish = some commands) :
    (commands.map Command.weight).sum ≤ p.weight := by
  unfold finish at ended
  split_ifs at ended with complete idle
  · obtain rfl := Option.some.inj ended
    simp only [weight]
    omega
  · obtain ⟨closed,close,rfl⟩ := Option.map_eq_some_iff.mp ended
    have same := close_weight close (not_not.mp complete)
    simp only [Bool.toNat_false,Nat.add_zero] at same
    rw [← same]
    simp only [weight]
    omega

end Parser

theorem parse_weight {tokens : List Token} {commands : List Command} (parsed : parse tokens = some commands) :
    (commands.map Command.weight).sum ≤ weight tokens := by
  obtain ⟨p,run,ended⟩ := Option.bind_eq_some_iff.mp parsed
  have bound := Parser.run_weight run
  have none : (⟨[],[],[],.none⟩ : Parser).weight = 0 := rfl
  exact (Parser.finish_weight ended).trans (by omega)

/-! ### What double quotes keep -/

/-- Within double quotes the character is kept as it is, before the next one. -/
def StandsForItself (c next : Char) : Prop :=
  c ≠ '"' ∧ c ≠ '`' ∧ (c = '\\' → next ∉ escapable) ∧ (c = '$' → begins_expansion next = false)

/-- Double quotes keep the text as it is. -/
def Verbatim : List Char → Prop
  | [] => True
  | c :: rest => StandsForItself c (rest.headD '"') ∧ Verbatim rest

namespace Lexer

/-- The lexer has put no character off, and if closed, is not within quotes either. -/
def Settled (s : Lexer) : Prop := s.mode ∈ [Mode.plain,.comment,.single,.double]
def Closed (s : Lexer) : Prop := s.mode = .plain ∨ s.mode = .comment

theorem closed_of_finish {s : Lexer} {tokens : List Token} (settled : s.Settled) (ended : s.finish = some tokens) :
    s.Closed := by
  cases mode : s.mode with
  | plain => exact .inl mode
  | comment => exact .inr mode
  | escape | dollar => simp [Settled,mode] at settled
  | single | double | double_escape | double_dollar => simp [finish,mode] at ended

theorem plain_quote {s s' : Lexer} (taken : s.plain '"' = some s') : s'.mode = .double := by
  have fresh_quote : s.fresh '"' = some ((s.extend [] true).into .double) := rfl
  unfold plain at taken
  split at taken
  · rename_i o current
    split_ifs at taken with longer
    · have last : ∀ o' ∈ operators, o'.getLast? ≠ some '"' := by decide
      exact absurd (by simp) (last _ longer)
    · exact Option.some.inj (fresh_quote.symm.trans taken) ▸ rfl
  · exact Option.some.inj (fresh_quote.symm.trans taken) ▸ rfl

/-- A double quote that leaves no quotes open is not kept, or one before it has not been. -/
theorem step_quote {s s' : Lexer} (taken : s.step '"' = some s') :
    s'.Settled ∧ (s'.Closed → s'.weight ≤ s.weight) := by
  unfold step at taken
  cases mode : s.mode with
  | plain =>
    simp only [mode] at taken
    simp [Settled,Closed,plain_quote taken]
  | dollar =>
    simp only [mode] at taken
    split_ifs at taken
    simp [Settled,Closed,plain_quote taken]
  | comment =>
    simp only [mode,Char.reduceEq,↓reduceIte,Option.some.injEq] at taken
    subst taken
    simp [Settled,mode]
  | escape =>
    simp only [mode,Char.reduceEq,↓reduceIte,Option.some.injEq] at taken
    subst taken
    simp [Settled,weight,mode,Mode.weight]
  | single =>
    simp only [mode,Char.reduceEq,↓reduceIte,Option.some.injEq] at taken
    subst taken
    simp [Settled,Closed,mode]
  | double =>
    simp only [mode,double,↓reduceIte,Option.some.injEq] at taken
    subst taken
    simp [Settled,weight,mode,Mode.weight]
  | double_escape =>
    have escaped : '"' ∈ escapable := by decide
    simp only [mode,Char.reduceEq,↓reduceIte,escaped,Option.some.injEq] at taken
    subst taken
    simp [Settled,Closed]
  | double_dollar =>
    simp only [mode,double,↓reduceIte] at taken
    split_ifs at taken
    obtain rfl := Option.some.inj taken
    simp [Settled,weight,mode,Mode.weight]

theorem run_quote_weight {line : List Char} {s s' : Lexer} (taken : (line ++ ['"']).foldlM step s = some s')
    (closed : s'.Closed) : s'.weight ≤ s.weight + line.length := by
  rw [List.foldlM_append,Option.bind_eq_bind,Option.bind_eq_some_iff] at taken
  obtain ⟨middle,run,quote⟩ := taken
  have last : middle.step '"' = some s' := by simpa [List.foldlM_cons] using quote
  exact ((step_quote last).2 closed).trans (run_weight run)

variable {tokens : List Token} {word : List Char}

/-- A backslash before a character that cannot be escaped is a character like others. -/
theorem step_double_escape {d : Char} (kept : d ∉ escapable) :
    (⟨tokens,.word word true,.double_escape⟩ : Lexer).step d =
      (⟨tokens,.word (word ++ ['\\']) true,.double⟩ : Lexer).step d := by
  have line : d ≠ '\n' := fun same => kept (by rw [same]; decide)
  simp only [step,line,kept,↓reduceIte]
  rfl

theorem step_double_dollar {d : Char} (kept : begins_expansion d = false) :
    (⟨tokens,.word word true,.double_dollar⟩ : Lexer).step d =
      (⟨tokens,.word (word ++ ['$']) true,.double⟩ : Lexer).step d := by
  simp only [step,kept,Bool.false_eq_true,↓reduceIte]
  rfl

theorem step_double_other {c : Char} (quote : c ≠ '"') (command : c ≠ '`') (escape : c ≠ '\\') (dollar : c ≠ '$') :
    (⟨tokens,.word word true,.double⟩ : Lexer).step c = some ⟨tokens,.word (word ++ [c]) true,.double⟩ := by
  simp only [step,double,quote,command,escape,dollar,↓reduceIte]
  rfl

theorem append_quote (rest : List Char) : ∃ tail, rest ++ ['"'] = rest.headD '"' :: tail := by
  cases rest with
  | nil => exact ⟨[],rfl⟩
  | cons d rest => exact ⟨rest ++ ['"'],rfl⟩

theorem run_double_escape {rest : List Char} (kept : rest.headD '"' ∉ escapable) :
    (rest ++ ['"']).foldlM step ⟨tokens,.word word true,.double_escape⟩ =
      (rest ++ ['"']).foldlM step ⟨tokens,.word (word ++ ['\\']) true,.double⟩ := by
  obtain ⟨tail,split⟩ := append_quote rest
  rw [split,List.foldlM_cons,List.foldlM_cons,step_double_escape kept]

theorem run_double_dollar {rest : List Char} (kept : begins_expansion (rest.headD '"') = false) :
    (rest ++ ['"']).foldlM step ⟨tokens,.word word true,.double_dollar⟩ =
      (rest ++ ['"']).foldlM step ⟨tokens,.word (word ++ ['$']) true,.double⟩ := by
  obtain ⟨tail,split⟩ := append_quote rest
  rw [split,List.foldlM_cons,List.foldlM_cons,step_double_dollar kept]

/-- What follows a backslash that escapes it is one character less. -/
theorem run_escaped_weight {rest : List Char} {s : Lexer} (escaped : rest.headD '"' ∈ escapable)
    (taken : (rest ++ ['"']).foldlM step ⟨tokens,.word word true,.double_escape⟩ = some s) (closed : s.Closed) :
    s.weight ≤ Shell.weight tokens + word.length + rest.length := by
  cases rest with
  | nil =>
    obtain rfl := Option.some.inj (taken.symm.trans rfl)
    simp [Closed] at closed
  | cons d rest =>
    rw [List.cons_append,List.foldlM_cons,Option.bind_eq_bind,Option.bind_eq_some_iff] at taken
    obtain ⟨next,first,others⟩ := taken
    have bound := run_quote_weight others closed
    have less : next.weight ≤ Shell.weight tokens + word.length + 1 := by
      have head : d ∈ escapable := escaped
      simp only [step,head,↓reduceIte] at first
      split_ifs at first <;> obtain rfl := Option.some.inj first
      · exact Nat.le_succ _
      · rw [into_weight,extend_kept]
        exact le_rfl
    rw [List.length_cons]
    omega

/-- If all of a text within double quotes is kept, then as it is. -/
theorem verbatim_of_weight (data : List Char) {s : Lexer}
    (taken : (data ++ ['"']).foldlM step ⟨tokens,.word word true,.double⟩ = some s) (closed : s.Closed)
    (all : Shell.weight tokens + word.length + data.length ≤ s.weight) : Verbatim data := by
  induction data generalizing word with
  | nil => trivial
  | cons c rest ih =>
    rw [List.cons_append,List.foldlM_cons,Option.bind_eq_bind,Option.bind_eq_some_iff] at taken
    obtain ⟨next,first,others⟩ := taken
    rw [List.length_cons] at all
    have more : ∀ d : Char, Shell.weight tokens + (word ++ [d]).length + rest.length ≤ s.weight := fun d => by
      rw [List.length_append,List.length_singleton]
      omega
    by_cases quote : c = '"'
    · subst quote
      obtain rfl := Option.some.inj (first.symm.trans rfl)
      have bound : s.weight ≤ Shell.weight tokens + word.length + rest.length := run_quote_weight others closed
      omega
    by_cases command : c = '`'
    · subst command
      cases first
    by_cases escape : c = '\\'
    · subst escape
      obtain rfl := Option.some.inj (first.symm.trans rfl)
      by_cases escaped : rest.headD '"' ∈ escapable
      · have bound : s.weight ≤ Shell.weight tokens + word.length + rest.length :=
          run_escaped_weight escaped others closed
        omega
      · have verbatim := ih (run_double_escape escaped ▸ others) (more _)
        exact ⟨⟨quote,command,fun _ => escaped,fun same => absurd same (by decide)⟩,verbatim⟩
    by_cases dollar : c = '$'
    · subst dollar
      obtain rfl := Option.some.inj (first.symm.trans rfl)
      cases expands : begins_expansion (rest.headD '"') with
      | true =>
        obtain ⟨tail,split⟩ := append_quote rest
        rw [split,List.foldlM_cons] at others
        simp [step,into,-List.headD_eq_head?_getD,expands] at others
      | false =>
        have verbatim := ih (run_double_dollar expands ▸ others) (more _)
        exact ⟨⟨quote,command,fun same => absurd same escape,fun _ => expands⟩,verbatim⟩
    rw [step_double_other quote command escape dollar] at first
    obtain rfl := Option.some.inj first
    have verbatim := ih others (more c)
    exact ⟨⟨quote,command,fun same => absurd same escape,fun same => absurd same dollar⟩,verbatim⟩

/-- What double quotes keep as it is becomes part of the word. -/
theorem run_verbatim {data : List Char} (verbatim : Verbatim data) :
    (data ++ ['"']).foldlM step ⟨tokens,.word word true,.double⟩ = some ⟨tokens,.word (word ++ data) true,.plain⟩ := by
  induction data generalizing word with
  | nil => simp [step,double,into]
  | cons c rest ih =>
    obtain ⟨⟨quote,command,escape,dollar⟩,others⟩ := verbatim
    have grown := @ih (word ++ [c]) others
    rw [List.append_assoc,List.singleton_append] at grown
    rw [List.cons_append,List.foldlM_cons]
    by_cases escapes : c = '\\'
    · subst escapes
      rw [← run_double_escape (escape rfl)] at grown
      exact grown
    by_cases dollars : c = '$'
    · subst dollars
      rw [← run_double_dollar (dollar rfl)] at grown
      exact grown
    rw [step_double_other quote command escapes dollars]
    exact grown

/-! ### Characters that leave quotes as they are -/

/-- Of these only a blank outside of quotes may be dropped. -/
def Neutral (c : Char) : Prop := c ∉ ['\\','"','\'','$','#','\n']

theorem fresh_neutral {s s' : Lexer} {c : Char} (neutral : Neutral c) (taken : s.fresh c = some s') :
    s'.mode = .plain ∧ s'.weight ≤ s.kept + if c = ' ' then 0 else 1 := by
  simp only [Neutral,List.mem_cons,List.not_mem_nil,or_false,not_or] at neutral
  obtain ⟨escape,double,single,dollar,hash,line⟩ := neutral
  simp only [fresh,escape,double,single,dollar,hash,line,false_and,↓reduceIte] at taken
  split_ifs at taken with expands blank operator <;> obtain rfl := Option.some.inj taken
  · simp [Mode.weight]
  · have other : c ≠ ' ' := fun same => blank (.inl same)
    simp [other]
    rfl
  · have other : c ≠ ' ' := fun same => blank (.inl same)
    simp [other,Mode.weight]

theorem step_neutral {s s' : Lexer} {c : Char} (neutral : Neutral c) (settled : s.Settled) (taken : s.step c = some s') :
    s'.mode = s.mode ∧ (s.Closed → s'.weight ≤ s.weight + if c = ' ' then 0 else 1) := by
  unfold step at taken
  have kept_weight : s.kept ≤ s.weight := Nat.le_add_right ..
  cases mode : s.mode with
  | plain =>
    simp only [mode,plain] at taken
    split at taken
    · rename_i o current
      split_ifs at taken with longer
      · obtain rfl := Option.some.inj taken
        have last : ∀ o' ∈ operators, o'.getLast? ≠ some ' ' := by decide
        have other : c ≠ ' ' := fun same => absurd (by simp [same]) (last _ longer)
        refine ⟨rfl,?_⟩
        intro _
        simp [other,weight,mode,kept,current,Current.weight,Mode.weight,operate]
        omega
      · obtain ⟨same,bound⟩ := fresh_neutral neutral taken
        exact ⟨same,fun _ => by omega⟩
    · obtain ⟨same,bound⟩ := fresh_neutral neutral taken
      exact ⟨same,fun _ => by omega⟩
  | comment =>
    simp only [Neutral,List.mem_cons,List.not_mem_nil,or_false,not_or] at neutral
    simp only [mode,neutral,↓reduceIte,Option.some.injEq] at taken
    subst taken
    exact ⟨mode,fun _ => Nat.le_add_right ..⟩
  | single =>
    simp only [Neutral,List.mem_cons,List.not_mem_nil,or_false,not_or] at neutral
    simp only [mode,neutral,↓reduceIte,Option.some.injEq] at taken
    subst taken
    simp [Closed,mode]
  | double =>
    simp only [Neutral,List.mem_cons,List.not_mem_nil,or_false,not_or] at neutral
    simp only [mode,double,neutral,↓reduceIte] at taken
    split_ifs at taken
    obtain rfl := Option.some.inj taken
    simp [Closed,mode]
  | escape | dollar | double_escape | double_dollar => simp [Settled,mode] at settled

theorem run_neutral {line : List Char} {s s' : Lexer} (neutral : ∀ c ∈ line, Neutral c) (settled : s.Settled)
    (taken : line.foldlM step s = some s') :
    s'.mode = s.mode ∧ (s.Closed → s'.weight ≤ s.weight + line.countP (· ≠ ' ')) := by
  induction line generalizing s with
  | nil =>
    obtain rfl := Option.some.inj taken
    exact ⟨rfl,fun _ => Nat.le_add_right ..⟩
  | cons c rest ih =>
    rw [List.foldlM_cons,Option.bind_eq_bind,Option.bind_eq_some_iff] at taken
    obtain ⟨next,first,others⟩ := taken
    obtain ⟨same,one⟩ := step_neutral (neutral c (by simp)) settled first
    have next_settled : next.Settled := by rw [Settled,same]; exact settled
    obtain ⟨same',more⟩ := ih (fun d member => neutral d (by simp [member])) next_settled others
    refine ⟨same'.trans same,?_⟩
    intro closed
    have next_closed : next.Closed := by rw [Closed,same]; exact closed
    have bound := one closed
    have bound' := more next_closed
    rw [List.countP_cons]
    by_cases blank : c = ' '
    · simp only [blank,↓reduceIte] at bound
      omega
    · simp only [blank,↓reduceIte] at bound
      rw [if_pos (decide_eq_true blank)]
      omega

/-! ### Words without quotes -/

theorem fresh_ordinary {c : Char} (ordinary : c ∉ special) (s : Lexer) :
    s.fresh c = some ((s.extend [c] false).into .plain) := by
  have no_operator : [c] ∉ operators := by
    intro begins
    simp only [operators,List.mem_cons,List.cons.injEq,List.not_mem_nil,or_false,and_true] at begins
    simp only [special,List.mem_cons,List.not_mem_nil,or_false,not_or] at ordinary
    simp_all
  simp only [special,List.mem_cons,List.not_mem_nil,or_false,not_or] at ordinary
  simp [fresh,ordinary,expansions,no_operator]

theorem run_ordinary {text : List Char} (ordinary : ∀ c ∈ text, c ∉ special) :
    text.foldlM step ⟨tokens,.word word false,.plain⟩ = some ⟨tokens,.word (word ++ text) false,.plain⟩ := by
  induction text generalizing word with
  | nil => simp
  | cons c rest ih =>
    have first : (⟨tokens,.word word false,.plain⟩ : Lexer).step c = some ⟨tokens,.word (word ++ [c]) false,.plain⟩ :=
      fresh_ordinary (ordinary c (by simp)) _
    rw [List.foldlM_cons,first]
    have others := @ih (word ++ [c]) fun d member => ordinary d (by simp [member])
    rw [List.append_assoc,List.singleton_append] at others
    exact others

/-- A text without special characters is one word. -/
theorem run_word {c : Char} {rest : List Char} (ordinary : ∀ d ∈ c :: rest, d ∉ special) :
    (c :: rest).foldlM step ⟨tokens,.none,.plain⟩ = some ⟨tokens,.word (c :: rest) false,.plain⟩ := by
  have first : (⟨tokens,.none,.plain⟩ : Lexer).step c = some ⟨tokens,.word [c] false,.plain⟩ :=
    fresh_ordinary (ordinary c (by simp)) _
  rw [List.foldlM_cons,first]
  exact run_ordinary fun d member => ordinary d (by simp [member])

end Lexer

/-- The commands of a line have no more characters than the line. -/
theorem read_weight {line : List Char} {commands : List Command} (commands_read : read line = some commands) :
    (commands.map Command.weight).sum ≤ line.length := by
  obtain ⟨tokens,lexed,parsed⟩ := Option.bind_eq_some_iff.mp commands_read
  obtain ⟨s,run,ended⟩ := Option.bind_eq_some_iff.mp lexed
  have bound := Lexer.run_weight run
  have none : (⟨[],.none,.plain⟩ : Lexer).weight = 0 := rfl
  have all := Lexer.finish_weight ended
  exact (parse_weight parsed).trans (by omega)

end DdosDetector.Shell
