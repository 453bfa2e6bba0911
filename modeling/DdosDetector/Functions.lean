import DdosDetector.EscapedList

/-!
The texts, exceptions and shared functions of the program, and what it takes
from outside: the boost tokenizer, the boost address conversions and the
floating-point rounding of rates. Texts are lists of characters, a byte being
the character of its number.
-/
namespace DdosDetector

/-- The contents of a `std::string`. -/
abbrev Text := List Char
instance : Coe String Text := ⟨String.toList⟩

/-- A point of a clock, in its ticks. -/
abbrev time_point := Int

/-- The exceptions that the modelled functions throw, with their messages. All
    of them derive from `std::exception`. -/
inductive Exn
  | ParserException (message : Text)
  | RuleException (message : Text)
  | invalid_argument (message : Text)
  | out_of_range (message : Text)
  | escaped_list_error (message : Text)
deriving DecidableEq, Repr

/-- What `e.what()` returns. -/
def Exn.what : Exn → Text
  | .ParserException message => message
  | .RuleException message => message
  | .invalid_argument message => message
  | .out_of_range message => message
  | .escaped_list_error message => message

theorem bind_ok {α β : Type} {x : Except Exn α} {f : α → Except Exn β} {b : β} (ok : x.bind f = .ok b) :
    ∃ a, x = .ok a ∧ f a = .ok b := by
  cases x with
  | error e => cases ok
  | ok a => exact ⟨a,rfl,ok⟩

/-- What the program takes from outside the repository: the fields that
    `boost::tokenizer` finds with `escaped_list_separator("\\", separator, "\"'")`,
    `boost::asio::ip::address_v4::from_string(text).to_ulong()`,
    `address_v4(number).to_string()`, and `round((delta / milliseconds) * 1000)`
    in doubles for a counter difference and an interval in clock ticks. -/
structure Platform where
  escaped_list : Char → Text → Except Exn (List Text)
  address_from_string : Text → Except Exn UInt32
  address_to_string : UInt32 → Text
  round_rate : UInt64 → time_point → UInt64

/-- The grammar that the program gives to `boost::escaped_list_separator`. -/
def escaped_list_grammar (separator : Char) : EscapedList.Grammar Char where
  escape := '\\'
  separator := separator
  quotes := ['\"','\'']
  line_letter := 'n'
  line := '\n'

/-- The documented behaviour of `boost::escaped_list_separator`. -/
def escaped_list_separator (separator : Char) (input : Text) : Except Exn (List Text) :=
  match (escaped_list_grammar separator).split input with
  | .ok fields => .ok fields
  | .error .trailing => .error (.escaped_list_error "cannot end with escape")
  | .error .unknown => .error (.escaped_list_error "unknown escape sequence")

/-- The number that decimal digits denote. -/
def decimal (digits : Text) : Nat := digits.foldl (fun n c => 10 * n + (c.toNat - '0'.toNat)) 0

/-- The four numbers of a dotted quad; each is written without leading zeros. -/
def dotted_quad (s : Text) : Except Exn UInt32 :=
  let part (p : Text) : Bool :=
    p ≠ [] ∧ p.all Char.isDigit ∧ decimal p < 256 ∧ (p.length = 1 ∨ p.head? ≠ some '0')
  match s.splitOn '.' with
  | [a,b,c,d] =>
    if part a && part b && part c && part d then
      .ok (UInt32.ofNat (((decimal a * 256 + decimal b) * 256 + decimal c) * 256 + decimal d))
    else .error (.invalid_argument "bad address")
  | _ => .error (.invalid_argument "bad address")

/-- An outside that behaves as documented, with rates rounded exactly. -/
def documented : Platform where
  escaped_list := escaped_list_separator
  address_from_string := dotted_quad
  address_to_string n :=
    ['.'].intercalate ([n >>> 24,(n >>> 16) &&& (255 : UInt32),(n >>> 8) &&& (255 : UInt32),n &&& (255 : UInt32)].map
      fun octet => (toString octet.toNat).toList)
  round_rate delta ticks := UInt64.ofNat ((2 * delta.toNat * 10^9 + ticks.toNat) / (2 * ticks.toNat))

/-- `tokenize(input, separator)`: the non-empty fields. -/
def tokenize (platform : Platform) (separator : Char) (input : Text) : Except Exn (List Text) :=
  (platform.escaped_list separator input).map fun tokens => tokens.filter fun t => !t.isEmpty

/-- `get_index`: the position of the first equal element. -/
def get_index {α : Type} [DecidableEq α] (vec : List α) (value : α) : Except Exn Nat :=
  if value ∈ vec then .ok (vec.idxOf value) else .error (.invalid_argument "unsupported value")

/-! ### Numbers in texts -/

/-- `isspace` of the C locale. -/
def isspace (c : Char) : Bool := c ∈ [' ','\t','\n','\x0b','\x0c','\r']

/-- The sign and the digits that `strtol` and `strtoul` read: blanks, an optional
    sign, and the longest run of digits; also how many characters these are. -/
def leading_number (s : Text) : Bool × Text × Nat :=
  let blanks := s.takeWhile isspace
  let rest := s.dropWhile isspace
  match rest with
  | '-' :: body => (true,body.takeWhile Char.isDigit,blanks.length + 1 + (body.takeWhile Char.isDigit).length)
  | '+' :: body => (false,body.takeWhile Char.isDigit,blanks.length + 1 + (body.takeWhile Char.isDigit).length)
  | body => (false,body.takeWhile Char.isDigit,blanks.length + (body.takeWhile Char.isDigit).length)

/-- `std::stoul(s, &bad)`: the number, negated modulo 2^64 after a minus sign,
    and the index of the first character that is not part of it. -/
def stoul (s : Text) : Except Exn (UInt64 × Nat) :=
  let (minus,digits,bad) := leading_number s
  if digits.isEmpty then .error (.invalid_argument "stoul")
  else if decimal digits ≥ 2^64 then .error (.out_of_range "stoul")
  else .ok (if minus then 0 - UInt64.ofNat (decimal digits) else UInt64.ofNat (decimal digits),bad)

/-- `atoi(s)`: what `strtol` returns, saturated at 64 bits, cut to an `int`. -/
def atoi (s : Text) : Int :=
  let (minus,digits,_) := leading_number s
  let value : Int := if minus then max (-(decimal digits)) (-2^63) else min (decimal digits) (2^63 - 1)
  value.bmod (2^32)

end DdosDetector
