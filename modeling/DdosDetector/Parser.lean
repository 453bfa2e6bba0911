import DdosDetector.BaseRule

/-!
The functions of `parser.hpp` and `parser.cpp` that turn option texts into the
parts of a rule, and the parse of the options that all rules share.
-/
namespace DdosDetector

/-- `boost::program_options::variables_map`: the options given, by name. `number`
    holds those declared as `unsigned int`, `flag` those without a value. -/
structure variables_map where
  value : String → Option Text
  number : String → Option UInt32
  flag : String → Bool

/-- `boost::program_options::options_description`, by what `command_line_parser`,
    `store` and `notify` make of a list of words under it: the text of an
    exception, or the options given and the words not recognised. -/
abbrev options_description := List Text → Except Text (variables_map × List Text)

/-- The words of a command line of the form `--name value`, by name. -/
def long_options : List Text → List (Text × Text)
  | name :: value :: rest => (name.drop 2,value) :: long_options rest
  | _ => []

/-- Options in the long form, as `program_options` documents it. -/
def documented_options : options_description := fun words =>
  .ok (⟨fun name => (long_options words).lookup name.toList,
    fun name => ((long_options words).lookup name.toList).map fun v => UInt32.ofNat (decimal v),
    fun _ => false⟩,[])

namespace CommandParser

def join (v : List Text) : Text := v.flatMap fun word => word ++ [' ']

def parse (options_ : options_description) (tokenize_input : List Text) : Except Exn variables_map :=
  match options_ tokenize_input with
  | .error what => .error (.ParserException ("rule parse failed: ".toList ++ what))
  | .ok (vm,bad_opt) =>
    if bad_opt.isEmpty then .ok vm else .error (.ParserException ("bad option: ".toList ++ join bad_opt))

end CommandParser

def size_b : List Text := ["b","Kb","Mb","Gb","Tb","Pb"]
def size_p : List Text := ["p","Kp","Mp","Gp","Tp","Pp"]
def comp_t : List Char := ['=','>','<']

/-- The first and last address of a mask of `keepbits` bits. Shifts by more than
    the width go around, as on x86. -/
def network_range (ip : UInt32) (keepbits : Int) : UInt32 × UInt32 :=
  let mask : UInt32 := if keepbits > 0 then 0 - ((1 : UInt32) <<< UInt32.ofInt (32 - keepbits)) else 0xFFFFFFFF
  let end_ip : UInt32 :=
    if ip = 0 ∧ mask = 0xFFFFFFFF then 0xFFFFFFFF
    else if ip = 0 then ~~~ip &&& ~~~mask
    else ip ||| ~~~mask
  (ip &&& mask,end_ip)

/-- `range_from_ip_string`: every exception becomes the pair of zeros. -/
def range_from_ip_string (platform : Platform) (ipstr : Text) : UInt32 × UInt32 :=
  let range : Except Exn (UInt32 × UInt32) := do
    if '/' ∈ ipstr then
      let ip ← platform.address_from_string (ipstr.takeWhile (· ≠ '/'))
      return network_range ip (atoi ((ipstr.dropWhile (· ≠ '/')).drop 1))
    else
      let start_ip ← platform.address_from_string ipstr
      return (start_ip,start_ip)
  match range with
  | .ok pair => pair
  | .error _ => (0,0)

def range_from_port_string (portstr : Text) : UInt16 × UInt16 :=
  if '-' ∈ portstr then
    (UInt16.ofInt (atoi (portstr.takeWhile (· ≠ '-'))),UInt16.ofInt (atoi ((portstr.dropWhile (· ≠ '-')).drop 1)))
  else (UInt16.ofInt (atoi portstr),UInt16.ofInt (atoi portstr))

/-- `from_short_size`, in wrapping 64-bit arithmetic. -/
def from_short_size (size : Text) (its_byte : Bool) : Except Exn UInt64 := do
  let (num,bad) ← match stoul size with
    | .error (.invalid_argument _) => .error (.ParserException ("bad number in '".toList ++ size ++ ['\'']))
    | result => result
  if bad = size.length then
    throw (.ParserException ("unparsed symbols in '".toList ++ size ++
      "', please add short prefix: p or b, Kp or Kb etc.".toList))
  let pos ← get_index (if its_byte then size_b else size_p) (size.drop bad)
  let num := (List.range pos).foldl (fun num _ => num * 1000) num
  return num / (if its_byte then 8 else 1)

/-- `numcomp_from_string<T>`, where `cast` is the conversion to `T`. -/
def numcomp_from_string {T : Type} (cast : UInt64 → T) (value : Text) : Except Exn (T × Nat) := do
  if value.length < 2 then
    throw (.ParserException ("parametr '".toList ++ value ++ "' is too short, must be '>num', '=num' or '<num'".toList))
  let (num,bad) ← match stoul (value.drop 1) with
    | .error (.invalid_argument _) => .error (.ParserException ("bad number in '".toList ++ value.drop 1 ++ ['\'']))
    | result => result
  if bad + 1 ≠ value.length then
    throw (.ParserException ("unparsed symbols in '".toList ++ value ++ "', must be '>num', '=num' or '<num'".toList))
  let type_ ← get_index comp_t (value.headD ' ')
  return (cast num,type_)

/-- `b[i] = v` of a `std::bitset<6>`. -/
def set_bit (b : BitVec 6) (i : Nat) (v : Bool) : BitVec 6 :=
  if v then b ||| (1#6 <<< i) else b &&& ~~~(1#6 <<< i)

/-- One flag of `bitset_from_string`, on the bits and the mask so far. -/
def bitset_flag (accept_flags : List Char) (bits_mask : BitVec 6 × BitVec 6) (f : Text) :
    Except Exn (BitVec 6 × BitVec 6) :=
  match f with
  | [flag,':',state] =>
    if state = '0' ∨ state = '1' then
      (get_index accept_flags flag).map fun indx =>
        (set_bit bits_mask.1 indx (state = '1'),set_bit bits_mask.2 indx true)
    else .error (.ParserException ("unparsed flag '".toList ++ f ++
      "', must be: '<flag>:<enable>', where <enable> - 0 or 1.".toList))
  | _ => .error (.ParserException ("unparsed flag '".toList ++ f ++
      "', must be: '<flag>:<enable>', where <enable> - 0 or 1.".toList))

def bitset_from_string (platform : Platform) (value : Text) (accept_flags : List Char) :
    Except Exn (BitVec 6 × BitVec 6) := do
  if accept_flags.length ≠ 6 then throw (.invalid_argument "bad parametr accept flags")
  let tok_v ← tokenize platform ',' value
  if tok_v.isEmpty then throw (.ParserException ("empty option '".toList ++ value ++ ['\'']))
  tok_v.foldlM (bitset_flag accept_flags) (0,0)

/-- The constructors of `action::Action`, which check the kind of job. -/
def Action.make (type file : Text) : Except Exn Action :=
  if type ∈ [("log" : Text),"script","syslog"] then .ok ⟨type,file⟩
  else .error (.ParserException ("incorrect Action job type '".toList ++ type ++ ['\'']))

def action_from_string (platform : Platform) (value : Text) : Except Exn Action := do
  match ← tokenize platform ':' value with
  | [type] => Action.make type []
  | [type,file] => Action.make type file
  | _ => throw (.ParserException ("upnparsed action '".toList ++ value ++ "', must be: '<type>:<param>'".toList))

/-- An option that is given is parsed; otherwise the value stays. -/
def given {α β : Type} (option : Option α) (old : β) (parse : α → Except Exn β) : Except Exn β :=
  match option with
  | some value => parse value
  | none => .ok old

/-- `Ipv4Rule::ip_header_parse`. -/
def Ipv4Rule.ip_header_parse (platform : Platform) (r : Ipv4Rule) (vm : variables_map) : Except Exn Ipv4Rule := do
  let ip_src ← given (vm.value "srcip") r.ip_src fun v => .ok (r.ip_src.assign (range_from_ip_string platform v))
  let ip_dst ← given (vm.value "dstip") r.ip_dst fun v => .ok (r.ip_dst.assign (range_from_ip_string platform v))
  if !ip_src.stat && !ip_dst.stat then
    throw (.ParserException "destination ip or source ip will be set")
  return ⟨ip_src,ip_dst⟩

/-- `BaseRule::BaseRule_parse`. The thresholds are cut to 32 bits. -/
def BaseRule.BaseRule_parse (platform : Platform) (r : BaseRule) (vm : variables_map) : Except Exn BaseRule := do
  let pps_trigger ← given (vm.value "pps-th") r.pps_trigger fun v => (from_short_size v false).map UInt64.toUInt32
  let bps_trigger ← given (vm.value "bps-th") r.bps_trigger fun v => (from_short_size v true).map UInt64.toUInt32
  let pps_trigger_period := (vm.number "pps-th-period").getD r.pps_trigger_period
  let bps_trigger_period := (vm.number "bps-th-period").getD r.bps_trigger_period
  let act ← given (vm.value "action") r.act (action_from_string platform)
  let comment := (vm.value "comment").getD r.comment
  let next_rule := vm.flag "next" || r.next_rule
  if pps_trigger = 0 ∧ bps_trigger = 0 then
    throw (.ParserException "pps or bps trigger will be set")
  if pps_trigger > 0 ∧ pps_trigger_period < 1 then
    throw (.ParserException "incorrect pps trigger period")
  if bps_trigger > 0 ∧ bps_trigger_period < 1 then
    throw (.ParserException "incorrect bps trigger period")
  return { r with
    pps_trigger := pps_trigger, bps_trigger := bps_trigger
    pps_trigger_period := pps_trigger_period, bps_trigger_period := bps_trigger_period
    act := act, comment := comment, next_rule := next_rule }

end DdosDetector
