import DdosDetector.Loader

/-!
`ControlSession`: how the console reads what a client sends, which commands it takes
from it, and what each of them does to the rules and writes to the client.
-/
namespace DdosDetector

/-- What a console session takes from outside: the help on the rule options, and
    `to_short_size`, which rounds in floating point. -/
structure Terminal where
  get_help : Text
  to_short_size : UInt64 → Bool → Text

/-- `format_len`: the text padded on the right. -/
def format_len (s : Text) (len : Nat) : Text := s ++ List.replicate (len - s.length) ' '

namespace RulesList
variable {Fields : Type}

/-- The line of `get_rules` for rule `i`, whose number is padded to five characters. -/
def rule_text (terminal : Terminal) (max_text_size i : Nat) (r : Rule Fields) : Text :=
  let number := (toString i).toList
  List.replicate (5 - number.length) ' ' ++ number ++ ":   ".toList ++ format_len r.text_rule max_text_size
    ++ "  : ".toList ++ terminal.to_short_size r.pps false ++ " (".toList ++ terminal.to_short_size r.bps true
    ++ "), ".toList ++ BaseRule.to_string r.count_packets ++ " packets, ".toList
    ++ BaseRule.to_string r.count_bytes ++ " bytes\n".toList

def get_rules (terminal : Terminal) (l : RulesList Fields) : Text :=
  let max_text_size := (l.rules_.map fun r => r.text_rule.length).foldl max 0
  (l.rules_.mapIdx (rule_text terminal max_text_size)).flatten
    ++ "Total: ".toList ++ terminal.to_short_size (l.rules_.map fun r => r.pps).sum false
    ++ " (".toList ++ terminal.to_short_size (l.rules_.map fun r => r.bps).sum true
    ++ "), ".toList ++ BaseRule.to_string (l.rules_.map fun r => r.count_packets).sum
    ++ " packets, ".toList ++ BaseRule.to_string (l.rules_.map fun r => r.count_bytes).sum ++ " bytes\n\n".toList

end RulesList

namespace RulesCollection

def get_rules (terminal : Terminal) (c : RulesCollection) : Text :=
  "TCP rules (num, rule, counter):\n".toList ++ c.tcp.get_rules terminal
    ++ "UDP rules (num, rule, counter):\n".toList ++ c.udp.get_rules terminal
    ++ "ICMP rules (num, rule, counter):\n".toList ++ c.icmp.get_rules terminal

/-- `is_type`: the type is one of `types_`. -/
def is_type (type : Text) : Bool := [("TCP" : Text),"UDP","ICMP"].any fun t => t = type

end RulesCollection

namespace ControlSession

def help_ : Text :=
  "Console commands:<type> - may be TCP, UDP or ICMP; <num> - number (0..65535);\n".toList
    ++ "  help                                show this help\n".toList
    ++ "  add rule <type> <rule>              add new rule\n".toList
    ++ "  insert rule <type> <num> <rule>     insert new rule by number\n".toList
    ++ "  del rule <type> <num>               add new rule\n".toList
    ++ "  show rules                          print all rules with counters\n".toList
    ++ "  reload rules                        reload all rules from file\n".toList
    ++ "  exit                                close connection\n".toList

/-- What leaves `parse` as an exception: `throw 1`, or what the tokenizer throws. -/
inductive Thrown
  | exit
  | tokenizer (e : Exn)

/-- What a command leaves behind: the rules, what is written to the client, and
    whether the signal to reload the rules file has been raised. -/
structure Outcome where
  collect : RulesCollection
  written : List Text := []
  raised : Bool := false

/-- The commands on the rules of one protocol, the same for each of them, where `word`
    is the fourth word of the command and `words` are those after it. -/
def rule_command (platform : Platform) (collect : RulesCollection) (p : Proto) (command word : Text)
    (words : List Text) : Except Exn RulesCollection :=
  if command = "add" ∧ words ≠ [] then
    ((collect.list p).add_rule platform (ProtoRule.new (word :: words))).map (collect.set_list p)
  else
    let num := UInt32.ofInt (atoi word)
    if command = "insert" ∧ words ≠ [] then
      ((collect.list p).insert_rule platform num (ProtoRule.new words)).map (collect.set_list p)
    else if command = "del" ∧ words = [] then
      ((collect.list p).del_rule num).map (collect.set_list p)
    else .ok collect

/-- The `try` block of `parse`. -/
def run (platform : Platform) (terminal : Terminal) (collect : RulesCollection) (cmd_ : Text) (t_cmd : List Text) :
    Except Exn Outcome :=
  if t_cmd = [("show" : Text),"rules"] then .ok { collect := collect, written := [collect.get_rules terminal] }
  else if t_cmd = [("reload" : Text),"rules"] then .ok { collect := collect, raised := true }
  else
    let unknown : Except Exn Outcome := .ok { collect := collect, written :=
      ["Error: unknown command '".toList ++ cmd_ ++ "'. Please print 'help'.\n".toList] }
    match t_cmd with
    | command :: rule :: type :: word :: words =>
      if rule = "rule" then
        if !RulesCollection.is_type type then
          .error (.ParserException ("Not found rule type '".toList ++ type ++ ['\'']))
        else if type = "TCP" then (rule_command platform collect .TCP command word words).map fun c => { collect := c }
        else if type = "UDP" then (rule_command platform collect .UDP command word words).map fun c => { collect := c }
        else if type = "ICMP" then (rule_command platform collect .ICMP command word words).map fun c => { collect := c }
        else .ok { collect := collect }
      else unknown
    | _ => unknown

/-- What the `catch` clauses of `parse` write. -/
def error_text (cmd_ : Text) : Exn → Text
  | .invalid_argument message => "Error: invalid argument '".toList ++ message ++ "'. Please print 'help'.\n".toList
  | .ParserException message => "Error parse rule: ".toList ++ message ++ ['\n']
  | .RuleException message => "Error operation rule: ".toList ++ message ++ ['\n']
  | _ => "Ooops: very very bad command ;)'".toList ++ cmd_ ++ "'.\n".toList

def parse (platform : Platform) (terminal : Terminal) (collect : RulesCollection) (cmd_ : Text) :
    Except Thrown Outcome :=
  match tokenize platform ' ' cmd_ with
  | .error e => .error (.tokenizer e)
  | .ok t_cmd =>
    if t_cmd = [] then .ok { collect := collect }
    else if t_cmd = [("exit" : Text)] then .error .exit
    else if t_cmd = [("help" : Text)] ∨ t_cmd = [("?" : Text)] then
      .ok { collect := collect, written := [help_ ++ "\n\n".toList ++ terminal.get_help] }
    else
      match run platform terminal collect cmd_ t_cmd with
      | .ok outcome => .ok outcome
      | .error e => .ok { collect := collect, written := [error_text cmd_ e] }

/-- The symbols that are removed from a command. -/
def bad_symbols_ : Text := ['\n','\r','\x00']

/-- What `do_read` finds when a read completes: the buffer, and the rules as `parse`
    will find them. -/
structure Reading where
  data_ : Text
  collect_ : RulesCollection

/-- `std::string(data_)`, which ends at the first zero. -/
def c_str (data_ : Text) : Text := data_.takeWhile (· ≠ '\x00')

theorem c_str_eq {data_ : Text} (no_zero : '\x00' ∉ data_) : c_str data_ = data_ := by
  rw [c_str,List.takeWhile_eq_self_iff]
  exact fun c member => decide_eq_true fun same => no_zero (same ▸ member)

/-- The handler of `do_read`, read after read: the commands that it hands to `parse`,
    from the text that `cmd_` holds. An exception of `parse` ends the session. -/
def do_read (platform : Platform) (terminal : Terminal) (cmd_ : Text) : List Reading → List Text
  | [] => []
  | reading :: readings =>
    let cmd_ := cmd_ ++ c_str reading.data_
    if '\n' ∈ cmd_ then
      let cmd_ := cmd_.filter (· ∉ bad_symbols_)
      match parse platform terminal reading.collect_ cmd_ with
      | .error _ => [cmd_]
      | .ok _ => cmd_ :: do_read platform terminal [] readings
    else do_read platform terminal cmd_ readings

end ControlSession
end DdosDetector
