import DdosDetector.Actions
import DdosDetector.Control
import DdosDetector.Equality
import DdosDetector.LineProtocol

/-!
What the monitor writes to InfluxDB: a point for every rule and one for the sum of each
list. The time is put in last, for a placeholder that could not come from anywhere else.
The lists are read one by one, and may have changed in between.
-/
namespace DdosDetector
open LineProtocol (Point Plain number)

/-! ### The query -/

/-- `boost::replace_all` from a place on, where so many characters of a match are passed. -/
def replace_from (search format : Text) : Nat → Text → Text
  | _, [] => []
  | passed + 1, _ :: rest => replace_from search format passed rest
  | 0, c :: rest =>
    if search ≠ [] ∧ search.isPrefixOf (c :: rest) then format ++ replace_from search format (search.length - 1) rest
    else c :: replace_from search format 0 rest

def replace_all (input search format : Text) : Text := replace_from search format 0 input

namespace RulesList
variable {Fields : Type}

def rule_query (i : Nat) (r : Rule Fields) : Text :=
  r.rule_type ++ ",rule=".toList ++ (toString i).toList ++ " pps=".toList ++ BaseRule.to_string r.pps
    ++ ",bps=".toList ++ BaseRule.to_string (r.bps * 8) ++ " {timestamp}\n".toList

def get_influx_querys (l : RulesList Fields) : Text :=
  let t := (l.rules_.getLast?.map fun r => r.rule_type).getD ("none" : Text)
  (l.rules_.mapIdx rule_query).flatten
    ++ "total,type=".toList ++ t ++ " pps=".toList ++ BaseRule.to_string (l.rules_.map fun r => r.pps).sum
    ++ ",bps=".toList ++ BaseRule.to_string ((l.rules_.map fun r => r.bps).sum * 8) ++ " {timestamp}\n".toList

end RulesList

def RulesCollection.get_influx_querys (c : RulesCollection) (cur_time : Nat) : Text :=
  replace_all (c.tcp.get_influx_querys ++ c.udp.get_influx_querys ++ c.icmp.get_influx_querys) "{timestamp}"
    ((toString cur_time).toList ++ "000000000".toList)

/-! ### The client -/

structure InfluxClient where
  host_ : Text
  port_ : UInt32
  database_ : Text
  user_ : Text
  pass_ : Text
  enable_ : Bool

namespace InfluxClient
open ControlSession (c_str)

def new (host : Text) (port : UInt32) (db user pass use : Text) : InfluxClient := ⟨host,port,db,user,pass,use = "yes"⟩

/-- A request, by the options that curl is given for it. -/
structure Request where
  url : Text
  userpwd : Option Text
  postfields : Text
deriving DecidableEq

def request (client : InfluxClient) (query : Text) : Request where
  url := c_str ("http://".toList ++ client.host_ ++ ":".toList ++ (toString client.port_.toNat).toList
    ++ "/write?db=".toList ++ client.database_)
  userpwd := if client.user_ ≠ [] ∧ client.pass_ ≠ [] then some (c_str (client.user_ ++ ":".toList ++ client.pass_)) else none
  postfields := c_str query

/-- `insert`, by what `curl_easy_init` and `curl_easy_perform` return: its code, and the
    request that it has sent. -/
def insert (client : InfluxClient) (query : Text) (curl_easy_init : Bool) (curl_easy_perform : Request → Int) :
    Int × Option Request :=
  if client.enable_ = false then (0,none)
  else if curl_easy_init = false then (-1,none)
  else (curl_easy_perform (client.request query),some (client.request query))

end InfluxClient

/-! ### The points -/

namespace RulesList

/-- The points of a list as the query has them, with a text for the time. -/
def points {Fields : Type} (l : RulesList Fields) (time : Text) : List (Point Text) :=
  (l.rules_.mapIdx fun i r => ⟨r.rule_type,[("rule",(toString i).toList)],
      [("pps",BaseRule.to_string r.pps),("bps",BaseRule.to_string (r.bps * 8))],time⟩) ++
    [⟨"total",[("type",(l.rules_.getLast?.map fun r => r.rule_type).getD ("none" : Text))],
      [("pps",BaseRule.to_string (l.rules_.map fun r => r.pps).sum),
        ("bps",BaseRule.to_string ((l.rules_.map fun r => r.bps).sum * 8))],time⟩]

/-- What the points are to say: for each rule its type, number and rates, and for the list
    their sums, as 64-bit numbers, with bits for bytes. -/
def statistics {p : Proto} {Value : Type} (l : RulesList (Fields p)) (number : Nat → Value) (time : Value) :
    List (Point Value) :=
  (l.rules_.mapIdx fun i (r : Rule (Fields p)) => ⟨rule_type p,[("rule",Nat.toDigits 10 i)],
      [("pps",number r.pps.toNat),("bps",number (r.bps * 8).toNat)],time⟩) ++
    [⟨"total",[("type",if l.rules_.isEmpty then ("none" : Text) else rule_type p)],
      [("pps",number (l.rules_.map fun (r : Rule (Fields p)) => r.pps).sum.toNat),
        ("bps",number ((l.rules_.map fun (r : Rule (Fields p)) => r.bps).sum * 8).toNat)],time⟩]

theorem map_mapIdx {α β γ : Type} (l : List α) (f : Nat → α → β) (g : β → γ) :
    (l.mapIdx f).map g = l.mapIdx fun i a => g (f i a) := by
  refine List.ext_getElem? fun i => ?_
  simp [Option.map_map,Function.comp_def]

theorem points_query {Fields : Type} (l : RulesList Fields) :
    l.get_influx_querys = (l.points "{timestamp}").flatMap fun p => p.line ++ ['\n'] := by
  have rule (i : Nat) (r : Rule Fields) : rule_query i r = Point.line ⟨r.rule_type,[("rule",(toString i).toList)],
      [("pps",BaseRule.to_string r.pps),("bps",BaseRule.to_string (r.bps * 8))],"{timestamp}"⟩ ++ ['\n'] := by
    simp [rule_query,Point.line,LineProtocol.pair,List.intercalate]
  have rules : (l.rules_.mapIdx rule_query).flatten = (l.rules_.mapIdx fun i r => (⟨r.rule_type,[("rule",(toString i).toList)],
      [("pps",BaseRule.to_string r.pps),("bps",BaseRule.to_string (r.bps * 8))],"{timestamp}"⟩ : Point Text)).flatMap
        fun p => p.line ++ ['\n'] := by
    rw [List.flatMap_def,map_mapIdx,funext fun i => funext (rule i)]
  rw [get_influx_querys,points,List.flatMap_append,List.flatMap_singleton,← rules]
  simp [Point.line,LineProtocol.pair,List.intercalate]

/-- The rules of the list have the type of its protocol, as `parse` gives it to them. -/
def Typed {p : Proto} (l : RulesList (Fields p)) : Prop := ∀ r ∈ l.rules_, r.rule_type = rule_type p

theorem text_number (n : Nat) : (toString n).toList = Nat.toDigits 10 n := Nat.toList_repr

theorem last_type {p : Proto} {l : RulesList (Fields p)} (typed : l.Typed) :
    (l.rules_.getLast?.map fun r => r.rule_type).getD ("none" : Text) =
      if l.rules_.isEmpty then ("none" : Text) else rule_type p := by
  cases last : l.rules_.getLast? with
  | none =>
    rw [List.getLast?_eq_none_iff.mp last]
    rfl
  | some r =>
    have member : r ∈ l.rules_ := List.mem_of_getLast? last
    have some_rule : l.rules_.isEmpty = false := List.isEmpty_eq_false_iff.mpr (List.ne_nil_of_mem member)
    rw [some_rule,Option.map_some,Option.getD_some,typed r member]
    rfl

theorem points_eq {p : Proto} {l : RulesList (Fields p)} (typed : l.Typed) (time : Text) :
    l.points time = l.statistics (Nat.toDigits 10) time := by
  have numbers (n : UInt64) : BaseRule.to_string n = Nat.toDigits 10 n.toNat := text_number n.toNat
  simp only [points,statistics,last_type typed,numbers,text_number]
  congr 1
  refine List.ext_getElem? fun i => ?_
  rw [List.getElem?_mapIdx,List.getElem?_mapIdx]
  cases found : l.rules_[i]? with
  | none => rfl
  | some r => rw [Option.map_some,Option.map_some,typed r (List.mem_of_getElem? found)]

/-- The words of the statistics: names and numerals. -/
inductive Word : Text → Prop
  | type (p : Proto) : Word (rule_type p)
  | name {w : Text} (named : w ∈ [("total" : Text),"rule","type","none","pps","bps"]) : Word w
  | number (n : Nat) : Word (Nat.toDigits 10 n)

theorem Word.letters {w : Text} (word : Word w) : ∀ c ∈ w, c.isAlphanum = true := by
  cases word with
  | type p => cases p <;> exact List.all_eq_true.mp (by decide)
  | name named =>
    simp only [List.mem_cons,List.not_mem_nil,or_false] at named
    rcases named with rfl | rfl | rfl | rfl | rfl | rfl <;> exact List.all_eq_true.mp (by decide)
  | number n =>
    intro c member
    have digit : c.isDigit = true := Nat.isDigit_of_mem_toDigits (by decide) (by decide) member
    simp [Char.isAlphanum,digit]

theorem Word.free {w : Text} (word : Word w) {c : Char} (other : c.isAlphanum = false) : c ∉ w := by
  intro member
  cases other.symm.trans (word.letters c member)

theorem Word.plain {w : Text} (word : Word w) : Plain w := by
  intro c member delimiter
  have letter := word.letters c member
  simp only [List.mem_cons,List.not_mem_nil,or_false] at delimiter
  rcases delimiter with rfl | rfl | rfl | rfl <;> revert letter <;> decide

/-- A point of the statistics is that of a rule or that of the sum. -/
theorem mem_statistics {p : Proto} {Value : Type} {l : RulesList (Fields p)} {number : Nat → Value} {time : Value}
    {point : Point Value} (member : point ∈ l.statistics number time) : ∃ measurement tag value pps bps,
      point = ⟨measurement,[(tag,value)],[("pps",number pps),("bps",number bps)],time⟩ ∧
      Word measurement ∧ Word tag ∧ Word value := by
  rw [statistics,List.mem_append,List.mem_mapIdx,List.mem_singleton] at member
  rcases member with ⟨i,inside,rfl⟩ | rfl
  · exact ⟨_,_,_,_,_,rfl,.type p,.name (by simp),.number i⟩
  · refine ⟨_,_,_,_,_,rfl,.name (by simp),.name (by simp),?_⟩
    split_ifs
    · exact .name (by simp)
    · exact .type p

theorem statistics_plain {p : Proto} {l : RulesList (Fields p)} {time : Text} (time_plain : Plain time)
    {point : Point Text} (member : point ∈ l.statistics (Nat.toDigits 10) time) : point.Plain := by
  obtain ⟨measurement,tag,value,pps,bps,rfl,first,second,third⟩ := mem_statistics member
  refine ⟨first.plain,?_,?_,by simp,time_plain⟩
  · intro entry entry_member
    obtain rfl := List.mem_singleton.mp entry_member
    exact ⟨second.plain,third.plain⟩
  · intro field field_member
    simp only [List.mem_cons,List.not_mem_nil,or_false] at field_member
    rcases field_member with rfl | rfl
    · exact ⟨Word.plain (.name (by simp)),Word.plain (.number pps)⟩
    · exact ⟨Word.plain (.name (by simp)),Word.plain (.number bps)⟩

/-- Up to the time a line has only letters, digits and what sets the words off. -/
theorem statistics_head {p : Proto} {l : RulesList (Fields p)} {time : Text} {point : Point Text}
    (member : point ∈ l.statistics (Nat.toDigits 10) time) {c : Char} (other : c.isAlphanum = false)
    (no_mark : c ∉ [' ',',','=']) : c ∉ point.head id := by
  obtain ⟨measurement,tag,value,pps,bps,rfl,first,second,third⟩ := mem_statistics member
  refine LineProtocol.not_mem_head no_mark (first.free other) ?_ ?_
  · intro entry entry_member
    obtain rfl := List.mem_singleton.mp entry_member
    exact ⟨second.free other,third.free other⟩
  · intro field field_member
    simp only [List.mem_cons,List.not_mem_nil,or_false] at field_member
    rcases field_member with rfl | rfl
    · exact ⟨Word.free (.name (by simp)) other,Word.free (.number pps) other⟩
    · exact ⟨Word.free (.name (by simp)) other,Word.free (.number bps) other⟩

theorem statistics_time {p : Proto} {Value : Type} {l : RulesList (Fields p)} {number : Nat → Value} {time : Value}
    {point : Point Value} (member : point ∈ l.statistics number time) : point.time = time := by
  obtain ⟨measurement,tag,value,pps,bps,rfl,_⟩ := mem_statistics member
  rfl

theorem numbers_statistics {p : Proto} (l : RulesList (Fields p)) {digits : Text} {time : Nat}
    (read : number digits = some time) :
    (l.statistics (Nat.toDigits 10) digits).mapM Point.numbers = some (l.statistics id time) := by
  have each (measurement : Text) (tags : List (Text × Text)) (pps bps : Nat) :
      Point.numbers ⟨measurement,tags,[("pps",Nat.toDigits 10 pps),("bps",Nat.toDigits 10 bps)],digits⟩ =
        some ⟨measurement,tags,[("pps",pps),("bps",bps)],time⟩ := by
    simp [Point.numbers,LineProtocol.number_toDigits,read]
  have inverse : ∀ point ∈ l.statistics id time,
      Point.numbers { point with fields := point.fields.map fun field => (field.1,Nat.toDigits 10 field.2), time := digits } =
        some point := by
    intro point member
    obtain ⟨measurement,tag,value,pps,bps,rfl,_⟩ := mem_statistics member
    exact each _ _ _ _
  have texts : l.statistics (Nat.toDigits 10) digits = (l.statistics id time).map fun point =>
      { point with fields := point.fields.map fun field => (field.1,Nat.toDigits 10 field.2), time := digits } := by
    simp only [statistics,List.map_append,map_mapIdx]
    rfl
  rw [texts,LineProtocol.mapM_map_eq inverse]

end RulesList

/-! ### The time -/

section
variable {search format : Text}

theorem replace_from_passed (passed rest : Text) :
    replace_from search format passed.length (passed ++ rest) = replace_from search format 0 rest := by
  induction passed with
  | nil => rfl
  | cons c passed ih => exact ih

/-- Where the first character of the search is missing nothing is replaced. -/
theorem replace_from_free {first : Char} (begins : search.head? = some first) {text : Text} (free : first ∉ text)
    (rest : Text) : replace_from search format 0 (text ++ rest) = text ++ replace_from search format 0 rest := by
  obtain ⟨others,rfl⟩ : ∃ others, search = first :: others := by
    cases search with
    | nil => cases begins
    | cons c others => exact ⟨others,by rw [Option.some.inj begins]⟩
  induction text with
  | nil => rfl
  | cons c text ih =>
    have other : first ≠ c := fun same => free (same ▸ List.mem_cons_self)
    have no_match : ¬ (first :: others ≠ [] ∧ (first :: others).isPrefixOf (c :: (text ++ rest)) = true) := by
      simp [other]
    rw [List.cons_append,replace_from,if_neg no_match,ih fun member => free (List.mem_cons_of_mem c member)]
    rfl

theorem replace_from_match {first : Char} (begins : search.head? = some first) (rest : Text) :
    replace_from search format 0 (search ++ rest) = format ++ replace_from search format 0 rest := by
  cases search with
  | nil => cases begins
  | cons c others =>
    have here : c :: others ≠ [] ∧ (c :: others).isPrefixOf (c :: (others ++ rest)) = true :=
      ⟨List.cons_ne_nil _ _,List.isPrefixOf_iff_prefix.mpr ⟨rest,rfl⟩⟩
    rw [List.cons_append,replace_from,if_pos here,List.length_cons,Nat.add_sub_cancel,replace_from_passed]

/-- If the placeholder stands nowhere else, every line gets its time. -/
theorem replace_all_points {first : Char} (begins : search.head? = some first) (no_newline : first ≠ '\n')
    {points : List (Point Text)} (free : ∀ p ∈ points, first ∉ p.head id) (time : ∀ p ∈ points, p.time = search) :
    replace_all (points.flatMap fun p => p.line ++ ['\n']) search format =
      (points.map fun p => { p with time := format }).flatMap fun p => p.line ++ ['\n'] := by
  rw [replace_all]
  induction points with
  | nil => rfl
  | cons p rest ih =>
    have newline : first ∉ ['\n'] := fun member => no_newline (List.mem_singleton.mp member)
    have later := ih (fun q member => free q (List.mem_cons_of_mem p member)) fun q member => time q (List.mem_cons_of_mem p member)
    have head : Point.head { p with time := format } id = p.head id := rfl
    rw [List.map_cons,List.flatMap_cons,List.flatMap_cons,Point.line_head,Point.line_head,head,time p List.mem_cons_self]
    simp only [List.append_assoc]
    rw [replace_from_free begins (free p List.mem_cons_self),replace_from_match begins,replace_from_free begins newline,later]

end

/-! ### What is written -/

/-- The lists of main as the monitor has read them, each at its own time. -/
def RulesCollection.sampled (s : Proto → Daemon) : RulesCollection :=
  ⟨(s .TCP).main.tcp,(s .UDP).main.udp,(s .ICMP).main.icmp,(s .ICMP).main.last_change⟩

/-- The statistics of all lists, for a time in seconds. -/
def RulesCollection.all_statistics {Value : Type} (c : RulesCollection) (number : Nat → Value) (time : Value) :
    List (Point Value) :=
  c.tcp.statistics (p := .TCP) number time ++ c.udp.statistics (p := .UDP) number time ++
    c.icmp.statistics (p := .ICMP) number time

theorem mem_all_statistics {Value : Type} {c : RulesCollection} {number : Nat → Value} {time : Value} {point : Point Value} :
    point ∈ c.all_statistics number time ↔ ∃ p, point ∈ (c.list p).statistics number time := by
  rw [RulesCollection.all_statistics,List.mem_append,List.mem_append]
  constructor
  · rintro ((tcp | udp) | icmp)
    · exact ⟨.TCP,tcp⟩
    · exact ⟨.UDP,udp⟩
    · exact ⟨.ICMP,icmp⟩
  · rintro ⟨p,member⟩
    cases p with
    | TCP => exact .inl (.inl member)
    | UDP => exact .inl (.inr member)
    | ICMP => exact .inr member

theorem get_influx_querys_eq {c : RulesCollection} (typed : ∀ p, (c.list p).Typed) (cur_time : Nat) :
    c.get_influx_querys cur_time = (c.all_statistics (Nat.toDigits 10)
      (Nat.toDigits 10 cur_time ++ List.replicate 9 '0')).flatMap fun p => p.line ++ ['\n'] := by
  have lists : c.tcp.get_influx_querys ++ c.udp.get_influx_querys ++ c.icmp.get_influx_querys =
      (c.all_statistics (Nat.toDigits 10) "{timestamp}".toList).flatMap fun p => p.line ++ ['\n'] := by
    have each (p : Proto) : (c.list p).get_influx_querys =
        ((c.list p).statistics (Nat.toDigits 10) "{timestamp}".toList).flatMap fun p => p.line ++ ['\n'] := by
      rw [RulesList.points_query,RulesList.points_eq (typed p)]
    rw [RulesCollection.all_statistics,List.flatMap_append,List.flatMap_append]
    exact congrArg₂ _ (congrArg₂ _ (each .TCP) (each .UDP)) (each .ICMP)
  have timed : (c.all_statistics (Nat.toDigits 10) "{timestamp}".toList).map
      (fun p => { p with time := Nat.toDigits 10 cur_time ++ List.replicate 9 '0' }) =
      c.all_statistics (Nat.toDigits 10) (Nat.toDigits 10 cur_time ++ List.replicate 9 '0') := by
    simp only [RulesCollection.all_statistics,RulesList.statistics,List.map_append,RulesList.map_mapIdx]
    rfl
  have zeros : "000000000".toList = List.replicate 9 '0' := by decide
  rw [RulesCollection.get_influx_querys,lists,RulesList.text_number,zeros,← timed]
  have begins : ("{timestamp}".toList).head? = some '{' := rfl
  refine replace_all_points begins (by decide) ?_ ?_
  · intro point member
    obtain ⟨p,member⟩ := mem_all_statistics.mp member
    exact RulesList.statistics_head member (by decide) (by decide)
  · intro point member
    obtain ⟨p,member⟩ := mem_all_statistics.mp member
    exact RulesList.statistics_time member

theorem typed_of_text {c : RulesCollection} (made : c.MadeOf Daemon.FromText) (p : Proto) : (c.list p).Typed := by
  intro r member
  obtain ⟨parsed_rule,parsed,same⟩ := made p r member
  have types : parsed_rule.entered.rule_type = r.entered.rule_type := congrArg (fun r : Rule (Fields p) => r.rule_type) same
  exact types.symm.trans (parsed_act parsed).1

theorem list_sampled (s : Proto → Daemon) (p : Proto) : (RulesCollection.sampled s).list p = (s p).main.list p := by
  cases p <;> rfl

/-- There is no zero in the query that could end it early. -/
theorem zero_not_mem_query {c : RulesCollection} (typed : ∀ p, (c.list p).Typed) (cur_time : Nat) :
    '\x00' ∉ c.get_influx_querys cur_time := by
  rw [get_influx_querys_eq typed,List.mem_flatMap]
  rintro ⟨point,member,here⟩
  obtain ⟨p,member⟩ := mem_all_statistics.mp member
  rw [Point.line_head,RulesList.statistics_time member,List.mem_append,List.mem_append,List.mem_append,
    List.mem_replicate,List.mem_singleton] at here
  rcases here with (head | digit | ⟨_,digit⟩) | newline
  · exact RulesList.statistics_head member (by decide) (by decide) head
  · exact RulesList.Word.free (.number cur_time) (by decide) digit
  · exact absurd digit (by decide)
  · exact absurd newline (by decide)

theorem read_query {c : RulesCollection} (typed : ∀ p, (c.list p).Typed) (cur_time : Nat) :
    LineProtocol.read (c.get_influx_querys cur_time) = some (c.all_statistics id (10^9 * cur_time)) := by
  have digits : ∀ d ∈ Nat.toDigits 10 cur_time ++ List.replicate 9 '0', d.isDigit = true := by
    intro d member
    rw [List.mem_append,List.mem_replicate] at member
    rcases member with digit | ⟨_,rfl⟩
    · exact Nat.isDigit_of_mem_toDigits (by decide) (by decide) digit
    · rfl
  have plain : ∀ point ∈ c.all_statistics (Nat.toDigits 10) (Nat.toDigits 10 cur_time ++ List.replicate 9 '0'),
      point.Plain := by
    intro point member
    obtain ⟨p,member⟩ := mem_all_statistics.mp member
    exact RulesList.statistics_plain (LineProtocol.plain_digits digits) member
  have time := LineProtocol.number_zeros cur_time 9
  rw [get_influx_querys_eq typed,LineProtocol.read_points plain,RulesCollection.all_statistics,List.mapM_append,
    List.mapM_append]
  have tcp := RulesList.numbers_statistics (p := .TCP) c.tcp time
  have udp := RulesList.numbers_statistics (p := .UDP) c.udp time
  have icmp := RulesList.numbers_statistics (p := .ICMP) c.icmp time
  rw [tcp,udp,icmp]
  rfl

end DdosDetector
