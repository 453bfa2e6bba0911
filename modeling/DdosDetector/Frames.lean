import DdosDetector.Startup
import DdosDetector.Wire

/-!
What a rules file makes of frames. From the words of its lines on, without the rules in
between: a frame is reported if some line of the protocol that it announces describes it
and does not pass it on, and counted for each line that describes it up to that one.
-/
namespace DdosDetector
open NetmapReceiver (announced read_packet check_packet check_proto)

theorem related_at {α β : Type} {R : α → β → Prop} {l : List α} {m : List β} (related : List.Forall₂ R l m) {k : Nat} {a : α}
    (found : l[k]? = some a) : ∃ b, m[k]? = some b ∧ R a b := by
  induction related generalizing k with
  | nil => cases found
  | @cons a' b l m here rest ih =>
    cases k with
    | zero =>
      obtain rfl := Option.some.inj found
      exact ⟨b,rfl,here⟩
    | succ k => exact ih found

/-! ### The lines of a file as options -/

namespace RulesFileLoader

/-- The options of a line that holds a rule of the protocol. -/
def line_options (platform : Platform) (opt : options_description) (p : Proto) (line : Text) : Option variables_map :=
  match tokenize platform ' ' line with
  | .ok (type :: word :: words) =>
    if type = type_name p ∧ (ProtoRule.parse platform opt (ProtoRule.new (word :: words) : Rule (Fields p))).isOk then
      (CommandParser.parse opt (word :: words)).toOption
    else none
  | _ => none

/-- The options of the rules of the protocol that a file holds, in order. -/
def file_options (platform : Platform) (opt : options_description) (p : Proto) : RulesFile → List variables_map
  | .content text => (getlines text).filterMap (line_options platform opt p)
  | _ => []

/-- The rule is what `parse` makes of words with these options. -/
def MadeWith (platform : Platform) (opt : options_description) {p : Proto} (r : Rule (Fields p)) (vm : variables_map) : Prop :=
  ∃ words, CommandParser.parse opt words = .ok vm ∧ ProtoRule.parse platform opt (ProtoRule.new words) = .ok r

theorem line_made (platform : Platform) (opt : options_description) (p : Proto) (line : Text) :
    (line_rule platform opt p line = none ∧ line_options platform opt p line = none) ∨
      ∃ r vm, line_rule platform opt p line = some r ∧ line_options platform opt p line = some vm ∧
        MadeWith platform opt r vm := by
  unfold line_rule line_options
  rcases tokenize platform ' ' line with _ | (_ | ⟨type,_ | ⟨word,words⟩⟩)
  · exact .inl ⟨rfl,rfl⟩
  · exact .inl ⟨rfl,rfl⟩
  · exact .inl ⟨rfl,rfl⟩
  · by_cases typed : type = type_name p
    · cases parsed : ProtoRule.parse platform opt (ProtoRule.new (word :: words) : Rule (Fields p)) with
      | error e => exact .inl ⟨by simp [parsed,Except.toOption],by simp [parsed,Except.isOk,Except.toBool]⟩
      | ok r =>
        obtain ⟨vm,options,_⟩ := parse_new parsed
        exact .inr ⟨r,vm,by simp [typed,parsed,Except.toOption],
          by simp [typed,parsed,options,Except.isOk,Except.toBool,Except.toOption],word :: words,options,parsed⟩
    · exact .inl ⟨by simp [typed],by simp [typed]⟩

/-- Line by line, the rules of a file are made of its options. -/
theorem file_made (platform : Platform) (opt : options_description) (p : Proto) (file : RulesFile) :
    List.Forall₂ (MadeWith platform opt) (loaded_rules platform opt p file) (file_options platform opt p file) := by
  cases file with
  | missing => exact .nil
  | unreadable => exact .nil
  | content text =>
    simp only [loaded_rules,file_rules,file_options]
    induction getlines text with
    | nil => exact .nil
    | cons line lines ih =>
      rcases line_made platform opt p line with ⟨rule,options⟩ | ⟨r,vm,rule,options,made⟩
      · rw [List.filterMap_cons_none rule,List.filterMap_cons_none options]
        exact ih
      · rw [List.filterMap_cons_some rule,List.filterMap_cons_some options]
        exact .cons made ih

end RulesFileLoader
open RulesFileLoader (file_options loaded_rules MadeWith file_made)

/-! ### What a list of options says of a frame -/

section
variable (platform : Platform) (options : Proto → List variables_map) (packet : Memory)

/-- Some options for the protocol of the frame describe it and do not pass it on. -/
def Reported : Prop :=
  ∃ p, announced packet = some p ∧ ∃ vm ∈ options p, Describes platform vm p packet ∧ vm.flag "next" = false

/-- The options at a place describe the frame, and all before them that do pass it on. -/
def CountedAt (p : Proto) (k : Nat) : Prop :=
  announced packet = some p ∧ ∃ vm, (options p)[k]? = some vm ∧ Describes platform vm p packet ∧
    ∀ j < k, ∀ earlier, (options p)[j]? = some earlier → Describes platform earlier p packet → earlier.flag "next" = true

end

section list
variable {platform : Platform} {opt : options_description} {p : Proto} {rules : List (Rule (Fields p))}
  {options : List variables_map}

theorem made_describes {r : Rule (Fields p)} {vm : variables_map} (made : MadeWith platform opt r vm)
    (written : WellWritten platform vm p) (packet : Memory) (len : UInt32) :
    (RulesList.matches_packet r (read_packet packet len p) = true ↔ Describes platform vm p packet) ∧
      r.next_rule = vm.flag "next" := by
  obtain ⟨words,read,accepted⟩ := made
  exact ⟨matches_iff_describes read accepted written packet len,next_rule_given read accepted⟩

theorem terminal_iff (made : List.Forall₂ (MadeWith platform opt) rules options)
    (written : ∀ vm ∈ options, WellWritten platform vm p) (packet : Memory) (len : UInt32) :
    RulesList.TerminalMatch rules (read_packet packet len p) ↔
      ∃ vm ∈ options, Describes platform vm p packet ∧ vm.flag "next" = false := by
  constructor
  · rintro ⟨r,member,matched,last⟩
    obtain ⟨vm,inside,with_options⟩ := exists_related made.flip member
    obtain ⟨describes,next⟩ := made_describes with_options (written vm inside) packet len
    exact ⟨vm,inside,describes.mp matched,next ▸ last⟩
  · rintro ⟨vm,inside,described,last⟩
    obtain ⟨r,member,with_options⟩ := exists_related made inside
    obtain ⟨describes,next⟩ := made_describes with_options (written vm inside) packet len
    exact ⟨r,member,describes.mpr described,next.trans last⟩

theorem takes_iff (made : List.Forall₂ (MadeWith platform opt) rules options)
    (written : ∀ vm ∈ options, WellWritten platform vm p) (packet : Memory) (len : UInt32) (k : Nat) :
    RulesList.Takes rules k (read_packet packet len p) ↔
      ∃ vm, options[k]? = some vm ∧ Describes platform vm p packet ∧
        ∀ j < k, ∀ earlier, options[j]? = some earlier → Describes platform earlier p packet → earlier.flag "next" = true := by
  constructor
  · rintro ⟨r,found,matched,before⟩
    obtain ⟨vm,here,with_options⟩ := related_at made found
    have describes := (made_describes with_options (written vm (List.mem_of_getElem? here)) packet len).1
    refine ⟨vm,here,describes.mp matched,?_⟩
    intro j below earlier at_j described
    obtain ⟨other,there,other_with⟩ := related_at made.flip at_j
    obtain ⟨other_describes,next⟩ := made_describes other_with (written earlier (List.mem_of_getElem? at_j)) packet len
    exact next.symm.trans (before j below other there (other_describes.mpr described))
  · rintro ⟨vm,here,described,before⟩
    obtain ⟨r,found,with_options⟩ := related_at made.flip here
    have describes := (made_describes with_options (written vm (List.mem_of_getElem? here)) packet len).1
    refine ⟨r,found,describes.mpr described,?_⟩
    intro j below other at_j matched
    obtain ⟨earlier,there,other_with⟩ := related_at made at_j
    obtain ⟨other_describes,next⟩ := made_describes other_with (written earlier (List.mem_of_getElem? there)) packet len
    exact next.trans (before j below earlier there (other_describes.mp matched))

end list

/-! ### What a collection makes of a frame -/

/-- A packet has a terminal match in a list exactly if it has one in a list that is alike. -/
theorem RulesList.terminal_alike {F H : Type} [ProtoRule F H] {l m : RulesList F} (alike : Alike l m) (packet : Packet H) :
    TerminalMatch l.rules_ packet ↔ TerminalMatch m.rules_ packet := by
  obtain ⟨same,classify⟩ := alike
  obtain ⟨size,equal⟩ := eq_iff_getElem?.mp same
  constructor
  · rintro ⟨r,member,matched,last⟩
    obtain ⟨k,found⟩ := List.getElem?_of_mem member
    have inside : k < m.rules_.length := size ▸ (List.getElem?_eq_some_iff.mp found).1
    have there := List.getElem?_eq_getElem inside
    exact ⟨_,List.mem_of_getElem? there,(classify k _ _ found there packet).symm.trans matched,
      (ProtoRule.eq_next (equal k _ _ found there)).symm.trans last⟩
  · rintro ⟨r,member,matched,last⟩
    obtain ⟨k,found⟩ := List.getElem?_of_mem member
    have inside : k < l.rules_.length := size.symm ▸ (List.getElem?_eq_some_iff.mp found).1
    have there := List.getElem?_eq_getElem inside
    exact ⟨_,List.mem_of_getElem? there,(classify k _ _ there found packet).trans matched,
      (ProtoRule.eq_next (equal k _ _ there found)).trans last⟩

/-- The lists of the collection are alike to rules made with these options. -/
def Follows (platform : Platform) (opts : Proto → options_description) (options : Proto → List variables_map)
    (c : RulesCollection) : Prop :=
  ∀ p, ∃ l : RulesList (Fields p), RulesList.Alike (c.list p) l ∧
    List.Forall₂ (MadeWith platform (opts p)) l.rules_ (options p)

section follows
variable {platform : Platform} {opts : Proto → options_description} {options : Proto → List variables_map}
  {c : RulesCollection}

theorem check_packet_seen {packet : Memory} {p : Proto} (seen : announced packet = some p) (c : RulesCollection) (len : UInt32) :
    check_packet packet c len = check_proto packet c len p := by
  rw [NetmapReceiver.check_packet_eq,seen,Option.map_some,Option.getD_some]

theorem reported_iff (follows : Follows platform opts options c) (written : ∀ p, ∀ vm ∈ options p, WellWritten platform vm p)
    (packet : Memory) (len : UInt32) : (check_packet packet c len).2 = true ↔ Reported platform options packet := by
  cases seen : announced packet with
  | none =>
    rw [NetmapReceiver.check_packet_unseen seen]
    simp [Reported,seen]
  | some p =>
    obtain ⟨l,alike,made⟩ := follows p
    rw [check_packet_seen seen]
    show ((c.list p).check_list (read_packet packet len p)).2 = true ↔ _
    rw [RulesList.verdict_check_list,RulesList.terminal_alike alike,terminal_iff made (written p)]
    simp [Reported,seen]

end follows

/-! ### Frames of a run -/

/-- The packets of a protocol that frames are read as. -/
def frame_packets (frames : List (Memory × UInt32)) (p : Proto) : List (Packet (Header p)) :=
  frames.filterMap fun frame => if announced frame.1 = some p then some (read_packet frame.1 frame.2 p) else none

open Classical in
/-- What the frames bring to a counter of the rule at a place. -/
noncomputable def brought (platform : Platform) (options : Proto → List variables_map) (p : Proto) (k : Nat) (c : Counter)
    (frame : Memory × UInt32) : UInt64 :=
  if CountedAt platform options frame.1 p k then c.weight frame.2 else 0

theorem growth_brought {platform : Platform} {opt : options_description} {p : Proto} {l : RulesList (Fields p)}
    {options : Proto → List variables_map} (made : List.Forall₂ (MadeWith platform opt) l.rules_ (options p))
    (written : ∀ vm ∈ options p, WellWritten platform vm p) (frames : List (Memory × UInt32)) (c : Counter) (k : Nat) :
    ((frame_packets frames p).map (l.growth c k)).sum = (frames.map (brought platform options p k c)).sum := by
  induction frames with
  | nil => rfl
  | cons frame frames ih =>
    rw [List.map_cons,List.sum_cons,← ih]
    by_cases seen : announced frame.1 = some p
    · have places : RulesList.counts_packet (read_packet frame.1 frame.2 p) l.rules_ k = true ↔
          CountedAt platform options frame.1 p k := by
        rw [RulesList.counts_packet_iff,takes_iff made written]
        simp [CountedAt,seen]
      have first : frame_packets (frame :: frames) p = read_packet frame.1 frame.2 p :: frame_packets frames p := by
        simp [frame_packets,seen]
      have here : l.growth c k (read_packet frame.1 frame.2 p) = brought platform options p k c frame := by
        unfold brought RulesList.growth
        by_cases counted : CountedAt platform options frame.1 p k
        · rw [if_pos counted]
          exact if_pos (places.mpr counted)
        · rw [if_neg counted]
          exact if_neg (mt places.mp counted)
      rw [first,List.map_cons,List.sum_cons,here]
    · have first : frame_packets (frame :: frames) p = frame_packets frames p := by
        simp [frame_packets,seen]
      have nothing : brought platform options p k c frame = 0 := if_neg fun counted => seen counted.1
      rw [first,nothing,UInt64.zero_add]

namespace Process

/-- In every run of the program on a rules file whose options are well written, until the
    first edit or reload, a receiver reports exactly the frames that some line for their
    protocol describes and does not pass on; and the counters of each line have got just
    the frames that it describes and that no earlier line has kept. -/
theorem frames_as_written {platform : Platform} {opts : Proto → options_description} {file : RulesFile}
    (written : ∀ p, ∀ vm ∈ file_options platform (opts p) p file, WellWritten platform vm p)
    {made now copied : time_point} {main : RulesCollection}
    (loaded : RulesFileLoader.start platform file (RulesCollection.new opts made) now = .ok main) {num_rings : Nat}
    {labels : List Label} {s : Daemon}
    (run : Runs.Run (step platform num_rings) (fun _ _ => True) (receiver main copied) labels (.running s))
    (receives : ∀ a ∈ labels.filterMap view, Daemon.Receives a) :
    (∀ c ∈ s.threads, ∀ packet len, (check_packet packet c len).2 = true ↔
        Reported platform (fun p => file_options platform (opts p) p file) packet) ∧
      ∀ frames, (∀ p, (labels.filterMap view).flatMap (Daemon.packets_of p) = frame_packets frames p) →
        ∀ p c k, Daemon.total s p c k =
          (frames.map (brought platform (fun p => file_options platform (opts p) p file) p k c)).sum := by
  obtain ⟨_,sync,counts⟩ := counts_from_start loaded run receives
  have made (p : Proto) := file_made platform (opts p) p file
  constructor
  · intro c thread packet len
    obtain ⟨j,found⟩ := List.getElem?_of_mem thread
    have follows : Follows platform opts (fun p => file_options platform (opts p) p file) c := fun p =>
      ⟨⟨loaded_rules platform (opts p) p file,opts p,now⟩,RulesList.alike_congr rfl (counts p).1 (sync j c found p),made p⟩
    exact reported_iff follows written packet len
  · intro frames read p c k
    have unused : (⟨loaded_rules platform (opts p) p file,opts p,now⟩ : RulesList (Fields p)).count_at c k = 0 :=
      unused_count (fun _ member => loaded_unused member) c k
    have growth := @growth_brought platform (opts p) p ⟨loaded_rules platform (opts p) p file,opts p,now⟩
      (fun p => file_options platform (opts p) p file) (made p) (written p) frames c k
    rw [(counts p).2,RulesList.count_at_feed,unused,read p,growth,UInt64.zero_add]

/-- A rules file of one line for TCP frames to an address, and such a frame. -/
def one_line : RulesFile := .content "TCP --dstip 10.0.0.1 --pps-th 100p"
def syn_frame : Memory
  | 12 => 8
  | 14 => 0x45
  | 23 => 6
  | 30 => 10
  | 33 => 1
  | 46 => 0x50
  | 47 => 2
  | _ => 0

theorem one_line_tokenized : getlines "TCP --dstip 10.0.0.1 --pps-th 100p" = ["TCP --dstip 10.0.0.1 --pps-th 100p".toList] ∧
    tokenize documented ' ' "TCP --dstip 10.0.0.1 --pps-th 100p".toList = .ok (("TCP" : Text) :: sample_words) := by
  decide +kernel

theorem one_line_options {p : Proto} {vm : variables_map}
    (member : vm ∈ file_options documented documented_options p one_line) :
    p = .TCP ∧ CommandParser.parse documented_options sample_words = .ok vm := by
  obtain ⟨lines,tokens⟩ := one_line_tokenized
  simp only [one_line,file_options,lines,List.mem_filterMap,List.mem_singleton,exists_eq_left,
    RulesFileLoader.line_options,tokens] at member
  simp only [sample_words] at member ⊢
  split_ifs at member with typed
  cases read : CommandParser.parse documented_options ["--dstip","10.0.0.1","--pps-th","100p"] with
  | error e =>
    rw [read] at member
    cases member
  | ok vm' =>
    rw [read] at member
    obtain rfl := Option.some.inj member
    exact ⟨RulesFileLoader.type_name_inj typed.1.symm,rfl⟩

theorem one_line_written : ∀ p, ∀ vm ∈ file_options documented documented_options p one_line,
    WellWritten documented vm p := by
  intro p vm member
  obtain ⟨rfl,read⟩ := one_line_options member
  obtain rfl := Except.ok.inj read
  have absent (name : String) {P : Text → Prop} (missing : (long_options sample_words).lookup name.toList = none) :
      ∀ text, (long_options sample_words).lookup name.toList = some text → P text := by
    intro text value
    cases missing.symm.trans value
  have address : documented.address_from_string "10.0.0.1" = .ok 167772161 := by decide +kernel
  refine ⟨absent "srcip" (by decide),fun text value => ?_,?_,absent "seq" (by decide),absent "ack" (by decide),
    absent "win" (by decide),absent "hlen" (by decide)⟩
  · have given : (long_options sample_words).lookup "dstip".toList = some "10.0.0.1".toList := by decide
    obtain rfl := Option.some.inj (given.symm.trans value)
    exact ⟨167772161,32,.address (by decide) address,by decide,by decide⟩
  · intro o
    cases o with
    | sport => exact absent "sport" (by decide)
    | dport => exact absent "dport" (by decide)

/-- A SYN to the address, before the watcher. -/
theorem frames_as_written_line : ∃ main labels s,
    RulesFileLoader.start documented one_line (RulesCollection.new (fun _ => documented_options) 0) 0 = .ok main ∧
    Runs.Run (step documented 1) (fun _ _ => True) (receiver main 0) labels (.running s) ∧
    (∀ p, (labels.filterMap view).flatMap (Daemon.packets_of p) = frame_packets [(syn_frame,60)] p) ∧
    (∀ c ∈ s.threads, ∀ packet len, (check_packet packet c len).2 = true ↔
        Reported documented (fun p => file_options documented documented_options p one_line) packet) ∧
      ∀ frames, (∀ p, (labels.filterMap view).flatMap (Daemon.packets_of p) = frame_packets frames p) →
        ∀ p c k, Daemon.total s p c k =
          (frames.map (brought documented (fun p => file_options documented documented_options p one_line) p k c)).sum := by
  have tokenized : ∀ line ∈ getlines "TCP --dstip 10.0.0.1 --pps-th 100p", ∃ tokens, tokenize documented ' ' line = .ok tokens := by
    intro line member
    rw [one_line_tokenized.1,List.mem_singleton] at member
    exact member ▸ ⟨_,one_line_tokenized.2⟩
  obtain ⟨main,loaded⟩ := (start_ok_iff documented (fun _ => documented_options) one_line 0 0).mpr
    fun text is_text => RulesFile.content.inj is_text ▸ tokenized
  obtain ⟨s,reached⟩ : ∃ s, Runs.runFrom (step documented 1) (receiver main 0)
      [.open_ring 1,.packet 0 .TCP (read_packet syn_frame 60 .TCP),.watcher 2,.daemon (Daemon.tick 3)] = some (.running s) :=
    ⟨_,rfl⟩
  have run := Runs.Run.of_runFrom_free (fun _ _ _ => trivial) reached
  refine ⟨main,_,s,loaded,run,?_,frames_as_written one_line_written loaded run ?_⟩
  · intro p
    cases p <;> rfl
  · intro a member
    simp only [view,List.filterMap_cons,List.filterMap_nil,List.mem_cons,List.not_mem_nil,or_false] at member
    rcases member with rfl | rfl <;> trivial

end Process

end DdosDetector
