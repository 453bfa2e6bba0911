import DdosDetector.Destinations
import DdosDetector.Equality
import DdosDetector.Reload
import DdosDetector.Sharding
import DdosDetector.Simulations

/-!
How `main` brings the program up: the rules file is loaded, the rings are opened one after
the other, each with a copy of the rules and a thread that checks packets from then on, and
the watcher is started last. What the program does from its first ring on is a run of the
daemon in which all threads start at once.
-/
namespace DdosDetector

/-- The collection that `main` makes, with the parse options of the three protocols. -/
def RulesCollection.new (opts : Proto → options_description) (now : time_point) : RulesCollection :=
  ⟨⟨[],opts .TCP,now⟩,⟨[],opts .UDP,now⟩,⟨[],opts .ICMP,now⟩,now⟩

/-- `RulesFileLoader::start`, up to the signal that it waits for. -/
def RulesFileLoader.start (platform : Platform) (file : RulesFile) (collect : RulesCollection) (now : time_point) :
    Except Exn RulesCollection :=
  reload_config platform file collect now

/-- `main` after the rules are loaded: in `NetmapReceiver::start`, which opens the rings;
    with the watcher and the others running; or past its return. -/
inductive Process
  | opening (main_collect main_collect_ : RulesCollection) (threads_coll : List RulesCollection)
  | running (daemon : Daemon)
  | returned

namespace Process

/-- The next ring is opened and its thread started, or cannot be opened; a thread that has
    been started checks a packet; the watcher is started; the daemon takes a step. -/
inductive Label
  | open_ring (now : time_point)
  | refuse
  | packet (i : Nat) (p : Proto) (packet : Packet (Header p))
  | watcher (now : time_point)
  | daemon (a : DdosDetector.Label)

/-- `NetmapReceiver`, before it opens a ring. -/
def receiver (main_collect : RulesCollection) (now : time_point) : Process :=
  .opening main_collect (main_collect.copy false now) []

def step (platform : Platform) (num_rings : Nat) : Label → Process → Option Process
  | .open_ring now, .opening main_collect main_collect_ threads_coll =>
    if threads_coll.length < num_rings then
      some (.opening main_collect main_collect_ (threads_coll ++ [main_collect_.copy false now]))
    else none
  | .refuse, .opening _ _ threads_coll => if threads_coll.length < num_rings then some .returned else none
  | .packet i p packet, .opening main_collect main_collect_ threads_coll =>
    threads_coll[i]?.map fun c =>
      .opening main_collect main_collect_ (threads_coll.set i (c.set_list p ((c.list p).check_list packet).1))
  | .watcher now, .opening main_collect _ threads_coll =>
    if threads_coll.length = num_rings then some (.running (Daemon.start main_collect threads_coll now)) else none
  | .daemon a, .running daemon => (daemon.step platform a).map .running
  | _, _ => none

/-- The step of the daemon that a step of the process is. -/
def view : Label → Option DdosDetector.Label
  | .packet i p packet => some (.packet i p packet)
  | .daemon a => some a
  | _ => none

/-! ### The start as a start of all threads at once -/

/-- A copy of a collection has its rules, with all that they hold. -/
def Copied (main c : RulesCollection) : Prop := ∀ p, c.list p = main.list p

theorem copied_copy (c : RulesCollection) (now : time_point) : Copied c (c.copy false now) := by
  intro p
  cases p <;> rfl

theorem Copied.trans {a b c : RulesCollection} (copied : Copied a b) (again : Copied b c) : Copied a c :=
  fun p => (again p).trans (copied p)

/-- The daemon with some of its threads further on. -/
def ahead (main : RulesCollection) (fresh threads : List RulesCollection) (begun : time_point) : Daemon :=
  { Daemon.start main fresh begun with threads := threads }

/-- What has happened so far is a run of the daemon from copies of main, whatever rings are
    still to be opened. -/
def Booted (platform : Platform) (num_rings : Nat) (main : RulesCollection) (labels : List Label) : Process → Prop
  | .opening main_collect main_collect_ threads_coll => main_collect = main ∧ Copied main main_collect_ ∧
    ∃ fresh, fresh.length = threads_coll.length ∧ (∀ c ∈ fresh, Copied main c) ∧ ∀ rest begun,
      Runs.Run (Daemon.step platform) (fun _ _ => True) (Daemon.start main (fresh ++ rest) begun)
        (labels.filterMap view) (ahead main (fresh ++ rest) (threads_coll ++ rest) begun)
  | .running daemon => ∃ fresh begun, fresh.length = num_rings ∧ (∀ c ∈ fresh, Copied main c) ∧
      Runs.Run (Daemon.step platform) (fun _ _ => True) (Daemon.start main fresh begun)
        (labels.filterMap view) daemon
  | .returned => True

theorem booted_step {platform : Platform} {num_rings : Nat} {main : RulesCollection} {labels : List Label} {a : Label}
    {s s' : Process} (booted : Booted platform num_rings main labels s) (taken : step platform num_rings a s = some s') :
    Booted platform num_rings main (labels ++ [a]) s' := by
  cases s with
  | opening main_collect main_collect_ threads_coll =>
    obtain ⟨rfl,copy,fresh,size,copied,run⟩ := booted
    cases a with
    | open_ring now =>
      simp only [step] at taken
      split_ifs at taken
      obtain rfl := Option.some.inj taken
      have again : Copied main_collect (main_collect_.copy false now) := copy.trans (copied_copy main_collect_ now)
      refine ⟨rfl,copy,fresh ++ [main_collect_.copy false now],by simp [size],?_,fun rest begun => ?_⟩
      · intro c member
        rw [List.mem_append,List.mem_singleton] at member
        rcases member with earlier | rfl
        · exact copied c earlier
        · exact again
      · have unseen : [Label.open_ring now].filterMap view = [] := rfl
        rw [List.filterMap_append,unseen,List.append_nil,List.append_assoc,List.append_assoc]
        exact run ([main_collect_.copy false now] ++ rest) begun
    | refuse =>
      simp only [step] at taken
      split_ifs at taken
      obtain rfl := Option.some.inj taken
      trivial
    | packet i p packet =>
      simp only [step,Option.map_eq_some_iff] at taken
      obtain ⟨c,thread,rfl⟩ := taken
      refine ⟨rfl,copy,fresh,by simpa using size,copied,fun rest begun => ?_⟩
      rw [List.filterMap_append]
      refine (run rest begun).snoc trivial ?_
      have inside := (List.getElem?_eq_some_iff.mp thread).1
      have found : (threads_coll ++ rest)[i]? = some c := (List.getElem?_append_left inside).trans thread
      have running : (Daemon.start main_collect (fresh ++ rest) begun).pc ≠ .terminated := by
        unfold Daemon.start
        split_ifs <;> simp
      simp only [ahead,Daemon.step,running,↓reduceIte,found,Option.map_some,List.set_append_left _ _ inside]
    | watcher now =>
      simp only [step] at taken
      split_ifs at taken with all
      obtain rfl := Option.some.inj taken
      refine ⟨fresh,now,size.trans all,copied,?_⟩
      have whole := run [] now
      rw [List.append_nil,List.append_nil] at whole
      have started : ahead main_collect fresh threads_coll now = Daemon.start main_collect threads_coll now := by
        simp only [ahead,Daemon.start,size]
      have unseen : [Label.watcher now].filterMap view = [] := rfl
      rw [List.filterMap_append,unseen,List.append_nil,← started]
      exact whole
    | daemon a => cases taken
  | running daemon =>
    obtain ⟨fresh,begun,size,copied,run⟩ := booted
    cases a with
    | daemon a =>
      simp only [step,Option.map_eq_some_iff] at taken
      obtain ⟨daemon',moved,rfl⟩ := taken
      refine ⟨fresh,begun,size,copied,?_⟩
      rw [List.filterMap_append]
      exact run.snoc trivial moved
    | open_ring | refuse | packet | watcher => cases taken
  | returned => cases a <;> cases taken

theorem booted_receiver (platform : Platform) (num_rings : Nat) (main : RulesCollection) (now : time_point) :
    Booted platform num_rings main [] (receiver main now) := by
  refine ⟨rfl,copied_copy main now,[],rfl,?_,fun _ _ => .nil⟩
  intro c member
  cases member

theorem booted_run {platform : Platform} {num_rings : Nat} {main : RulesCollection} {now : time_point}
    {labels : List Label} {s : Process}
    (run : Runs.Run (step platform num_rings) (fun _ _ => True) (receiver main now) labels s) :
    Booted platform num_rings main labels s :=
  run.invariant_labels (booted_receiver platform num_rings main now) fun _ _ _ _ booted _ taken => booted_step booted taken

/-! ### What the daemon starts from -/

/-- The rules that the file holds are loaded, unused. -/
structure Loaded (platform : Platform) (opts : Proto → options_description) (file : RulesFile) (main : RulesCollection) :
    Prop where
  rules : ∀ p, (main.list p).rules_ = RulesFileLoader.loaded_rules platform (opts p) p file
  unused : ∀ p, ∀ r ∈ (main.list p).rules_, Unused r.toBaseRule

theorem list_new (opts : Proto → options_description) (now : time_point) (p : Proto) :
    (RulesCollection.new opts now).list p = ⟨[],opts p,now⟩ := by
  cases p <;> rfl

theorem loaded_unused {platform : Platform} {opt : options_description} {p : Proto} {file : RulesFile} {r : Rule (Fields p)}
    (member : r ∈ RulesFileLoader.loaded_rules platform opt p file) : Unused r.toBaseRule := by
  obtain ⟨_,_,tokens,parsed⟩ : Parsed r := RulesFileLoader.loaded_rules_parsed member
  exact parse_unused parsed

theorem loaded_start {platform : Platform} {opts : Proto → options_description} {file : RulesFile}
    {made now : time_point} {main : RulesCollection}
    (loaded : RulesFileLoader.start platform file (RulesCollection.new opts made) now = .ok main) :
    Loaded platform opts file main := by
  have rules (p : Proto) : (main.list p).rules_ = RulesFileLoader.loaded_rules platform (opts p) p file := by
    cases file with
    | missing =>
      obtain rfl := Except.ok.inj loaded
      rw [list_new]
      rfl
    | unreadable =>
      obtain rfl := Except.ok.inj loaded
      rw [RulesCollection.list_assign,RulesList.rules_assign,RulesCollection.list_copy_true]
      rfl
    | content text =>
      simp only [RulesFileLoader.start,RulesFileLoader.reload_config] at loaded
      cases read : RulesFileLoader.load_file platform (.content text) ((RulesCollection.new opts made).copy true now) with
      | error error =>
        rw [read] at loaded
        cases loaded
      | ok buff =>
        rw [read] at loaded
        obtain rfl := Except.ok.inj loaded
        rw [RulesCollection.list_assign,RulesList.rules_assign,RulesFileLoader.load_file_spec read p,
          RulesCollection.list_copy_true,list_new]
        rfl
  exact ⟨rules,fun p r member => loaded_unused (rules p ▸ member)⟩

/-- The rules file loads exactly if every line of the file can be tokenized. -/
theorem start_ok_iff (platform : Platform) (opts : Proto → options_description) (file : RulesFile) (made now : time_point) :
    (∃ main, RulesFileLoader.start platform file (RulesCollection.new opts made) now = .ok main) ↔
      ∀ text, file = .content text → ∀ line ∈ getlines text, ∃ tokens, tokenize platform ' ' line = .ok tokens := by
  constructor
  · rintro ⟨main,loaded⟩ text rfl line member
    by_contra broken
    obtain ⟨error,thrown⟩ := RulesFileLoader.reload_config_error member broken (RulesCollection.new opts made) now
    cases thrown.symm.trans loaded
  · intro readable
    cases file with
    | missing => exact ⟨_,rfl⟩
    | unreadable => exact ⟨_,rfl⟩
    | content text =>
      obtain ⟨main,loaded,_⟩ := RulesFileLoader.reload_content (readable text rfl) (RulesCollection.new opts made) now
      exact ⟨main,loaded⟩

/-- What the results on runs of the daemon ask of the state that it starts from. -/
structure Fresh (s : Daemon) : Prop where
  at_first : s.pc = s.visit 0
  in_sync : s.InSync
  even : ∀ p, (s.prev.list p).rules_ = (s.main.list p).rules_
  cleared : Daemon.Cleared s.main ∧ ∀ c ∈ s.threads, Daemon.Cleared c
  uncounted : Daemon.Uncounted s.main ∧ ∀ c ∈ s.threads, Daemon.Uncounted c
  stored : Daemon.StoredOf Daemon.FromText s

theorem Loaded.cleared {platform : Platform} {opts : Proto → options_description} {file : RulesFile}
    {main c : RulesCollection} (loaded : Loaded platform opts file main) (copied : Copied main c) : Daemon.Cleared c := by
  intro p r member
  rw [copied p] at member
  rw [(loaded.unused p r member).destinations]

theorem unused_count {F H : Type} [ProtoRule F H] {l : RulesList F} (unused : ∀ r ∈ l.rules_, Unused r.toBaseRule)
    (counter : Counter) (k : Nat) : l.count_at counter k = 0 := by
  cases found : l.rules_[k]? with
  | none => simp [RulesList.count_at,found]
  | some r =>
    have fresh := unused r (List.mem_of_getElem? found)
    rw [RulesList.count_at_some found]
    cases counter with
    | packets => exact fresh.packets
    | bytes => exact fresh.bytes

theorem Loaded.uncounted {platform : Platform} {opts : Proto → options_description} {file : RulesFile}
    {main c : RulesCollection} (loaded : Loaded platform opts file main) (copied : Copied main c) : Daemon.Uncounted c := by
  intro p counter k
  rw [copied p]
  exact unused_count (loaded.unused p) counter k

theorem Loaded.made {platform : Platform} {opts : Proto → options_description} {file : RulesFile}
    {main c : RulesCollection} (loaded : Loaded platform opts file main) (copied : Copied main c) :
    c.MadeOf Daemon.FromText := by
  intro p r member
  rw [copied p,loaded.rules p] at member
  exact ⟨r,RulesFileLoader.loaded_rules_parsed member,rfl⟩

theorem Loaded.fresh {platform : Platform} {opts : Proto → options_description} {file : RulesFile}
    {main : RulesCollection} (loaded : Loaded platform opts file main) {threads : List RulesCollection}
    (copied : ∀ c ∈ threads, Copied main c) (begun : time_point) : Fresh (Daemon.start main threads begun) where
  at_first := rfl
  in_sync j c found p := by
    have copy : c.list p = main.list p := copied c (List.mem_of_getElem? found) p
    rw [copy]
    exact RulesList.alike_self (main.list p)
  even := Daemon.start_even main threads begun
  cleared := ⟨loaded.cleared fun _ => rfl,fun c member => loaded.cleared (copied c member)⟩
  uncounted := ⟨loaded.uncounted fun _ => rfl,fun c member => loaded.uncounted (copied c member)⟩
  stored := Daemon.storedOf_start begun (loaded.made fun _ => rfl) fun c member => loaded.made (copied c member)

/-- Every run of the program is a run of the daemon from copies of main that are in sync
    with it and unused, with the packets that came while the rings were being opened first;
    and main holds the rules of the file. So what is shown of all runs of the daemon from
    such a state holds of the program. -/
theorem runs_like_daemon {platform : Platform} {opts : Proto → options_description} {file : RulesFile}
    {made now : time_point} {main : RulesCollection}
    (loaded : RulesFileLoader.start platform file (RulesCollection.new opts made) now = .ok main) {num_rings : Nat}
    {copied : time_point} {labels : List Label} {s : Daemon}
    (run : Runs.Run (step platform num_rings) (fun _ _ => True) (receiver main copied) labels (.running s)) :
    ∃ init, Fresh init ∧ init.threads.length = num_rings ∧
      (∀ p, (init.main.list p).rules_ = RulesFileLoader.loaded_rules platform (opts p) p file) ∧
      Runs.Run (Daemon.step platform) (fun _ _ => True) init (labels.filterMap view) s := by
  obtain ⟨fresh,begun,size,copies,daemon_run⟩ := booted_run run
  have from_file := loaded_start loaded
  exact ⟨Daemon.start main fresh begun,from_file.fresh copies begun,size,from_file.rules,daemon_run⟩

/-- A rules file with one rule, which loads. -/
def one_rule : RulesFile := .content "TCP --dstip 10.0.0.1 --pps-th 100p"

theorem one_rule_tokenized (text : Text) (is_text : one_rule = .content text) :
    ∀ line ∈ getlines text, ∃ tokens, tokenize documented ' ' line = .ok tokens := by
  obtain rfl := RulesFile.content.inj is_text
  intro line member
  have lines : getlines "TCP --dstip 10.0.0.1 --pps-th 100p" = ["TCP --dstip 10.0.0.1 --pps-th 100p".toList] := by
    decide +kernel
  rw [lines,List.mem_singleton] at member
  exact member ▸ ⟨("TCP" : Text) :: sample_words,by decide +kernel⟩

/-- A packet for the rule comes before the watcher. -/
theorem runs_like_daemon_early : ∃ main labels s, RulesFileLoader.start documented one_rule
      (RulesCollection.new (fun _ => documented_options) 0) 0 = .ok main ∧
    Runs.Run (step documented 1) (fun _ _ => True) (receiver main 0) labels (.running s) ∧
    ∃ init, Fresh init ∧ init.threads.length = 1 ∧
      (∀ p, (init.main.list p).rules_ = RulesFileLoader.loaded_rules documented documented_options p one_rule) ∧
      Runs.Run (Daemon.step documented) (fun _ _ => True) init (labels.filterMap view) s := by
  obtain ⟨main,loaded⟩ := (start_ok_iff documented (fun _ => documented_options) one_rule 0 0).mpr one_rule_tokenized
  obtain ⟨s,reached⟩ : ∃ s, Runs.runFrom (step documented 1) (receiver main 0)
      [.open_ring 1,.packet 0 .TCP Daemon.sample_packet,.watcher 2,.daemon (Daemon.tick 3)] = some (.running s) := ⟨_,rfl⟩
  have run := Runs.Run.of_runFrom_free (fun _ _ _ => trivial) reached
  exact ⟨main,_,s,loaded,run,runs_like_daemon loaded run⟩

/-- Until the first edit or reload, the threads are in sync with main, which has the rules
    of the file, and the counters are together what one list of them counts. -/
theorem counts_from_start {platform : Platform} {opts : Proto → options_description} {file : RulesFile}
    {made now copied : time_point} {main : RulesCollection}
    (loaded : RulesFileLoader.start platform file (RulesCollection.new opts made) now = .ok main) {num_rings : Nat}
    {labels : List Label} {s : Daemon}
    (run : Runs.Run (step platform num_rings) (fun _ _ => True) (receiver main copied) labels (.running s))
    (receives : ∀ a ∈ labels.filterMap view, Daemon.Receives a) :
    s.pc ≠ .terminated ∧ Daemon.InSync s ∧ ∀ p,
      (s.main.list p).entered = (RulesFileLoader.loaded_rules platform (opts p) p file).map Rule.entered ∧
      ∀ c k, Daemon.total s p c k =
        ((⟨RulesFileLoader.loaded_rules platform (opts p) p file,opts p,now⟩ : RulesList (Fields p)).feed
          ((labels.filterMap view).flatMap (Daemon.packets_of p))).count_at c k := by
  obtain ⟨copies,begun,_,all_copied,daemon_run⟩ := booted_run run
  have from_file := loaded_start loaded
  have fresh := from_file.fresh all_copied begun
  have rules : ∀ p, ((Daemon.start main copies begun).main.list p).rules_ =
      RulesFileLoader.loaded_rules platform (opts p) p file := from_file.rules
  generalize Daemon.start main copies begun = init at fresh rules daemon_run
  have first : Daemon.Sharded init [] init :=
    ⟨fresh.in_sync,fresh.at_first ▸ Daemon.visit_not_copy init 0,fresh.at_first ▸ Daemon.visit_running init 0,
      fun _ => rfl,fun p c k => by simp⟩
  have sharded : Daemon.Sharded init (labels.filterMap view) s :=
    (daemon_run.restrict receives).invariant_labels first fun _ _ _ _ sharded receives taken =>
      Daemon.sharded_step (Daemon.stepped taken) receives sharded
  refine ⟨sharded.running,sharded.sync,fun p => ⟨?_,fun c k => ?_⟩⟩
  · rw [sharded.main p,RulesList.entered,rules p]
  · have unused (l : RulesList (Fields p)) (same : l.rules_ = (init.main.list p).rules_) : l.count_at c k = 0 := by
      rw [RulesList.count_at,same]
      exact fresh.uncounted.1 p c k
    have growth : (init.main.list p).growth c k =
        (⟨RulesFileLoader.loaded_rules platform (opts p) p file,opts p,now⟩ : RulesList (Fields p)).growth c k :=
      funext (RulesList.growth_entered (by rw [RulesList.entered,RulesList.entered,rules p]) c k)
    have nothing : Daemon.total init p c k = 0 := by
      have threads : threads_count init.threads p c k = 0 := by
        rw [threads_count]
        refine List.sum_eq_zero fun n member => ?_
        obtain ⟨thread,thread_member,rfl⟩ := List.mem_map.mp member
        exact fresh.uncounted.2 thread thread_member p c k
      rw [Daemon.total,threads,fresh.uncounted.1 p c k]
      rfl
    rw [sharded.totals,nothing,RulesList.count_at_feed,unused _ (rules p).symm,growth]

/-- The rules file loads exactly if every line of it can be tokenized, and then, until the
    first edit or reload, no merge throws, and the counters of main and those of the threads
    are together what one list of the file's rules counts for the packets, from the first
    that the first ring has received. -/
theorem counted_from_start (platform : Platform) (opts : Proto → options_description) (file : RulesFile)
    (made now copied : time_point) (num_rings : Nat) :
    ((∃ main, RulesFileLoader.start platform file (RulesCollection.new opts made) now = .ok main) ↔
      ∀ text, file = .content text → ∀ line ∈ getlines text, ∃ tokens, tokenize platform ' ' line = .ok tokens) ∧
    ∀ main, RulesFileLoader.start platform file (RulesCollection.new opts made) now = .ok main →
      ∀ (labels : List Label) (s : Daemon),
        Runs.Run (step platform num_rings) (fun _ _ => True) (receiver main copied) labels (.running s) →
        (∀ a ∈ labels.filterMap view, Daemon.Receives a) →
        s.pc ≠ .terminated ∧ ∀ p,
          (s.main.list p).entered = (RulesFileLoader.loaded_rules platform (opts p) p file).map Rule.entered ∧
          ∀ c k, Daemon.total s p c k =
            ((⟨RulesFileLoader.loaded_rules platform (opts p) p file,opts p,now⟩ : RulesList (Fields p)).feed
              ((labels.filterMap view).flatMap (Daemon.packets_of p))).count_at c k := by
  refine ⟨start_ok_iff platform opts file made now,fun main loaded labels s run receives => ?_⟩
  obtain ⟨running,_,counts⟩ := counts_from_start loaded run receives
  exact ⟨running,counts⟩

/-- A packet for the rule of the file before and after the start of the watcher. -/
theorem counted_from_start_rule : ∃ main labels s,
    RulesFileLoader.start documented one_rule (RulesCollection.new (fun _ => documented_options) 0) 0 = .ok main ∧
    Runs.Run (step documented 1) (fun _ _ => True) (receiver main 0) labels (.running s) ∧
    s.pc ≠ .terminated ∧ ∀ p,
      (s.main.list p).entered =
        (RulesFileLoader.loaded_rules documented documented_options p one_rule).map Rule.entered ∧
      ∀ c k, Daemon.total s p c k =
        ((⟨RulesFileLoader.loaded_rules documented documented_options p one_rule,documented_options,0⟩ :
            RulesList (Fields p)).feed ((labels.filterMap view).flatMap (Daemon.packets_of p))).count_at c k := by
  obtain ⟨loads,counted⟩ := counted_from_start documented (fun _ => documented_options) one_rule 0 0 0 1
  obtain ⟨main,loaded⟩ := loads.mpr one_rule_tokenized
  obtain ⟨s,reached⟩ : ∃ s, Runs.runFrom (step documented 1) (receiver main 0)
      [.open_ring 1,.packet 0 .TCP Daemon.sample_packet,.watcher 2,.daemon (.packet 0 .TCP Daemon.sample_packet),
        .daemon (Daemon.tick 3)] = some (.running s) := ⟨_,rfl⟩
  have run := Runs.Run.of_runFrom_free (fun _ _ _ => trivial) reached
  refine ⟨main,_,s,loaded,run,counted main loaded _ s run ?_⟩
  intro a member
  simp only [view,List.filterMap_cons,List.filterMap_nil,List.mem_cons,List.not_mem_nil,or_false] at member
  rcases member with rfl | rfl | rfl <;> trivial

end Process
end DdosDetector
