import DdosDetector.Console
import DdosDetector.Equality
import DdosDetector.RuleNumbers
import DdosDetector.Simulations

/-!
The control server: any number of console sessions on one `io_service`, which two threads
run, beside the rest of the program. A read that completes a command edits one list at
most, and in one step; `show rules` reads the lists one by one; `reload rules` raises the
signal that the rules file loader waits for.
-/
namespace DdosDetector

/-- What a session does: it is not there yet, waits for its client, has shown the lists
    before `p` as `cnt`, has been ended by an exception, or has lost its client. -/
inductive Stage
  | absent
  | reading
  | showing (p : Proto) (cnt : Text)
  | ended
  | hung_up
deriving DecidableEq

/-- A session: the text gathered so far, the commands handed to `parse` and what has been
    written to the client. -/
structure Session where
  cmd_ : Text := []
  stage : Stage := .absent
  commands : List Text := []
  written : List Text := []

/-- The daemon, its sessions, and how many signals to reload have not been handled. -/
structure Server where
  daemon : Daemon
  sessions : Nat → Session
  signals : Nat

namespace Server
open ControlSession (c_str bad_symbols_ bad_symbol ends_session)

def cli_ : Text := "ddoscontrold> "

/-- The command shows the rules. -/
def shows_rules (platform : Platform) (cmd_ : Text) : Bool :=
  match tokenize platform ' ' cmd_ with
  | .ok t_cmd => t_cmd = [("show" : Text),"rules"]
  | .error _ => false

/-- What `get_rules` adds for a list. -/
def shown (terminal : Terminal) (c : RulesCollection) : Proto → Text
  | .TCP => "TCP rules (num, rule, counter):\n".toList ++ c.tcp.get_rules terminal
  | .UDP => "UDP rules (num, rule, counter):\n".toList ++ c.udp.get_rules terminal
  | .ICMP => "ICMP rules (num, rule, counter):\n".toList ++ c.icmp.get_rules terminal

/-- What the handler of `do_read` does with a read: the session afterwards, the rules, and
    whether the signal is raised. Nothing looks at `cmd_` once the command is taken. -/
def handle (platform : Platform) (terminal : Terminal) (main : RulesCollection) (session : Session) (data_ : Text) :
    Session × RulesCollection × Bool :=
  let cmd_ := session.cmd_ ++ c_str data_
  if '\n' ∈ cmd_ then
    let cmd_ := cmd_.filter (· ∉ bad_symbols_)
    let taken := { session with cmd_ := [], commands := session.commands ++ [cmd_] }
    if shows_rules platform cmd_ then ({ taken with stage := .showing .TCP [] },main,false)
    else
      match ControlSession.parse platform terminal main cmd_ with
      | .error _ => ({ taken with stage := .ended },main,false)
      | .ok outcome => ({ taken with written := session.written ++ outcome.written ++ [cli_] },outcome.collect,outcome.raised)
  else ({ session with cmd_ := cmd_, written := session.written ++ [cli_] },main,false)

/-- The next list of `show rules`; after the last one all is written. -/
def show_list (terminal : Terminal) (main : RulesCollection) (session : Session) (p : Proto) (cnt : Text) : Session :=
  match p.next with
  | some q => { session with stage := .showing q (cnt ++ shown terminal main p) }
  | none => { session with stage := .reading, written := session.written ++ [cnt ++ shown terminal main p,cli_] }

/-- A step of the rest of the program, where a reload handles a signal; a signal from
    outside; a client that connects, sends, or leaves; a session that shows a list. -/
inductive Label
  | other (a : DdosDetector.Label)
  | signal
  | accept (k : Nat)
  | read (k : Nat) (data_ : Text)
  | show_rules (k : Nat)
  | hang_up (k : Nat)

/-- The step is one of the receivers, the watcher or the loader. -/
def Own : DdosDetector.Label → Prop
  | .console _ _ => False
  | _ => True

instance : DecidablePred Own
  | .console _ _ => isFalse id
  | .packet _ _ _ | .reload _ _ | .load _ | .watch _ _ => isTrue trivial

def is_reload : DdosDetector.Label → Bool
  | .reload _ _ => true
  | _ => false

def step (platform : Platform) (terminal : Terminal) (a : Label) (s : Server) : Option Server :=
  if s.daemon.pc = .terminated then none
  else
    match a with
    | .other a =>
      if Own a ∧ (is_reload a → 0 < s.signals) then
        (Daemon.step platform a s.daemon).map fun daemon =>
          { s with daemon := daemon, signals := if is_reload a then s.signals - 1 else s.signals }
      else none
    | .signal => some { s with signals := s.signals + 1 }
    | .accept k =>
      if (s.sessions k).stage = .absent then
        some { s with sessions := Function.update s.sessions k { s.sessions k with stage := .reading, written := [cli_] } }
      else none
    | .read k data_ =>
      if (s.sessions k).stage = .reading then
        let (session,main,raised) := handle platform terminal s.daemon.main (s.sessions k) data_
        some { daemon := { s.daemon with main := main }
               sessions := Function.update s.sessions k session
               signals := if raised then s.signals + 1 else s.signals }
      else none
    | .show_rules k =>
      match (s.sessions k).stage with
      | .showing p cnt =>
        some { s with sessions := Function.update s.sessions k (show_list terminal s.daemon.main (s.sessions k) p cnt) }
      | _ => none
    | .hang_up k =>
      if (s.sessions k).stage = .reading then
        some { s with sessions := Function.update s.sessions k { s.sessions k with stage := .hung_up } }
      else none

/-- The server before its first client. -/
def start (daemon : Daemon) : Server := ⟨daemon,fun _ => {},0⟩

variable {platform : Platform} {terminal : Terminal} {a : Label} {s s' : Server} {k : Nat}

inductive Stepped (platform : Platform) (terminal : Terminal) (s : Server) : Label → Server → Prop
  | other {a : DdosDetector.Label} {daemon : Daemon} (own : Own a) (signalled : is_reload a → 0 < s.signals)
      (moved : Daemon.step platform a s.daemon = some daemon) :
      Stepped platform terminal s (.other a)
        { s with daemon := daemon, signals := if is_reload a then s.signals - 1 else s.signals }
  | signal : Stepped platform terminal s .signal { s with signals := s.signals + 1 }
  | accept {k : Nat} (absent : (s.sessions k).stage = .absent) :
      Stepped platform terminal s (.accept k)
        { s with sessions := Function.update s.sessions k { s.sessions k with stage := .reading, written := [cli_] } }
  | read {k : Nat} {data_ : Text} (running : s.daemon.pc ≠ .terminated) (reading : (s.sessions k).stage = .reading) :
      Stepped platform terminal s (.read k data_)
        { daemon := { s.daemon with main := (handle platform terminal s.daemon.main (s.sessions k) data_).2.1 }
          sessions := Function.update s.sessions k (handle platform terminal s.daemon.main (s.sessions k) data_).1
          signals := if (handle platform terminal s.daemon.main (s.sessions k) data_).2.2 then s.signals + 1 else s.signals }
  | show_rules {k : Nat} {p : Proto} {cnt : Text} (showing : (s.sessions k).stage = .showing p cnt) :
      Stepped platform terminal s (.show_rules k)
        { s with sessions := Function.update s.sessions k (show_list terminal s.daemon.main (s.sessions k) p cnt) }
  | hang_up {k : Nat} (reading : (s.sessions k).stage = .reading) :
      Stepped platform terminal s (.hang_up k)
        { s with sessions := Function.update s.sessions k { s.sessions k with stage := .hung_up } }

theorem stepped (taken : step platform terminal a s = some s') : Stepped platform terminal s a s' := by
  unfold step at taken
  by_cases ended : s.daemon.pc = .terminated
  · rw [if_pos ended] at taken
    cases taken
  rw [if_neg ended] at taken
  cases a with
  | other a =>
    by_cases allowed : Own a ∧ (is_reload a → 0 < s.signals)
    · simp only [allowed.1,true_and,if_pos allowed.2] at taken
      obtain ⟨daemon,moved,rfl⟩ := Option.map_eq_some_iff.mp taken
      exact .other allowed.1 allowed.2 moved
    · simp only [if_neg allowed] at taken
      cases taken
  | signal => exact Option.some.inj taken ▸ .signal
  | accept k =>
    by_cases absent : (s.sessions k).stage = .absent
    · simp only [absent,↓reduceIte,Option.some.injEq] at taken
      exact taken ▸ .accept absent
    · simp only [absent,↓reduceIte] at taken
      cases taken
  | read k data_ =>
    by_cases reading : (s.sessions k).stage = .reading
    · simp only [if_pos reading,Option.some.injEq] at taken
      exact taken ▸ .read ended reading
    · simp only [if_neg reading] at taken
      cases taken
  | show_rules k =>
    cases stage : (s.sessions k).stage with
    | showing p cnt =>
      simp only [stage,Option.some.injEq] at taken
      exact taken ▸ .show_rules stage
    | absent => simp [stage] at taken
    | reading => simp [stage] at taken
    | ended => simp [stage] at taken
    | hung_up => simp [stage] at taken
  | hang_up k =>
    by_cases reading : (s.sessions k).stage = .reading
    · simp only [reading,↓reduceIte,Option.some.injEq] at taken
      exact taken ▸ .hang_up reading
    · simp only [reading,↓reduceIte] at taken
      cases taken

/-! ### What a read does to the rules -/

/-- A read changes the rules by one edit of the console or not at all. -/
theorem handle_edits (main : RulesCollection) (session : Session) (data_ : Text) :
    (handle platform terminal main session data_).2.1 = main ∨
      ∃ (p : Proto) (e : Edit (Fields p)), ControlSession.MadeOfWords e ∧
        (handle platform terminal main session data_).2.1 = main.console platform p e := by
  simp only [handle]
  split_ifs with completes shows
  · exact .inl rfl
  · generalize (session.cmd_ ++ c_str data_).filter (fun c => decide (c ∉ bad_symbols_)) = cmd_
    cases parsed : ControlSession.parse platform terminal main cmd_ with
    | error thrown => exact .inl rfl
    | ok outcome => exact ControlSession.parse_edits parsed
  · exact .inl rfl

/-- The steps of the daemon that a step of the server amounts to. -/
inductive Amounts : Label → List DdosDetector.Label → Prop
  | other (a : DdosDetector.Label) : Amounts (.other a) [a]
  | edit (k : Nat) (data_ : Text) (p : Proto) (e : Edit (Fields p)) : Amounts (.read k data_) [.console p e]
  | no_edit (k : Nat) (data_ : Text) : Amounts (.read k data_) []
  | signal : Amounts .signal []
  | accept (k : Nat) : Amounts (.accept k) []
  | show_rules (k : Nat) : Amounts (.show_rules k) []
  | hang_up (k : Nat) : Amounts (.hang_up k) []

/-- One step of the server is one of the daemon or leaves it alone. -/
theorem server_step (moved : Stepped platform terminal s a s') :
    ∃ bs, Amounts a bs ∧ Runs.Run (Daemon.step platform) (fun _ b => Daemon.FromWords b) s.daemon bs s'.daemon := by
  cases moved with
  | @other a daemon own signalled moved =>
    have words : Daemon.FromWords a := by
      cases a with
      | console p e => exact absurd own id
      | _ => trivial
    exact ⟨[a],.other a,.snoc .nil words moved⟩
  | @read k data_ running reading =>
    rcases handle_edits s.daemon.main (s.sessions k) data_ with same | ⟨p,e,words,edited⟩
    · rw [same]
      exact ⟨[],.no_edit k data_,.nil⟩
    · rw [edited]
      refine ⟨[.console p e],.edit k data_ p e,.snoc .nil words ?_⟩
      simp [Daemon.step,running]
  | signal => exact ⟨[],.signal,.nil⟩
  | accept => exact ⟨[],.accept _,.nil⟩
  | show_rules => exact ⟨[],.show_rules _,.nil⟩
  | hang_up => exact ⟨[],.hang_up _,.nil⟩

/-! ### One session among others -/

/-- What a session knows of its client. -/
def reader (k : Nat) (s : Server) : Framing.Reader Char where
  pending := (s.sessions k).cmd_
  found := (s.sessions k).commands
  ended := (s.sessions k).stage = .ended

/-- What the client of a session sends with a read. -/
def Label.piece (k : Nat) : Label → Option Text
  | .read j data_ => if j = k then some (c_str data_) else none
  | _ => none

theorem not_exit_of_shows {cmd_ : Text} (shows : shows_rules platform cmd_ = true) : ends_session platform cmd_ = false := by
  unfold shows_rules at shows
  unfold ends_session
  cases tokenized : tokenize platform ' ' cmd_ with
  | error e => simp [tokenized] at shows
  | ok t_cmd =>
    simp only [tokenized,decide_eq_true_eq] at shows
    simp [shows]

/-- What a session does with a read does not depend on the rules. -/
theorem handle_take (main : RulesCollection) {session : Session} (reading : session.stage = .reading) (data_ : Text) :
    Framing.Reader.take '\n' bad_symbol (ends_session platform) (c_str data_) ⟨session.cmd_,session.commands,false⟩ =
      some ⟨(handle platform terminal main session data_).1.cmd_,(handle platform terminal main session data_).1.commands,
        (handle platform terminal main session data_).1.stage = .ended⟩ := by
  have dropped (c : Char) : decide (c ∈ bad_symbols_) = bad_symbol c := rfl
  simp only [Framing.Reader.take,handle,decide_not,dropped,Bool.false_eq_true,↓reduceIte]
  by_cases completes : '\n' ∈ session.cmd_ ++ c_str data_
  · simp only [if_pos completes]
    generalize (session.cmd_ ++ c_str data_).filter (fun c => !bad_symbol c) = cmd_
    cases shows : shows_rules platform cmd_ with
    | true => simp [not_exit_of_shows shows]
    | false =>
      have throws := ControlSession.parse_throws_iff platform terminal main cmd_
      cases parsed : ControlSession.parse platform terminal main cmd_ with
      | error thrown => simp [throws.mp ⟨thrown,parsed⟩]
      | ok outcome =>
        have goes_on : ends_session platform cmd_ = false := by
          by_contra ends
          obtain ⟨thrown,error⟩ := throws.mpr (by simpa using ends)
          cases parsed.symm.trans error
        simp [goes_on,reading]
  · simp only [if_neg completes]
    simp [reading]

theorem reader_update_ne {j : Nat} {session : Session} {sessions : Nat → Session} {daemon : Daemon} {signals : Nat}
    (other : j ≠ k) : reader k ⟨daemon,Function.update sessions j session,signals⟩ = reader k ⟨daemon,sessions,signals⟩ := by
  simp [reader,Function.update_of_ne (Ne.symm other)]

/-- A run of the server is, for each of its sessions, a run of a reader. -/
theorem reader_projection (k : Nat) : Runs.Projection (step platform terminal) (fun _ _ => True)
    (Framing.Reader.take '\n' bad_symbol (ends_session platform)) (fun _ _ => True) (reader k) (Label.piece k) where
  moves {a s s' piece} _ taken view := by
    refine ⟨trivial,?_⟩
    cases stepped taken with
    | @read j data_ running reading =>
      simp only [Label.piece] at view
      split_ifs at view with mine
      subst mine
      obtain rfl := Option.some.inj view
      have taken_piece := @handle_take platform terminal s.daemon.main _ reading data_
      simpa [reader,reading] using taken_piece
    | _ => cases view
  stays {a s s'} _ taken view := by
    cases stepped taken with
    | other => rfl
    | signal => rfl
    | @accept j absent =>
      by_cases mine : j = k
      · subst mine
        simp [reader,absent]
      · exact reader_update_ne mine
    | @read j data_ running reading =>
      simp only [Label.piece] at view
      split_ifs at view with mine
      exact reader_update_ne mine
    | @show_rules j p cnt showing =>
      by_cases mine : j = k
      · subst mine
        cases p <;> simp [reader,showing,show_list,Proto.next]
      · exact reader_update_ne mine
    | @hang_up j reading =>
      by_cases mine : j = k
      · subst mine
        simp [reader,reading]
      · exact reader_update_ne mine

/-- A session takes the commands that it would take alone: those of its own reads,
    whatever other clients, the rest of the program and the rules do in between. -/
theorem sessions_isolated (platform : Platform) (terminal : Terminal) {daemon : Daemon} {labels : List Label} {s : Server}
    (run : Runs.Run (step platform terminal) (fun _ _ => True) (start daemon) labels s) (k : Nat)
    (readings : List ControlSession.Reading)
    (sent : readings.map (fun reading => c_str reading.data_) = labels.filterMap (Label.piece k)) :
    (s.sessions k).commands = ControlSession.do_read platform terminal [] readings := by
  have found := Framing.Reader.found_eq_gather ((reader_projection k).run run)
  rw [ControlSession.do_read_eq_gather,sent]
  exact found

/-- Whatever the clients send in whatever sessions, the daemon does what it could do by
    itself: each read is at most one edit of the console, made in one step from words. So
    all rules, wherever they are kept, are what `parse` has made of some text. -/
theorem server_refines (platform : Platform) (terminal : Terminal) {daemon : Daemon}
    (made : Daemon.StoredOf Daemon.FromText daemon) {labels : List Label} {s : Server}
    (run : Runs.Run (step platform terminal) (fun _ _ => True) (start daemon) labels s) :
    (∃ parts, List.Forall₂ Amounts labels parts ∧
        Runs.Run (Daemon.step platform) (fun _ a => Daemon.FromWords a) daemon parts.flatten s.daemon) ∧
      Daemon.StoredOf Daemon.FromText s.daemon := by
  obtain ⟨parts,amounts,daemon_run⟩ : ∃ parts, List.Forall₂ Amounts labels parts ∧
      Runs.Run (Daemon.step platform) (fun _ a => Daemon.FromWords a) daemon parts.flatten s.daemon :=
    run.refines fun _ _ _ _ taken => server_step (stepped taken)
  refine ⟨⟨parts,amounts,daemon_run⟩,?_⟩
  exact daemon_run.invariant made fun _ _ _ made words taken =>
    Daemon.storedOf_step (Daemon.stepped taken) (Daemon.enters_fromText words) made

/-! ### Two clients -/

/-- A client adds a rule, in two reads; another deletes the first rule in between. -/
def two_clients : List Label :=
  [.accept 0,.accept 1,.read 0 "add rule TCP --dstip 10.0.0.1 ",.read 1 "del rule TCP 0\n",.read 0 "--pps-th 100p\n"]

theorem two_clients_run : ∃ s, Runs.Run (step documented ⟨[],fun _ _ => []⟩) (fun _ _ => True)
    (start Daemon.sample_daemon) two_clients s := by
  have reaches : (Runs.runFrom (step documented ⟨[],fun _ _ => []⟩) (start Daemon.sample_daemon) two_clients).isSome =
      true := by decide +kernel
  obtain ⟨s,reached⟩ := Option.isSome_iff_exists.mp reaches
  exact ⟨s,.of_runFrom_free (fun _ _ _ => trivial) reached⟩

theorem sample_storedOf : Daemon.StoredOf Daemon.FromText Daemon.sample_daemon := by
  have thread : Daemon.sample_daemon.threads[0]? = some (tcp_collection [sample_rule]) := rfl
  have made := sample_fromText.threads 0 _ thread
  exact Daemon.storedOf_start 0 made fun c member => List.mem_singleton.mp member ▸ made

theorem sessions_isolated_two : ∃ s, Runs.Run (step documented ⟨[],fun _ _ => []⟩) (fun _ _ => True)
      (start Daemon.sample_daemon) two_clients s ∧
    (s.sessions 0).commands = ControlSession.do_read documented ⟨[],fun _ _ => []⟩ []
      [⟨"add rule TCP --dstip 10.0.0.1 ",tcp_collection []⟩,⟨"--pps-th 100p\n",tcp_collection []⟩] := by
  obtain ⟨s,run⟩ := two_clients_run
  refine ⟨s,run,sessions_isolated documented _ run 0 _ ?_⟩
  simp only [two_clients,List.filterMap_cons,List.filterMap_nil,Label.piece,List.map_cons,List.map_nil,↓reduceIte,
    one_ne_zero]

theorem server_refines_two : ∃ s, Runs.Run (step documented ⟨[],fun _ _ => []⟩) (fun _ _ => True)
      (start Daemon.sample_daemon) two_clients s ∧ Daemon.StoredOf Daemon.FromText s.daemon := by
  obtain ⟨s,run⟩ := two_clients_run
  exact ⟨s,run,(server_refines documented _ sample_storedOf run).2⟩

end Server
end DdosDetector
