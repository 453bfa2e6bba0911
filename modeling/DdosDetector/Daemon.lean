import DdosDetector.Loader
import DdosDetector.Runs

/-!
The running program: the watcher, the receivers, the console and the rules file
loader, one list at a time. Every method of `RulesList` is one step; a method of
`RulesCollection` is a step for each of its lists, and between any two steps of
one party the others may take any number of theirs. What a party keeps to itself
(the copy that a reload fills, the snapshot of the watcher) is part of the state,
since steps of others fall between its halves.
-/
namespace DdosDetector

/-- Where the watcher is: comparing, copying or merging a list of thread `i`, with
    the two halves of a merge apart, or past the threads. -/
inductive Pc
  | compare (i : Nat) (p : Proto)
  | copy (i : Nat) (p : Proto)
  | stamp (i : Nat) (p : Proto)
  | merge (i : Nat) (p : Proto)
  | delta (p : Proto)
  | snapshot (p : Proto)
  | gate
  | reread
  | triggers (p : Proto)
  | terminated
deriving DecidableEq

/-- Where the rules file loader is. Filling and emptying the buffer concern nobody
    else, so that the lines are read in the step that copies the last list. An
    exception that leaves `reload_config` stops the loader for good. -/
inductive Loader
  | idle
  | copying (p : Proto) (file : RulesFile) (buff : RulesCollection)
  | assigning (p : Proto) (buff : RulesCollection)
  | changing
  | stopped

structure Daemon where
  main : RulesCollection
  threads : List RulesCollection
  /-- The watcher's `prev_collect` and `last_change`. -/
  prev : RulesCollection
  last_change : time_point
  pc : Pc
  loader : Loader
  /-- The jobs and the events that the checks have made so far. -/
  task_list : List TriggerJob
  influx : List Text

/-- What can happen next: a receiver checks a packet, a console session edits a
    list, a reload begins or goes on, the watcher goes on. `now` and `clock` are
    the times read on the way. -/
inductive Label
  | packet (i : Nat) (p : Proto) (packet : Packet (Header p))
  | console (p : Proto) (e : Edit (Fields p))
  | reload (file : RulesFile) (now : time_point)
  | load (now : time_point)
  | watch (now : time_point) (clock : Nat → Int)

namespace RulesCollection

/-- The part of `operator=` for one list; the last one sets the time of the change. -/
def assign_list (c other : RulesCollection) (p : Proto) (now : time_point) : RulesCollection :=
  let assigned := c.set_list p ((c.list p).assign (other.list p))
  if p = .ICMP then { assigned with last_change := now } else assigned

@[simp] theorem list_last_change (c : RulesCollection) (now : time_point) (p : Proto) :
    RulesCollection.list { c with last_change := now } p = c.list p := by
  cases p <;> rfl

@[simp] theorem list_assign_list (c other : RulesCollection) (p : Proto) (now : time_point) :
    (c.assign_list other p now).list p = (c.list p).assign (other.list p) := by
  cases p <;> rfl

theorem list_assign_list_ne (c other : RulesCollection) {p q : Proto} (now : time_point) (different : q ≠ p) :
    (c.assign_list other p now).list q = c.list q := by
  unfold assign_list
  split_ifs <;> simp [list_set_list_ne c _ different]

@[simp] theorem parse_opt_assign_list (c other : RulesCollection) (p q : Proto) (now : time_point) :
    ((c.assign_list other p now).list q).parse_opt_ = (c.list q).parse_opt_ := by
  cases p <;> cases q <;> rfl

theorem same_entered_set_list {c : RulesCollection} {p : Proto} {l : RulesList (Fields p)}
    (same : l.entered = (c.list p).entered) : SameEntered (c.set_list p l) c :=
  list_set_list_cases c p l (fun q m => m.entered = (c.list q).entered) same fun _ _ => rfl

/-- An edit leaves the other lists alone, and its own if it fails. -/
theorem list_console {platform : Platform} {c : RulesCollection} {p q : Proto} {e : Edit (Fields p)}
    (kept : ¬ (p = q ∧ ∃ l, e.apply platform (c.list p) = .ok l)) : (c.console platform p e).list q = c.list q := by
  unfold console
  cases applied : e.apply platform (c.list p) with
  | error error => rfl
  | ok l => exact list_set_list_ne c l fun same => kept ⟨same.symm,l,applied⟩

@[simp] theorem last_change_console (platform : Platform) (c : RulesCollection) (p : Proto) (e : Edit (Fields p)) :
    (c.console platform p e).last_change = c.last_change := by
  unfold console
  split <;> simp

end RulesCollection

namespace Daemon

/-- The start of the loop body for thread `i`, or the end of the loop. -/
def visit (s : Daemon) (i : Nat) : Pc := if i < s.threads.length then .compare i .TCP else .delta .TCP

def compared (i : Nat) (p : Proto) : Pc :=
  match p.next with
  | some q => .compare i q
  | none => .stamp i .TCP

def copied (i : Nat) (p : Proto) : Pc :=
  match p.next with
  | some q => .copy i q
  | none => .stamp i .TCP

def merged (s : Daemon) (i : Nat) (p : Proto) : Pc :=
  match p.next with
  | some q => .stamp i q
  | none => s.visit (i + 1)

def rated (p : Proto) : Pc :=
  match p.next with
  | some q => .delta q
  | none => .snapshot .TCP

def saved (p : Proto) : Pc :=
  match p.next with
  | some q => .snapshot q
  | none => .gate

def checked (s : Daemon) (p : Proto) : Pc :=
  match p.next with
  | some q => .triggers q
  | none => s.visit 0

/-- One step of `watcher`. -/
def watch (platform : Platform) (now : time_point) (clock : Nat → Int) (s : Daemon) : Option Daemon :=
  match s.pc with
  | .compare i p => s.threads[i]?.map fun c =>
      { s with pc := if (c.list p).eq (s.main.list p) then compared i p else .copy i .TCP }
  | .copy i p => s.threads[i]?.map fun c =>
      { s with threads := s.threads.set i (c.assign_list s.main p now), pc := copied i p }
  | .stamp i p => some { s with main := s.main.set_list p ((s.main.list p).touch now), pc := .merge i p }
  | .merge i p => s.threads[i]?.map fun c =>
      match (s.main.list p).merge (c.list p) with
      | .ok (l,l') => { s with
          main := s.main.set_list p l, threads := s.threads.set i (c.set_list p l'), pc := s.merged i p }
      -- nothing catches what the merge throws
      | .error _ => { s with pc := .terminated }
  | .delta p => some { s with
      main := s.main.set_list p ((s.main.list p).calc_delta platform (s.prev.list p)), pc := rated p }
  | .snapshot p => some { s with prev := s.prev.assign_list s.main p now, pc := saved p }
  | .gate => some { s with pc := if s.last_change = s.main.last_change then .triggers .TCP else .reread }
  | .reread => some { s with last_change := s.main.last_change, pc := s.visit 0 }
  | .triggers p =>
    let (l,fired) := (s.main.list p).check_triggers platform clock
    some { s with
      main := s.main.set_list p l
      task_list := s.task_list ++ fired.map Prod.fst
      influx := s.influx ++ fired.map Prod.snd
      pc := s.checked p }
  | .terminated => none

/-- One step of `reload_config` after its start. -/
def load (platform : Platform) (now : time_point) (s : Daemon) : Option Daemon :=
  match s.loader with
  | .copying p file buff =>
    let buff := buff.assign_list s.main p now
    match p.next with
    | some q => some { s with loader := .copying q file buff }
    | none =>
      match RulesFileLoader.load_file platform file buff.clear with
      | .ok buff => some { s with loader := .assigning .TCP buff }
      | .error _ => some { s with loader := .stopped }
  | .assigning p buff => some { s with
      main := s.main.set_list p ((s.main.list p).assign (buff.list p))
      loader := match p.next with
        | some q => .assigning q buff
        | none => .changing }
  | .changing => some { s with main := { s.main with last_change := now }, loader := .idle }
  | _ => none

/-- One step of the program. The end of the watcher's thread is the end of all. -/
def step (platform : Platform) (a : Label) (s : Daemon) : Option Daemon :=
  if s.pc = .terminated then none
  else
    match a with
    | .packet i p packet => s.threads[i]?.map fun c =>
        { s with threads := s.threads.set i (c.set_list p ((c.list p).check_list packet).1) }
    | .console p e => some { s with main := s.main.console platform p e }
    | .reload file now =>
      match s.loader, file with
      | .idle, .missing => some s
      | .idle, _ => some { s with loader := .copying .TCP file (s.main.params now) }
      | _, _ => none
    | .load now => s.load platform now
    | .watch now clock => s.watch platform now clock

/-- The start of the watcher, with the threads already running. -/
def start (main : RulesCollection) (threads : List RulesCollection) (now : time_point) : Daemon where
  main := main
  threads := threads
  prev := main.copy false now
  last_change := 0
  pc := if 0 < threads.length then .compare 0 .TCP else .delta .TCP
  loader := .idle
  task_list := []
  influx := []

/-! ### What a step can be -/

/-- The steps of the watcher. -/
inductive Watched (platform : Platform) (now : time_point) (clock : Nat → Int) (s : Daemon) : Daemon → Prop
  | equal {i : Nat} {p : Proto} {c : RulesCollection} (here : s.pc = .compare i p) (thread : s.threads[i]? = some c)
      (same : (c.list p).eq (s.main.list p) = true) :
      Watched platform now clock s { s with pc := compared i p }
  | differ {i : Nat} {p : Proto} {c : RulesCollection} (here : s.pc = .compare i p) (thread : s.threads[i]? = some c)
      (different : (c.list p).eq (s.main.list p) = false) :
      Watched platform now clock s { s with pc := .copy i .TCP }
  | copied {i : Nat} {p : Proto} {c : RulesCollection} (here : s.pc = .copy i p) (thread : s.threads[i]? = some c) :
      Watched platform now clock s
        { s with threads := s.threads.set i (c.assign_list s.main p now), pc := copied i p }
  | stamped {i : Nat} {p : Proto} (here : s.pc = .stamp i p) :
      Watched platform now clock s
        { s with main := s.main.set_list p ((s.main.list p).touch now), pc := .merge i p }
  | merged {i : Nat} {p : Proto} {c : RulesCollection} {l l' : RulesList (Fields p)} (here : s.pc = .merge i p)
      (thread : s.threads[i]? = some c) (sum : (s.main.list p).merge (c.list p) = .ok (l,l')) :
      Watched platform now clock s
        { s with main := s.main.set_list p l, threads := s.threads.set i (c.set_list p l'), pc := s.merged i p }
  | failed {i : Nat} {p : Proto} {c : RulesCollection} {error : Exn} (here : s.pc = .merge i p)
      (thread : s.threads[i]? = some c) (thrown : (s.main.list p).merge (c.list p) = .error error) :
      Watched platform now clock s { s with pc := .terminated }
  | rated {p : Proto} (here : s.pc = .delta p) :
      Watched platform now clock s
        { s with main := s.main.set_list p ((s.main.list p).calc_delta platform (s.prev.list p)), pc := rated p }
  | saved {p : Proto} (here : s.pc = .snapshot p) :
      Watched platform now clock s { s with prev := s.prev.assign_list s.main p now, pc := saved p }
  | opened (here : s.pc = .gate) (same : s.last_change = s.main.last_change) :
      Watched platform now clock s { s with pc := .triggers .TCP }
  | closed (here : s.pc = .gate) (changed : s.last_change ≠ s.main.last_change) :
      Watched platform now clock s { s with pc := .reread }
  | reread (here : s.pc = .reread) :
      Watched platform now clock s { s with last_change := s.main.last_change, pc := s.visit 0 }
  | checked {p : Proto} {jobs : List TriggerJob} {events : List Text} (here : s.pc = .triggers p) :
      Watched platform now clock s
        { s with
          main := s.main.set_list p ((s.main.list p).check_triggers platform clock).1
          task_list := jobs, influx := events, pc := s.checked p }

theorem watched {platform : Platform} {now : time_point} {clock : Nat → Int} {s s' : Daemon}
    (taken : s.watch platform now clock = some s') : Watched platform now clock s s' := by
  unfold watch at taken
  cases here : s.pc with
  | compare i p =>
    simp only [here,Option.map_eq_some_iff] at taken
    obtain ⟨c,thread,rfl⟩ := taken
    cases same : (c.list p).eq (s.main.list p) with
    | true => exact .equal here thread same
    | false => exact .differ here thread same
  | copy i p =>
    simp only [here,Option.map_eq_some_iff] at taken
    obtain ⟨c,thread,rfl⟩ := taken
    exact .copied here thread
  | stamp i p =>
    simp only [here,Option.some.injEq] at taken
    exact taken ▸ .stamped here
  | merge i p =>
    simp only [here,Option.map_eq_some_iff] at taken
    obtain ⟨c,thread,rfl⟩ := taken
    cases sum : (s.main.list p).merge (c.list p) with
    | ok pair => exact .merged here thread sum
    | error error => exact .failed here thread sum
  | delta p =>
    simp only [here,Option.some.injEq] at taken
    exact taken ▸ .rated here
  | snapshot p =>
    simp only [here,Option.some.injEq] at taken
    exact taken ▸ .saved here
  | gate =>
    simp only [here,Option.some.injEq] at taken
    subst taken
    split_ifs with same
    · exact .opened here same
    · exact .closed here same
  | reread =>
    simp only [here,Option.some.injEq] at taken
    exact taken ▸ .reread here
  | triggers p =>
    simp only [here,Option.some.injEq] at taken
    exact taken ▸ .checked here
  | terminated => simp [here] at taken

/-- The steps of `reload_config` after its start. -/
inductive Loaded (platform : Platform) (now : time_point) (s : Daemon) : Daemon → Prop
  | copied {p q : Proto} {file : RulesFile} {buff : RulesCollection} (here : s.loader = .copying p file buff)
      (next : p.next = some q) :
      Loaded platform now s { s with loader := .copying q file (buff.assign_list s.main p now) }
  | filled {p : Proto} {file : RulesFile} {buff filled : RulesCollection} (here : s.loader = .copying p file buff)
      (last : p.next = none)
      (read : RulesFileLoader.load_file platform file (buff.assign_list s.main p now).clear = .ok filled) :
      Loaded platform now s { s with loader := .assigning .TCP filled }
  | failed {p : Proto} {file : RulesFile} {buff : RulesCollection} (here : s.loader = .copying p file buff) :
      Loaded platform now s { s with loader := .stopped }
  | assigned {p : Proto} {buff : RulesCollection} (here : s.loader = .assigning p buff) :
      Loaded platform now s
        { s with
          main := s.main.set_list p ((s.main.list p).assign (buff.list p))
          loader := match p.next with
            | some q => .assigning q buff
            | none => .changing }
  | changed (here : s.loader = .changing) :
      Loaded platform now s { s with main := { s.main with last_change := now }, loader := .idle }

theorem loaded {platform : Platform} {now : time_point} {s s' : Daemon} (taken : s.load platform now = some s') :
    Loaded platform now s s' := by
  unfold load at taken
  cases here : s.loader with
  | copying p file buff =>
    simp only [here] at taken
    cases next : p.next with
    | some q =>
      simp only [next,Option.some.injEq] at taken
      exact taken ▸ .copied here next
    | none =>
      simp only [next] at taken
      cases read : RulesFileLoader.load_file platform file (buff.assign_list s.main p now).clear with
      | ok filled =>
        simp only [read,Option.some.injEq] at taken
        exact taken ▸ .filled here next read
      | error error =>
        simp only [read,Option.some.injEq] at taken
        exact taken ▸ .failed here
  | assigning p buff =>
    simp only [here,Option.some.injEq] at taken
    exact taken ▸ .assigned here
  | changing =>
    simp only [here,Option.some.injEq] at taken
    exact taken ▸ .changed here
  | idle => simp [here] at taken
  | stopped => simp [here] at taken

/-- The steps of the program. -/
inductive Stepped (platform : Platform) (s : Daemon) : Label → Daemon → Prop
  | packet {i : Nat} {p : Proto} {packet : Packet (Header p)} {c : RulesCollection} (thread : s.threads[i]? = some c) :
      Stepped platform s (.packet i p packet)
        { s with threads := s.threads.set i (c.set_list p ((c.list p).check_list packet).1) }
  | console {p : Proto} {e : Edit (Fields p)} :
      Stepped platform s (.console p e) { s with main := s.main.console platform p e }
  | missing {now : time_point} : Stepped platform s (.reload .missing now) s
  | reload {file : RulesFile} {now : time_point} (idle : s.loader = .idle) :
      Stepped platform s (.reload file now) { s with loader := .copying .TCP file (s.main.params now) }
  | load {now : time_point} {s' : Daemon} (loaded : Loaded platform now s s') : Stepped platform s (.load now) s'
  | watch {now : time_point} {clock : Nat → Int} {s' : Daemon} (watched : Watched platform now clock s s') :
      Stepped platform s (.watch now clock) s'

theorem stepped {platform : Platform} {a : Label} {s s' : Daemon} (taken : step platform a s = some s') :
    Stepped platform s a s' := by
  unfold step at taken
  split_ifs at taken with ended
  cases a with
  | packet i p packet =>
    obtain ⟨c,thread,rfl⟩ := Option.map_eq_some_iff.mp taken
    exact .packet thread
  | console p e => exact Option.some.inj taken ▸ .console
  | reload file now =>
    cases idle : s.loader with
    | idle =>
      cases file with
      | missing =>
        simp only [idle,Option.some.injEq] at taken
        exact taken ▸ .missing
      | unreadable =>
        simp only [idle,Option.some.injEq] at taken
        exact taken ▸ .reload idle
      | content text =>
        simp only [idle,Option.some.injEq] at taken
        exact taken ▸ .reload idle
    | copying p file buff => simp [idle] at taken
    | assigning p buff => simp [idle] at taken
    | changing => simp [idle] at taken
    | stopped => simp [idle] at taken
  | load now => exact .load (loaded taken)
  | watch now clock => exact .watch (watched taken)

/-! ### What a step leaves alone -/

/-- The step changes the rules of a list of main: an edit that succeeds, or the
    assignment of a reload. -/
def Writes (platform : Platform) (s : Daemon) : Label → Proto → Prop
  | .console p e, q => p = q ∧ ∃ l, e.apply platform (s.main.list p) = .ok l
  | .load _, q => ∃ buff, s.loader = .assigning q buff
  | _, _ => False

/-- The step copies a list of main to a thread. -/
def Copies (s : Daemon) : Label → Nat → Proto → Prop
  | .watch _ _, i, p => s.pc = .copy i p
  | _, _, _ => False

/-- The step saves a list of main in the snapshot. -/
def Saves (s : Daemon) : Label → Proto → Prop
  | .watch _ _, p => s.pc = .snapshot p
  | _, _ => False

variable {platform : Platform} {a : Label} {s s' : Daemon}

/-- A list of main keeps its rules, as entered, unless it is written. -/
theorem main_frame (moved : Stepped platform s a s') {q : Proto} (kept : ¬ Writes platform s a q) :
    (s'.main.list q).entered = (s.main.list q).entered := by
  cases moved with
  | console => exact congrArg RulesList.entered (RulesCollection.list_console kept)
  | load loaded =>
    cases loaded with
    | @assigned p buff here =>
      have other : q ≠ p := fun at_p => kept (by subst at_p; exact ⟨buff,here⟩)
      exact congrArg RulesList.entered (RulesCollection.list_set_list_ne s.main _ other)
    | changed here => simp
    | _ => rfl
  | @watch now clock s' watched =>
    cases watched with
    | @stamped i p here =>
      exact RulesCollection.same_entered_set_list (RulesList.entered_touch (s.main.list p) now) q
    | merged here thread sum => exact RulesCollection.same_entered_set_list (RulesList.entered_merge sum).1 q
    | rated here => exact RulesCollection.same_entered_set_list (RulesList.entered_calc_delta platform _ _) q
    | checked here => exact RulesCollection.same_entered_set_list (RulesList.entered_check_triggers platform _ _) q
    | _ => rfl
  | _ => rfl

theorem threads_length (moved : Stepped platform s a s') : s'.threads.length = s.threads.length := by
  cases moved with
  | packet thread => simp
  | load loaded => cases loaded <;> rfl
  | watch watched => cases watched <;> simp
  | _ => rfl

theorem getElem?_set_found {α : Type} {l : List α} {i j : Nat} {old c : α} (new : α) (here : l[i]? = some old)
    (found : l[j]? = some c) :
    ∃ c', (l.set i new)[j]? = some c' ∧ (i = j ∧ old = c ∧ c' = new ∨ i ≠ j ∧ c' = c) := by
  by_cases at_i : i = j
  · subst at_i
    have inside := (List.getElem?_eq_some_iff.mp here).1
    exact ⟨new,by simp [inside],.inl ⟨rfl,Option.some.inj (here.symm.trans found),rfl⟩⟩
  · exact ⟨c,by simp [at_i,found],.inr ⟨at_i,rfl⟩⟩

/-- A thread's list keeps its rules, as entered, unless main is copied to it. -/
theorem thread_frame (moved : Stepped platform s a s') {j : Nat} {c : RulesCollection}
    (found : s.threads[j]? = some c) :
    ∃ c', s'.threads[j]? = some c' ∧ ∀ q, ¬ Copies s a j q → (c'.list q).entered = (c.list q).entered := by
  cases moved with
  | @packet i p packet old thread =>
    obtain ⟨c',found',⟨_,rfl,rfl⟩ | ⟨_,rfl⟩⟩ := getElem?_set_found _ thread found
    · refine ⟨_,found',?_⟩
      intro q _
      exact RulesCollection.same_entered_set_list (RulesList.entered_check_list _ packet) q
    · exact ⟨_,found',fun _ _ => rfl⟩
  | load loaded => cases loaded <;> exact ⟨c,found,fun _ _ => rfl⟩
  | watch watched =>
    cases watched with
    | @copied i p old here thread =>
      obtain ⟨c',found',⟨rfl,rfl,rfl⟩ | ⟨_,rfl⟩⟩ := getElem?_set_found _ thread found
      · refine ⟨_,found',?_⟩
        intro q kept
        have other : q ≠ p := fun at_p => kept (by subst at_p; exact here)
        rw [RulesCollection.list_assign_list_ne _ _ _ other]
      · exact ⟨_,found',fun _ _ => rfl⟩
    | merged here thread sum =>
      obtain ⟨c',found',⟨_,rfl,rfl⟩ | ⟨_,rfl⟩⟩ := getElem?_set_found _ thread found
      · refine ⟨_,found',?_⟩
        intro q _
        exact RulesCollection.same_entered_set_list (RulesList.entered_merge sum).2 q
      · exact ⟨_,found',fun _ _ => rfl⟩
    | _ => exact ⟨c,found,fun _ _ => rfl⟩
  | _ => exact ⟨c,found,fun _ _ => rfl⟩

/-- A list that main is copied to has the rules of main afterwards. -/
theorem thread_copied (moved : Stepped platform s a s') {j : Nat} {q : Proto} (copies : Copies s a j q)
    {c : RulesCollection} (found : s'.threads[j]? = some c) : (c.list q).entered = (s.main.list q).entered := by
  cases moved with
  | watch watched =>
    have at_copy : s.pc = .copy j q := copies
    cases watched with
    | @copied i p old here thread =>
      obtain ⟨rfl,rfl⟩ := Pc.copy.inj (here.symm.trans at_copy)
      have inside := (List.getElem?_eq_some_iff.mp thread).1
      simp only [List.getElem?_set_self inside,Option.some.injEq] at found
      rw [← found,RulesCollection.list_assign_list,RulesList.entered_assign]
    | equal here | differ here | stamped here | merged here | failed here | rated here | saved here | opened here
    | closed here | reread here | checked here => cases here.symm.trans at_copy
  | _ => exact copies.elim

theorem saves_unwritten {q : Proto} (saves : Saves s a q) : ¬ Writes platform s a q := by
  cases a with
  | watch now clock => exact id
  | _ => exact saves.elim

/-- The snapshot of a list stays unless it is saved. -/
theorem prev_frame (moved : Stepped platform s a s') {q : Proto} (unsaved : ¬ Saves s a q) :
    s'.prev.list q = s.prev.list q := by
  cases moved with
  | load loaded => cases loaded <;> rfl
  | watch watched =>
    cases watched with
    | @saved p here =>
      have other : q ≠ p := fun same => unsaved (same ▸ here)
      exact RulesCollection.list_assign_list_ne _ _ _ other
    | _ => rfl
  | _ => rfl

theorem prev_saved (moved : Stepped platform s a s') {q : Proto} (saves : Saves s a q) :
    s'.prev.list q = (s.prev.list q).assign (s.main.list q) := by
  cases moved with
  | watch watched =>
    have at_snapshot : s.pc = .snapshot q := saves
    cases watched with
    | saved here =>
      obtain rfl := Pc.snapshot.inj (here.symm.trans at_snapshot)
      exact RulesCollection.list_assign_list ..
    | equal here | differ here | copied here | stamped here | merged here | failed here | rated here | opened here
    | closed here | reread here | checked here => cases here.symm.trans at_snapshot
  | _ => exact saves.elim

theorem visit_cases (s : Daemon) (i : Nat) : s.visit i = .compare i .TCP ∨ s.visit i = .delta .TCP := by
  unfold visit
  split_ifs
  · exact .inl rfl
  · exact .inr rfl

theorem visit_running (s : Daemon) (i : Nat) : s.visit i ≠ .terminated := by
  rcases visit_cases s i with visit | visit <;> simp [visit]

theorem not_copies {j : Nat} {q : Proto} (elsewhere : s.pc ≠ .copy j q) : ¬ Copies s a j q := by
  cases a <;> simp [Copies,elsewhere]

theorem not_saves {q : Proto} (elsewhere : s.pc ≠ .snapshot q) : ¬ Saves s a q := by
  cases a <;> simp [Saves,elsewhere]

theorem count_set_list {main : RulesCollection} {p : Proto} {l : RulesList (Fields p)} {c : Counter} {k : Nat}
    (same : l.count_at c k = (main.list p).count_at c k) (q : Proto) :
    ((main.set_list p l).list q).count_at c k = (main.list q).count_at c k :=
  RulesCollection.list_set_list_cases main p l (fun q m => m.count_at c k = (main.list q).count_at c k) same
    (fun _ _ => rfl) q

/-- The watcher ends only where a merge throws, on lists of different sizes. -/
theorem running_step (moved : Stepped platform s a s') (running : s.pc ≠ .terminated)
    (sizes : ∀ i p c, s.pc = .merge i p → s.threads[i]? = some c →
      (s.main.list p).rules_.length = (c.list p).rules_.length) : s'.pc ≠ .terminated := by
  cases moved with
  | load loaded => cases loaded <;> exact running
  | watch watched =>
    cases watched with
    | @failed i p c error here thread thrown =>
      exact absurd (sizes i p c here thread) (RulesList.sizes_of_merge_error thrown)
    | @equal i p _ _ _ _ => cases p <;> simp [compared,Proto.next]
    | @copied i p _ _ _ => cases p <;> simp [copied,Proto.next]
    | @merged i p _ _ _ _ _ _ =>
      cases p with
      | TCP => simp [merged,Proto.next]
      | UDP => simp [merged,Proto.next]
      | ICMP => exact visit_running s (i + 1)
    | @rated p _ => cases p <;> simp [rated,Proto.next]
    | @saved p _ => cases p <;> simp [saved,Proto.next]
    | @checked p _ _ _ =>
      cases p with
      | TCP => simp [checked,Proto.next]
      | UDP => simp [checked,Proto.next]
      | ICMP => exact visit_running s 0
    | reread here => exact visit_running s 0
    | _ => simp
  | _ => exact running

theorem visit_not_copy (s : Daemon) (i j : Nat) (q : Proto) : s.visit i ≠ .copy j q := by
  rcases visit_cases s i with visit | visit <;> simp [visit]

/-- Where the lists compared are equal, the watcher does not turn to copying. -/
theorem not_copying_step (moved : Stepped platform s a s')
    (same : ∀ i p c, s.pc = .compare i p → s.threads[i]? = some c → (c.list p).eq (s.main.list p) = true)
    (elsewhere : ∀ i p, s.pc ≠ .copy i p) (j : Nat) (q : Proto) : s'.pc ≠ .copy j q := by
  cases moved with
  | load loaded => cases loaded <;> exact elsewhere j q
  | watch watched =>
    cases watched with
    | @equal i p _ _ _ _ => cases p <;> simp [compared,Proto.next]
    | @differ i p c here thread different =>
      rw [same i p c here thread] at different
      cases different
    | copied here => exact absurd here (elsewhere _ _)
    | @merged i p _ _ _ _ _ _ =>
      cases p with
      | TCP => simp [merged,Proto.next]
      | UDP => simp [merged,Proto.next]
      | ICMP => exact visit_not_copy s (i + 1) j q
    | @rated p _ => cases p <;> simp [rated,Proto.next]
    | @saved p _ => cases p <;> simp [saved,Proto.next]
    | @checked p _ _ _ =>
      cases p with
      | TCP => simp [checked,Proto.next]
      | UDP => simp [checked,Proto.next]
      | ICMP => exact visit_not_copy s 0 j q
    | reread here => exact visit_not_copy s 0 j q
    | _ => simp
  | _ => exact elsewhere j q

/-! ### Phases of an iteration -/

/-- In this iteration the list has been saved. -/
def Saved : Pc → Proto → Prop
  | .snapshot q, p => p.index < q.index
  | .gate, _ => True
  | .reread, _ => True
  | .triggers _, _ => True
  | _, _ => False

/-- In this iteration the list has been rated, and not yet checked. -/
def Rated : Pc → Proto → Prop
  | .delta q, p => p.index < q.index
  | .snapshot _, _ => True
  | .gate, _ => True
  | .triggers q, p => q.index ≤ p.index
  | _, _ => False

theorem not_saved_visit (s : Daemon) (i : Nat) (p : Proto) : ¬ Saved (s.visit i) p := by
  rcases visit_cases s i with visit | visit <;> simp [visit,Saved]

theorem not_rated_visit (s : Daemon) (i : Nat) (p : Proto) : ¬ Rated (s.visit i) p := by
  rcases visit_cases s i with visit | visit <;> simp [visit,Rated,Proto.index]

theorem saved_saved {p q : Proto} (later : Saved (saved p) q) : Saved (.snapshot p) q ∨ q = p := by
  cases p <;> cases q <;> simp_all [saved,Proto.next,Saved,Proto.index]

theorem rated_rated {p q : Proto} (later : Rated (rated p) q) : Rated (.delta p) q ∨ q = p := by
  cases p <;> cases q <;> simp_all [rated,Proto.next,Rated,Proto.index]

theorem rated_checked {p q : Proto} (later : Rated (s.checked p) q) : Rated (.triggers p) q ∧ q ≠ p := by
  cases next : p.next with
  | none =>
    simp only [checked,next] at later
    exact absurd later (not_rated_visit s 0 q)
  | some p' =>
    simp only [checked,next,Rated] at later
    have step := Proto.next_some next
    refine ⟨by simp only [Rated]; omega,?_⟩
    rintro rfl
    omega

/-! ### A small daemon -/

/-- One thread, and one rule that has counted nothing yet. -/
def sample_daemon : Daemon := start (tcp_collection [sample_rule]) [tcp_collection [sample_rule]] 0

/-- A packet to the destination of the rule. -/
def sample_packet : Packet tcphdr :=
  ⟨⟨1,1,1,1,5,false,false,false,false,false,false,1⟩,1,167772161,40⟩

/-- A step of the watcher at the given time, of either clock. -/
def tick (now : Int) : Label := .watch now fun _ => now

end Daemon
end DdosDetector
