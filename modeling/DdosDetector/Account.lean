import DdosDetector.Ledger

/-!
Which rule the packets in the ledger are owed to. A merge adds the counters of a thread's
list to those of main position by position, and an edit may have put another rule at the
position since the thread got its copy. Every rule of main therefore has a number, which
it keeps wherever edits move it and which is given once; a thread's rule has the number of
the rule that it is a copy of, or whose copy it has been found to be: entered alike, at
the same place.
-/
namespace DdosDetector

/-! ### Rules that are entered alike -/

/-- What is entered with a rule. -/
structure Entry (Fields : Type) extends Ipv4Rule where
  rule_type : Text
  text_rule : Text
  act : Action
  comment : Text
  next_rule : Bool
  pps_trigger : UInt32
  bps_trigger : UInt32
  pps_trigger_period : UInt32
  bps_trigger_period : UInt32
  tokenize_rule : List Text
  l4 : Fields
deriving DecidableEq

def Rule.entry {F : Type} (r : Rule F) : Entry F :=
  ⟨r.toIpv4Rule,r.rule_type,r.text_rule,r.act,r.comment,r.next_rule,r.pps_trigger,r.bps_trigger,r.pps_trigger_period,
    r.bps_trigger_period,r.tokenize_rule,r.l4⟩

theorem Rule.entry_eq_iff {F : Type} {r r' : Rule F} : r.entry = r'.entry ↔ r.entered = r'.entered := by
  cases r
  cases r'
  simp only [entry,entered,Entry.mk.injEq,Rule.mk.injEq,BaseRule.mk.injEq]
  tauto

instance : (p : Proto) → DecidableEq (Fields p)
  | .TCP => inferInstanceAs (DecidableEq TcpFields)
  | .UDP => inferInstanceAs (DecidableEq UdpFields)
  | .ICMP => inferInstanceAs (DecidableEq IcmpFields)

/-- Both lists have a rule at the position, and the two have been entered alike. -/
def RulesList.alike_at {p : Proto} (l other : RulesList (Fields p)) (k : Nat) : Bool :=
  match l.rules_[k]?, other.rules_[k]? with
  | some r, some r' => r.entry = r'.entry
  | _, _ => false

theorem RulesList.entered_of_alike_at {p : Proto} {l other : RulesList (Fields p)} {k : Nat}
    (alike : l.alike_at other k = true) : k < l.rules_.length ∧ other.entered[k]? = l.entered[k]? := by
  simp only [alike_at] at alike
  split at alike
  · rename_i r r' here there
    have same := Rule.entry_eq_iff.mp (of_decide_eq_true alike)
    refine ⟨(List.getElem?_eq_some_iff.mp here).1,?_⟩
    rw [entered,entered,List.getElem?_map,List.getElem?_map,here,there,Option.map_some,Option.map_some,same]
  · cases alike

/-! ### The account -/

structure Account extends Ledger where
  /-- The number of the rule at a position of main's list. -/
  rule : Proto → Nat → Nat
  /-- The number of the rule whose copy the thread's rule at a position is. -/
  copy : Nat → Proto → Nat → Option Nat
  /-- The first number that has not been given. -/
  next : Proto → Nat
  /-- Counted by copies of the rule of that number, and merged into whichever rule of main
      since the list was last saved. -/
  own : Proto → Nat → Seen
  /-- Those of them that were merged into other rules. -/
  given : Proto → Nat → Seen
  /-- Merged into the rule at a position since the list was last saved, although no copy of
      it had counted them. -/
  taken : Proto → Nat → Seen

namespace Account

/-- Main's rules have their positions for numbers; whose copies the threads' rules are has
    yet to be found. -/
def start (main : RulesCollection) (threads : List RulesCollection) : Account where
  toLedger := Ledger.start threads
  rule _ k := k
  copy _ _ _ := none
  next p := (main.list p).rules_.length
  own _ _ := []
  given _ _ := []
  taken _ _ := []

/-- What the thread has counted at the positions. -/
def gathered (h : Account) (i : Nat) (p : Proto) (size : Nat) (where_ : Nat → Bool) : Seen :=
  ((List.range size).filter where_).flatMap (h.pending i p)

/-- The list gets `size` rules; those that were not in it before get numbers of their own. -/
def written (h : Account) (p : Proto) (origin : Nat → Option Nat) (size : Nat) : Account :=
  { h with
    toLedger := h.toLedger.written p origin
    rule := Ledger.at_list p (fun k => (origin k).elim (h.next p + k) (h.rule p)) h.rule
    next := Function.update h.next p (h.next p + size)
    taken := Ledger.at_list p (fun k => (origin k).elim [] (h.taken p)) h.taken }

/-- The thread's list becomes a copy of main's, of `size` rules. -/
def copied (h : Account) (i : Nat) (p : Proto) (size : Nat) : Account :=
  { h with
    copy := fun j q k => if j = i ∧ q = p then if k < size then some (h.rule p k) else none else h.copy j q k }

/-- At some positions the thread's rules are found to be copies of main's. -/
def found (h : Account) (i : Nat) (p : Proto) (alike : Nat → Bool) : Account :=
  { h with
    copy := fun j q k => if j = i ∧ q = p ∧ alike k = true then some (h.rule p k) else h.copy j q k }

def merged (h : Account) (i : Nat) (p : Proto) (size : Nat) : Account :=
  { h with
    toLedger := h.toLedger.merged i p
    own := Ledger.at_list p (fun number => h.own p number ++ h.gathered i p size fun k => h.copy i p k = some number) h.own
    given := Ledger.at_list p (fun number => h.given p number ++
      h.gathered i p size fun k => h.copy i p k = some number ∧ h.rule p k ≠ number) h.given
    taken := Ledger.at_list p (fun k =>
      h.taken p k ++ if h.copy i p k = some (h.rule p k) then [] else h.pending i p k) h.taken }

def saved (h : Account) (p : Proto) : Account :=
  { h with
    toLedger := h.toLedger.saved p
    own := Ledger.at_list p (fun _ => []) h.own
    given := Ledger.at_list p (fun _ => []) h.given
    taken := Ledger.at_list p (fun _ => []) h.taken }

/-- What a step adds to the account, the ledger included. -/
def note (platform : Platform) (a : Label) (s : Daemon) (h : Account) : Account :=
  let entered := { h with toLedger := Ledger.note platform a s h.toLedger }
  match a with
  | .console p e =>
    match e.apply platform (s.main.list p) with
    | .ok l => h.written p (e.origin (s.main.list p).rules_.length) l.rules_.length
    | .error _ => entered
  | .load _ =>
    match s.loader with
    | .assigning p buff => h.written p (fun _ => none) (buff.list p).rules_.length
    | _ => entered
  | .watch _ _ =>
    match s.pc with
    | .compare i p =>
      match s.threads[i]? with
      | some c => entered.found i p ((s.main.list p).alike_at (c.list p))
      | none => entered
    | .copy i p => entered.copied i p (s.main.list p).rules_.length
    | .merge i p =>
      match s.threads[i]? with
      | some c =>
        if (s.main.list p).rules_.length = (c.list p).rules_.length then
          (h.found i p ((s.main.list p).alike_at (c.list p))).merged i p (s.main.list p).rules_.length
        else entered
      | none => entered
    | .snapshot p => h.saved p
    | _ => entered
  | _ => entered

/-- The account's ledger is the ledger. -/
theorem toLedger_note (platform : Platform) (a : Label) (s : Daemon) (h : Account) :
    (note platform a s h).toLedger = Ledger.note platform a s h.toLedger := by
  cases a with
  | packet | reload => rfl
  | console p e => cases applied : e.apply platform (s.main.list p) <;> simp [note,Ledger.note,applied,written]
  | load now => cases here : s.loader <;> simp [note,Ledger.note,here,written]
  | watch now clock =>
    cases here : s.pc with
    | compare i p => cases thread : s.threads[i]? <;> simp [note,here,thread,found]
    | merge i p =>
      cases thread : s.threads[i]? with
      | none => simp [note,here,thread]
      | some c =>
        simp only [note,Ledger.note,here,thread]
        split_ifs <;> rfl
    | _ => simp [note,Ledger.note,here,copied,saved]

/-- A merge that succeeds is accounted for. -/
theorem note_merged {platform : Platform} {now : time_point} {clock : Nat → Int} {s : Daemon} {h : Account} {i : Nat}
    {p : Proto} {thread : RulesCollection} {pair : RulesList (Fields p) × RulesList (Fields p)} (here : s.pc = .merge i p)
    (found : s.threads[i]? = some thread) (sum : (s.main.list p).merge (thread.list p) = .ok pair) :
    note platform (.watch now clock) s h =
      (h.found i p ((s.main.list p).alike_at (thread.list p))).merged i p (s.main.list p).rules_.length := by
  simp [note,here,found,(RulesList.merge_spec sum).1]

/-! ### Gathering -/

/-- Two selections that differ at one position, which the second leaves out. -/
theorem tally_gathered (c : Counter) (pending : Nat → Seen) (first second : Nat → Bool) {k : Nat} {places : List Nat}
    (once : places.Nodup) (member : k ∈ places) (others : ∀ j ∈ places, j ≠ k → first j = second j)
    (left_out : second k = false) :
    tally c ((places.filter first).flatMap pending) + tally c (if first k then [] else pending k) =
      tally c ((places.filter second).flatMap pending) + tally c (pending k) := by
  induction places with
  | nil => cases member
  | cons j places ih =>
    obtain ⟨absent,once⟩ := List.nodup_cons.mp once
    have rest : ∀ i ∈ places, i ≠ k → first i = second i := fun i inside => others i (List.mem_cons_of_mem _ inside)
    by_cases at_k : j = k
    · subst at_k
      have same : places.filter first = places.filter second :=
        List.filter_congr fun i inside => rest i inside fun here => absent (here ▸ inside)
      cases chosen : first j with
      | true =>
        rw [List.filter_cons_of_pos chosen,List.filter_cons_of_neg (by simp [left_out]),same,List.flatMap_cons,tally_append]
        simp only [↓reduceIte,tally_nil]
        ac_rfl
      | false =>
        rw [List.filter_cons_of_neg (by simp [chosen]),List.filter_cons_of_neg (by simp [left_out]),same]
        rfl
    · have inside : k ∈ places := (List.mem_cons.mp member).resolve_left (Ne.symm at_k)
      have head := others j List.mem_cons_self at_k
      have tail := ih once inside rest
      cases chosen : first j with
      | true =>
        rw [List.filter_cons_of_pos chosen,List.filter_cons_of_pos (head ▸ chosen),List.flatMap_cons,List.flatMap_cons,
          tally_append,tally_append,UInt64.add_assoc,tail,UInt64.add_assoc]
      | false =>
        rw [List.filter_cons_of_neg (by simp [chosen]),List.filter_cons_of_neg (by simp [← head,chosen])]
        exact tail

end Account
end DdosDetector
