import DdosDetector.Daemon

/-!
The packets behind the counters: for each rule, by its position, those that a thread
has counted and not yet handed to main, and those that main has received since its last
snapshot or since its destinations were last cleared. Beside them stand the counts that
main has lent to a thread by copying itself over it and taken back by the next merge. An
edit moves all of it with the rule; rules that are entered have none.
-/
namespace DdosDetector

/-- Destinations and lengths of packets, oldest first. -/
abbrev Seen := List (UInt32 × UInt32)

def Seen.destinations (seen : Seen) : List UInt32 := seen.map Prod.fst

/-- What the packets add to a counter. -/
def tally (c : Counter) (seen : Seen) : UInt64 := (seen.map fun d => c.weight d.2).sum

@[simp] theorem tally_nil (c : Counter) : tally c [] = 0 := rfl

theorem tally_append (c : Counter) (seen more : Seen) : tally c (seen ++ more) = tally c seen + tally c more := by
  simp [tally]

theorem tally_snoc (c : Counter) (seen : Seen) (d_addr len : UInt32) :
    tally c (seen ++ [(d_addr,len)]) = tally c seen + c.weight len := by
  rw [tally_append]
  simp [tally]

structure Ledger where
  /-- Counted by the thread, and not merged since. -/
  pending : Nat → Proto → Nat → Seen
  /-- What the thread's counters held when main was copied over them. -/
  lent : Nat → Proto → Nat → Counter → UInt64
  /-- Merged into main's rule at the position since its list was last saved, whichever rule
      of a thread stood there. -/
  harvested : Proto → Nat → Seen
  returned : Proto → Nat → Counter → UInt64
  /-- Where the rule stood when the list was last saved, if it was there. -/
  saved_at : Proto → Nat → Option Nat
  /-- Merged into it since its destinations were last cleared. -/
  top : Proto → Nat → Seen
  /-- The differences that `calc_delta` last divided. -/
  deltas : Proto → Nat → Counter → UInt64

namespace Ledger

/-- No packet has been seen; what the threads hold counts as lent, and main as saved. -/
def start (threads : List RulesCollection) : Ledger where
  pending _ _ _ := []
  lent i p k c := (threads[i]?.map fun thread => (thread.list p).count_at c k).getD 0
  harvested _ _ := []
  returned _ _ _ := 0
  saved_at _ k := some k
  top _ _ := []
  deltas _ _ _ := 0

/-- What is noted for one list. -/
def at_list {β : Type} (p : Proto) (new : Nat → β) (old : Proto → Nat → β) : Proto → Nat → β :=
  fun q k => if q = p then new k else old q k

@[simp] theorem at_list_same {β : Type} (p : Proto) (new : Nat → β) (old : Proto → Nat → β) :
    at_list p new old p = new := by
  funext k
  simp [at_list]

theorem at_list_ne {β : Type} {p q : Proto} (new : Nat → β) (old : Proto → Nat → β) (different : q ≠ p) :
    at_list p new old q = old q := by
  funext k
  simp [at_list,different]

/-- The list gets other rules; `origin` tells where each of them was. -/
def written (h : Ledger) (p : Proto) (origin : Nat → Option Nat) : Ledger :=
  { h with
    harvested := at_list p (fun k => (origin k).elim [] (h.harvested p)) h.harvested
    returned := at_list p (fun k => (origin k).elim 0 (h.returned p)) h.returned
    saved_at := at_list p (fun k => (origin k).bind (h.saved_at p)) h.saved_at
    top := at_list p (fun k => (origin k).elim [] (h.top p)) h.top }

def received (h : Ledger) (i : Nat) (p : Proto) (rules : List (Rule (Fields p))) (packet : Packet (Header p)) : Ledger :=
  { h with
    pending := fun j q k =>
      if j = i ∧ q = p ∧ RulesList.counts_packet packet rules k then h.pending j q k ++ [(packet.d_addr,packet.len)]
      else h.pending j q k }

/-- The thread's list starts from the given counts. -/
def copied (h : Ledger) (i : Nat) (p : Proto) (counts : Nat → Counter → UInt64) : Ledger :=
  { h with
    pending := fun j q k => if j = i ∧ q = p then [] else h.pending j q k
    lent := fun j q k => if j = i ∧ q = p then counts k else h.lent j q k }

def merged (h : Ledger) (i : Nat) (p : Proto) : Ledger :=
  { h.copied i p fun _ => 0 with
    harvested := at_list p (fun k => h.harvested p k ++ h.pending i p k) h.harvested
    returned := at_list p (fun k c => h.returned p k c + h.lent i p k c) h.returned
    top := at_list p (fun k => h.top p k ++ h.pending i p k) h.top }

def saved (h : Ledger) (p : Proto) : Ledger :=
  { h with
    harvested := at_list p (fun _ => []) h.harvested
    returned := at_list p (fun _ => 0) h.returned
    saved_at := at_list p some h.saved_at }

/-- What a step adds to the ledger. -/
def note (platform : Platform) : Label → Daemon → Ledger → Ledger
  | .packet i p packet, s, h =>
    match s.threads[i]? with
    | some c => h.received i p (c.list p).rules_ packet
    | none => h
  | .console p e, s, h =>
    match e.apply platform (s.main.list p) with
    | .ok _ => h.written p (e.origin (s.main.list p).rules_.length)
    | .error _ => h
  | .reload _ _, _, h => h
  | .load _, s, h =>
    match s.loader with
    | .assigning p _ => h.written p fun _ => none
    | _ => h
  | .watch _ _, s, h =>
    match s.pc with
    | .copy i p => h.copied i p fun k c => (s.main.list p).count_at c k
    | .merge i p =>
      match s.threads[i]? with
      | some c => if (s.main.list p).rules_.length = (c.list p).rules_.length then h.merged i p else h
      | none => h
    | .delta p =>
      { h with deltas := at_list p (fun k c => (s.main.list p).count_at c k - (s.prev.list p).count_at c k) h.deltas }
    | .snapshot p => h.saved p
    | .triggers p => { h with top := at_list p (fun _ => []) h.top }
    | _ => h

section merge
variable {platform : Platform} {now : time_point} {clock : Nat → Int} {s : Daemon} {h : Ledger} {i : Nat} {p : Proto}
  {thread : RulesCollection}

/-- A merge that succeeds is noted, one that throws is not. -/
theorem note_merged {pair : RulesList (Fields p) × RulesList (Fields p)} (here : s.pc = .merge i p)
    (found : s.threads[i]? = some thread) (sum : (s.main.list p).merge (thread.list p) = .ok pair) :
    note platform (.watch now clock) s h = h.merged i p := by
  simp [note,here,found,(RulesList.merge_spec sum).1]

theorem note_failed {error : Exn} (here : s.pc = .merge i p) (found : s.threads[i]? = some thread)
    (thrown : (s.main.list p).merge (thread.list p) = .error error) : note platform (.watch now clock) s h = h := by
  simp [note,here,found,RulesList.sizes_of_merge_error thrown]

end merge

end Ledger
end DdosDetector
