import DdosDetector.Counters

/-!
`RulesCollection` and the console's edits, run without interruption, and the pass
of the watcher over its threads: compare, copy if different, merge.
-/
namespace DdosDetector

structure RulesCollection where
  tcp : RulesList TcpFields
  udp : RulesList UdpFields
  icmp : RulesList IcmpFields
  last_change : time_point

namespace RulesCollection

/-- The list of a protocol. -/
def list (c : RulesCollection) : (p : Proto) → RulesList (Fields p)
  | .TCP => c.tcp
  | .UDP => c.udp
  | .ICMP => c.icmp

def set_list (c : RulesCollection) : (p : Proto) → RulesList (Fields p) → RulesCollection
  | .TCP, l => { c with tcp := l }
  | .UDP, l => { c with udp := l }
  | .ICMP, l => { c with icmp := l }

@[simp] theorem list_set_list (c : RulesCollection) (p : Proto) (l : RulesList (Fields p)) :
    (c.set_list p l).list p = l := by
  cases p <;> rfl

theorem list_set_list_ne (c : RulesCollection) {p q : Proto} (l : RulesList (Fields p)) (different : q ≠ p) :
    (c.set_list p l).list q = c.list q := by
  cases p <;> cases q <;> first | exact absurd rfl different | rfl

@[simp] theorem last_change_set_list (c : RulesCollection) (p : Proto) (l : RulesList (Fields p)) :
    (c.set_list p l).last_change = c.last_change := by
  cases p <;> rfl

/-- What holds of the new list and of the other lists holds of every list. -/
theorem list_set_list_cases (c : RulesCollection) (p : Proto) (l : RulesList (Fields p))
    (motive : (q : Proto) → RulesList (Fields q) → Prop) (here : motive p l)
    (elsewhere : ∀ q, q ≠ p → motive q (c.list q)) : ∀ q, motive q ((c.set_list p l).list q) := by
  intro q
  by_cases same : q = p
  · subst same; simpa using here
  · rw [list_set_list_ne c l same]; exact elsewhere q same

/-- `operator!=`. -/
def ne (c other : RulesCollection) : Bool :=
  !(c.tcp.eq other.tcp && c.udp.eq other.udp && c.icmp.eq other.icmp)

theorem ne_eq_false_iff (c other : RulesCollection) :
    c.ne other = false ↔ ∀ p, (c.list p).eq (other.list p) = true := by
  simp only [ne,Bool.not_eq_eq_eq_not,Bool.not_false,Bool.and_eq_true]
  constructor
  · rintro ⟨⟨tcp,udp⟩,icmp⟩ p
    cases p
    · exact tcp
    · exact udp
    · exact icmp
  · intro all
    exact ⟨⟨all .TCP,all .UDP⟩,all .ICMP⟩

/-- `operator=`. -/
def assign (c other : RulesCollection) (now : time_point) : RulesCollection where
  tcp := c.tcp.assign other.tcp
  udp := c.udp.assign other.udp
  icmp := c.icmp.assign other.icmp
  last_change := now

theorem list_assign (c other : RulesCollection) (now : time_point) (p : Proto) :
    (c.assign other now).list p = (c.list p).assign (other.list p) := by
  cases p <;> rfl

/-- `operator+=`, where the merge of each list reads its own time. -/
def add (c other : RulesCollection) (now : Proto → time_point) : Except Exn (RulesCollection × RulesCollection) := do
  let (tcp,tcp') ← (c.tcp.touch (now .TCP)).merge other.tcp
  let (udp,udp') ← (c.udp.touch (now .UDP)).merge other.udp
  let (icmp,icmp') ← (c.icmp.touch (now .ICMP)).merge other.icmp
  return (⟨tcp,udp,icmp,c.last_change⟩,⟨tcp',udp',icmp',other.last_change⟩)

/-- Where the lists have the same sizes, `operator+=` merges each of them. -/
theorem add_spec (c other : RulesCollection) (now : Proto → time_point)
    (sizes : ∀ p, (c.list p).rules_.length = (other.list p).rules_.length) :
    ∃ c' other', c.add other now = .ok (c',other') ∧
      ∀ p, ((c.list p).touch (now p)).merge (other.list p) = .ok (c'.list p,other'.list p) := by
  obtain ⟨⟨tcp,tcp'⟩,tcp_merged⟩ := (RulesList.merge_ok_iff (c.tcp.touch (now .TCP)) other.tcp).mpr (sizes .TCP)
  obtain ⟨⟨udp,udp'⟩,udp_merged⟩ := (RulesList.merge_ok_iff (c.udp.touch (now .UDP)) other.udp).mpr (sizes .UDP)
  obtain ⟨⟨icmp,icmp'⟩,icmp_merged⟩ := (RulesList.merge_ok_iff (c.icmp.touch (now .ICMP)) other.icmp).mpr (sizes .ICMP)
  refine ⟨⟨tcp,udp,icmp,c.last_change⟩,⟨tcp',udp',icmp',other.last_change⟩,?_,fun p => ?_⟩
  · simp only [add,tcp_merged,udp_merged,icmp_merged]; rfl
  · cases p
    · exact tcp_merged
    · exact udp_merged
    · exact icmp_merged

end RulesCollection

/-! ### Console edits -/

/-- The edits of one list. Rules are as constructed, before `parse`. -/
inductive Edit (Fields : Type)
  | add_rule (rule : Rule Fields)
  | insert_rule (num : UInt32) (rule : Rule Fields)
  | del_rule (num : UInt32)

namespace Edit
variable {Fields Header : Type} [ProtoRule Fields Header]

def apply (platform : Platform) (l : RulesList Fields) : Edit Fields → Except Exn (RulesList Fields)
  | .add_rule rule => l.add_rule platform rule
  | .insert_rule num rule => l.insert_rule platform num rule
  | .del_rule num => l.del_rule num

/-- The position that the rule at `j` had before the edit, if it was in the list. -/
def origin (size : Nat) : Edit Fields → Nat → Option Nat
  | .add_rule _, j => if j < size then some j else none
  | .insert_rule num _, j =>
    if j < num.toNat then some j else if j = num.toNat then none else some (j - 1)
  | .del_rule num, j => if j < num.toNat then some j else some (j + 1)

/-- No two positions had been one before the edit. -/
theorem origin_injective {size : Nat} {e : Edit Fields} {j k i : Nat} (from_i : e.origin size j = some i)
    (from_i' : e.origin size k = some i) : j = k := by
  cases e with
  | add_rule rule =>
    simp only [origin] at from_i from_i'
    split_ifs at from_i from_i'
    exact (Option.some.inj from_i).trans (Option.some.inj from_i').symm
  | insert_rule num rule =>
    simp only [origin] at from_i from_i'
    split_ifs at from_i from_i' <;> simp only [Option.some.injEq] at from_i from_i' <;> omega
  | del_rule num =>
    simp only [origin] at from_i from_i'
    split_ifs at from_i from_i' <;> simp only [Option.some.injEq] at from_i from_i' <;> omega

/-- What a successful edit does: one rule more or less, nothing else of the list,
    and every other rule keeps all it holds. -/
theorem apply_spec {platform : Platform} {l l' : RulesList Fields} {e : Edit Fields}
    (applied : e.apply platform l = .ok l') :
    l'.rules_.length ≠ l.rules_.length ∧ l'.last_update_ = l.last_update_ ∧ l'.parse_opt_ = l.parse_opt_ ∧
      ∀ j i, e.origin l.rules_.length j = some i → l'.rules_[j]? = l.rules_[i]? := by
  cases e with
  | add_rule rule =>
    obtain ⟨parsed,_,added⟩ := bind_ok applied
    obtain rfl := Except.ok.inj added
    refine ⟨by simp,rfl,rfl,?_⟩
    intro j i from_i
    simp only [origin] at from_i
    split_ifs at from_i with inside
    obtain rfl := Option.some.inj from_i
    exact List.getElem?_append_left inside
  | insert_rule num rule =>
    obtain ⟨parsed,_,inserted⟩ := bind_ok applied
    split_ifs at inserted with empty range
    obtain rfl := Except.ok.inj inserted
    have some_rule : l.rules_.length ≠ 0 := by simpa using empty
    have bound : num.toNat < l.rules_.length := by omega
    refine ⟨by simp; omega,rfl,rfl,?_⟩
    intro j i from_i
    simp only [origin] at from_i
    split_ifs at from_i with before here
    · obtain rfl := Option.some.inj from_i
      rw [List.append_assoc,List.getElem?_append_left (by simp; omega)]
      simp [before]
    · obtain rfl := Option.some.inj from_i
      rw [List.getElem?_append_right (by simp; omega),List.getElem?_drop]
      congr 1
      simp
      omega
  | del_rule num =>
    simp only [apply,RulesList.del_rule] at applied
    split_ifs at applied with empty range
    obtain rfl := Except.ok.inj applied
    have some_rule : l.rules_.length ≠ 0 := by simpa using empty
    have bound : num.toNat < l.rules_.length := by omega
    refine ⟨by simp [List.length_eraseIdx,bound]; omega,rfl,rfl,?_⟩
    intro j i from_i
    simp only [origin] at from_i
    split_ifs at from_i with before
    · obtain rfl := Option.some.inj from_i
      simp [List.getElem?_eraseIdx,before]
    · obtain rfl := Option.some.inj from_i
      simp [List.getElem?_eraseIdx,before]

end Edit

/-- A console edit of one list of the collection: a failed edit throws to the
    console session, which reports it, and changes nothing. -/
def RulesCollection.console (platform : Platform) (c : RulesCollection) (p : Proto) (e : Edit (Fields p)) :
    RulesCollection :=
  match e.apply platform (c.list p) with
  | .ok l => c.set_list p l
  | .error _ => c

/-! ### The pass over the threads -/

/-- The body of the watcher's loop for one thread. `now` are the times that it reads. -/
def sync_thread (now : Proto → time_point) (main c : RulesCollection) :
    Except Exn (RulesCollection × RulesCollection) :=
  main.add (if c.ne main then c.assign main (now .ICMP) else c) now

/-- The loop over all threads, uninterrupted. -/
def sync_pass (now : Nat → Proto → time_point) :
    RulesCollection → List RulesCollection → Except Exn (RulesCollection × List RulesCollection)
  | main, [] => .ok (main,[])
  | main, c :: cs => do
    let (main,c) ← sync_thread (now cs.length) main c
    let (main,cs) ← sync_pass now main cs
    return (main,c :: cs)

/-- Collections with the same rules as entered. -/
def SameEntered (c d : RulesCollection) : Prop := ∀ p, (c.list p).entered = (d.list p).entered

theorem ne_congr {c d c' d' : RulesCollection} (left : SameEntered c c') (right : SameEntered d d') :
    c.ne d = c'.ne d' := by
  rw [Bool.eq_iff_iff,← Bool.not_eq_false,← Bool.not_eq_false,RulesCollection.ne_eq_false_iff,
    RulesCollection.ne_eq_false_iff]
  exact not_congr (forall_congr' fun p => by rw [RulesList.eq_congr (left p) (right p)])

theorem sync_thread_spec (now : Proto → time_point) (main c : RulesCollection) :
    ∃ main' c', sync_thread now main c = .ok (main',c') ∧ SameEntered main' main ∧
      (∀ p, (c'.list p).entered = if c.ne main then (main.list p).entered else (c.list p).entered) ∧
      ∀ p counter k, (main'.list p).count_at counter k = (main.list p).count_at counter k +
        if c.ne main then (main.list p).count_at counter k else (c.list p).count_at counter k := by
  have same : ∀ p, (main.list p).rules_.length =
      ((if c.ne main then c.assign main (now .ICMP) else c).list p).rules_.length := by
    intro p
    cases differ : c.ne main with
    | true => simp [RulesCollection.list_assign]
    | false => exact (RulesList.length_of_eq ((RulesCollection.ne_eq_false_iff c main).mp differ p)).symm
  obtain ⟨main',c',added,merged⟩ := RulesCollection.add_spec main _ now same
  refine ⟨main',c',added,fun p => (RulesList.entered_merge (merged p)).1,fun p => ?_,fun p counter k => ?_⟩
  · rw [(RulesList.entered_merge (merged p)).2]
    split_ifs <;> simp [RulesCollection.list_assign]
  · rw [(RulesList.count_at_merge (merged p) counter k).1]
    split_ifs <;> simp [RulesCollection.list_assign]

/-- A pass always succeeds. It leaves the rules of main as entered, copies them to
    the threads that differ, and adds to each counter of main, thread by thread, the
    thread's counter or, where the thread was copied over, the counter itself. -/
theorem sync_pass_spec (now : Nat → Proto → time_point) (main : RulesCollection) (threads : List RulesCollection) :
    ∃ main' threads', sync_pass now main threads = .ok (main',threads') ∧ SameEntered main' main ∧
      List.Forall₂ (fun c c' => ∀ p, (c'.list p).entered =
        if c.ne main then (main.list p).entered else (c.list p).entered) threads threads' ∧
      ∀ p counter k, (main'.list p).count_at counter k =
        threads.foldl (fun n c => n + if c.ne main then n else (c.list p).count_at counter k)
          ((main.list p).count_at counter k) := by
  induction threads generalizing main with
  | nil => exact ⟨main,[],rfl,fun p => rfl,.nil,fun p counter k => rfl⟩
  | cons c cs ih =>
    obtain ⟨main₁,c',synced,same₁,copied,added⟩ := sync_thread_spec (now cs.length) main c
    obtain ⟨main₂,cs',passed,same₂,others,counts⟩ := ih main₁
    have compare : ∀ d : RulesCollection, d.ne main₁ = d.ne main := fun d => ne_congr (fun p => rfl) same₁
    refine ⟨main₂,c' :: cs',?_,fun p => (same₂ p).trans (same₁ p),.cons copied ?_,fun p counter k => ?_⟩
    · simp only [sync_pass,synced]
      show (sync_pass now main₁ cs).bind _ = _
      rw [passed]
      rfl
    · simpa only [compare,same₁ _] using others
    · rw [counts p counter k,List.foldl_cons,← added p counter k]
      simp only [compare]

/-- What the threads have counted for the rule at a position, together. -/
def threads_count (threads : List RulesCollection) (p : Proto) (counter : Counter) (k : Nat) : UInt64 :=
  (threads.map fun c => (c.list p).count_at counter k).sum

/-- What a pass adds to a counter of main where no thread differs. -/
theorem fold_in_sync (threads : List RulesCollection) (main : RulesCollection) (p : Proto) (counter : Counter)
    (k : Nat) (n : UInt64) (in_sync : ∀ c ∈ threads, c.ne main = false) :
    threads.foldl (fun n c => n + if c.ne main then n else (c.list p).count_at counter k) n =
      n + threads_count threads p counter k := by
  induction threads generalizing n with
  | nil => simp [threads_count]
  | cons c cs ih =>
    have head : c.ne main = false := in_sync c (by simp)
    rw [List.foldl_cons,ih _ (fun d member => in_sync d (by simp [member])),head]
    simp [threads_count,UInt64.add_assoc]

/-! ### A small collection -/

/-- The rule text `--dstip 10.0.0.1 --pps-th 100p`, in words. -/
def sample_words : List Text := ["--dstip","10.0.0.1","--pps-th","100p"]

/-- What `TcpRule::parse` makes of these words. -/
def sample_rule : TcpRule where
  rule_type := "tcp"
  text_rule := "--dstip 10.0.0.1 --pps-th 100p "
  tokenize_rule := sample_words
  ip_dst := ⟨167772161,167772161,true⟩
  pps_trigger := 100
  l4 := {}

theorem sample_rule_parsed :
    TcpRule.parse documented documented_options (TcpRule.new sample_words) = .ok sample_rule := rfl

/-- The collection that holds the given TCP rules only. -/
def tcp_collection (rules : List TcpRule) : RulesCollection where
  tcp := ⟨rules,documented_options,0⟩
  udp := ⟨[],documented_options,0⟩
  icmp := ⟨[],documented_options,0⟩
  last_change := 1

end DdosDetector
