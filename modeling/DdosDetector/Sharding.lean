import DdosDetector.Daemon

/-!
Without edits and reloads, the threads and main together count what one list of the
same rules would count, however the packets are spread over the threads and however
their checks fall between the steps of the watcher.
-/
namespace DdosDetector

namespace RulesList
variable {F H : Type} [ProtoRule F H]

/-- One list that checks all packets by itself. -/
def feed (l : RulesList F) (packets : List (Packet H)) : RulesList F :=
  packets.foldl (fun l packet => (l.check_list packet).1) l

/-- What a list of the given rules counts for one packet. -/
def growth (l : RulesList F) (c : Counter) (k : Nat) (packet : Packet H) : UInt64 :=
  if counts_packet packet l.rules_ k then c.weight packet.len else 0

theorem growth_entered {l m : RulesList F} (same : l.entered = m.entered) (c : Counter) (k : Nat) (packet : Packet H) :
    l.growth c k packet = m.growth c k packet := by
  rw [growth,growth,counts_packet_entered same]

theorem growth_alike {l m : RulesList F} (alike : Alike l m) (c : Counter) (k : Nat) (packet : Packet H) :
    l.growth c k packet = m.growth c k packet := by
  rw [growth,growth,counts_packet_alike alike]

theorem count_at_feed (l : RulesList F) (packets : List (Packet H)) (c : Counter) (k : Nat) :
    (l.feed packets).count_at c k = l.count_at c k + (packets.map (l.growth c k)).sum := by
  induction packets generalizing l with
  | nil => simp [feed]
  | cons packet rest ih =>
    have same : ∀ other, (l.check_list packet).1.growth c k other = l.growth c k other :=
      growth_entered (entered_check_list l packet) c k
    have checked := ih (l.check_list packet).1
    simp only [feed,List.foldl_cons,List.map_cons,List.sum_cons] at checked ⊢
    rw [checked,count_at_check_list,List.map_congr_left fun other _ => same other,UInt64.add_assoc]
    rfl

end RulesList

namespace Daemon
variable {platform : Platform} {a : Label} {s s' : Daemon}

/-- Only receivers and the watcher take the step. -/
def Receives : Label → Prop
  | .packet _ _ _ => True
  | .watch _ _ => True
  | _ => False

/-- The lists of every thread are in sync with main's. -/
def InSync (s : Daemon) : Prop :=
  ∀ (j : Nat) (c : RulesCollection), s.threads[j]? = some c → ∀ p, RulesList.Alike (c.list p) (s.main.list p)

theorem receives_unwritten (receives : Receives a) (q : Proto) : ¬ Writes platform s a q := by
  cases a with
  | packet i p packet => exact id
  | watch now clock => exact id
  | console p e => exact receives.elim
  | reload file now => exact receives.elim
  | load now => exact receives.elim

/-- Threads in sync stay in sync. -/
theorem inSync_step (moved : Stepped platform s a s') (receives : Receives a) (sync : InSync s)
    (elsewhere : ∀ i p, s.pc ≠ .copy i p) : InSync s' := by
  intro j c found p
  have inside : j < s.threads.length := threads_length moved ▸ (List.getElem?_eq_some_iff.mp found).1
  have here := List.getElem?_eq_getElem inside
  obtain ⟨c',found',kept⟩ := thread_frame moved here
  obtain rfl := Option.some.inj (found'.symm.trans found)
  exact RulesList.alike_congr (kept p (not_copies (elsewhere j p))).symm
    (main_frame moved (receives_unwritten receives p)).symm (sync j _ here p)

/-! ### What all counters add up to -/

/-- A counter of main and of all threads together. -/
def total (s : Daemon) (p : Proto) (c : Counter) (k : Nat) : UInt64 :=
  (s.main.list p).count_at c k + threads_count s.threads p c k

/-- The packets of a protocol that a label hands to a receiver. -/
def packets_of (p : Proto) : Label → List (Packet (Header p))
  | .packet _ q packet => if same : q = p then [same ▸ packet] else []
  | _ => []

theorem threads_count_set {threads : List RulesCollection} {i : Nat} {old : RulesCollection}
    (found : threads[i]? = some old) (new : RulesCollection) (p : Proto) (c : Counter) (k : Nat) :
    threads_count (threads.set i new) p c k + (old.list p).count_at c k =
      threads_count threads p c k + (new.list p).count_at c k := by
  induction threads generalizing i with
  | nil => simp at found
  | cons first rest ih =>
    cases i with
    | zero =>
      obtain rfl : first = old := by simpa using found
      simp only [threads_count,List.set_cons_zero,List.map_cons,List.sum_cons]
      grind
    | succ i =>
      have tail := ih (i := i) (by simpa using found)
      simp only [threads_count,List.set_cons_succ,List.map_cons,List.sum_cons] at tail ⊢
      grind

/-- Replacing one list of one thread changes the sum by what it changes that list. -/
theorem threads_count_set_list {threads : List RulesCollection} {i : Nat} {old : RulesCollection}
    (found : threads[i]? = some old) {p : Proto} (l : RulesList (Fields p)) (q : Proto) (c : Counter) (k : Nat) :
    threads_count (threads.set i (old.set_list p l)) q c k =
      threads_count threads q c k +
        if p = q then l.count_at c k - (old.list p).count_at c k else 0 := by
  have sum := threads_count_set found (old.set_list p l) q c k
  by_cases same : p = q
  · subst same
    rw [RulesCollection.list_set_list] at sum
    simp only [↓reduceIte]
    grind
  · rw [RulesCollection.list_set_list_ne _ _ (Ne.symm same)] at sum
    simp only [same,↓reduceIte]
    grind

/-- One step adds to the sum what one list counts for the packet of the step, if it
    has one: a merge moves counts, and nothing else touches them. -/
theorem total_step (moved : Stepped platform s a s') (receives : Receives a) (sync : InSync s)
    (elsewhere : ∀ i p, s.pc ≠ .copy i p) (q : Proto) (c : Counter) (k : Nat) :
    total s' q c k = total s q c k + ((packets_of q a).map ((s.main.list q).growth c k)).sum := by
  unfold total
  cases moved with
  | @packet i p packet old thread =>
    rw [threads_count_set_list thread]
    by_cases same : p = q
    · subst same
      have grown := RulesList.count_at_check_list (old.list p) packet c k
      have alike : (old.list p).growth c k packet = (s.main.list p).growth c k packet :=
        RulesList.growth_alike (sync i old thread p) c k packet
      simp only [packets_of,↓reduceDIte,↓reduceIte,List.map_cons,List.map_nil,List.sum_cons,List.sum_nil]
      rw [← alike,RulesList.growth,grown]
      grind
    · simp [packets_of,same]
  | watch watched =>
    cases watched with
    | stamped here => rw [count_set_list (by simp)]; simp [packets_of]
    | @merged i p old l l' here thread sum =>
      rw [threads_count_set_list thread]
      by_cases same : p = q
      · subst same
        obtain ⟨added,drained⟩ := RulesList.count_at_merge sum c k
        simp only [RulesCollection.list_set_list,↓reduceIte,packets_of,List.map_nil,List.sum_nil]
        rw [added,drained]
        grind
      · simp [packets_of,same,RulesCollection.list_set_list_ne _ _ (Ne.symm same)]
    | rated here => rw [count_set_list (RulesList.count_at_calc_delta platform _ _ c k)]; simp [packets_of]
    | checked here => rw [count_set_list (RulesList.count_at_check_triggers platform _ _ c k)]; simp [packets_of]
    | copied here => exact absurd here (elsewhere _ _)
    | _ => simp [packets_of]
  | console => exact receives.elim
  | missing => exact receives.elim
  | reload idle => exact receives.elim
  | load loaded => exact receives.elim

/-- What a run without edits comes to. -/
structure Sharded (init : Daemon) (labels : List Label) (s : Daemon) : Prop where
  sync : InSync s
  no_copy : ∀ i p, s.pc ≠ .copy i p
  running : s.pc ≠ .terminated
  main : ∀ p, (s.main.list p).entered = (init.main.list p).entered
  totals : ∀ p c k,
    total s p c k = total init p c k + ((labels.flatMap (packets_of p)).map ((init.main.list p).growth c k)).sum

theorem sharded_step {init : Daemon} {labels : List Label} (moved : Stepped platform s a s') (receives : Receives a)
    (sharded : Sharded init labels s) : Sharded init (labels ++ [a]) s' where
  sync := inSync_step moved receives sharded.sync sharded.no_copy
  no_copy := not_copying_step moved (fun i p c _ thread => (sharded.sync i c thread p).1) sharded.no_copy
  running := running_step moved sharded.running fun i p c _ thread =>
    (RulesList.length_of_eq (sharded.sync i c thread p).1).symm
  main p := (main_frame moved (receives_unwritten receives p)).trans (sharded.main p)
  totals p c k := by
    have growth : (s.main.list p).growth c k = (init.main.list p).growth c k :=
      funext (RulesList.growth_entered (sharded.main p) c k)
    rw [total_step moved receives sharded.sync sharded.no_copy,sharded.totals,growth]
    simp [UInt64.add_assoc]

/-- Threads in sync have nothing to copy in a pass. -/
theorem inSync_ne (sync : InSync s) {c : RulesCollection} (member : c ∈ s.threads) : c.ne s.main = false := by
  obtain ⟨j,found⟩ := List.getElem?_of_mem member
  exact (RulesCollection.ne_eq_false_iff c s.main).mpr fun p => (sync j c found p).1

/-- Without edits and reloads, from threads in sync: no copy is ever made and no merge
    throws; main and the threads together count what any one list of the same rules
    counts for the same packets in any order; and a pass over the threads, in any
    order, leaves all of it in main. -/
theorem sharding_invisible (platform : Platform) {init s : Daemon} {labels : List Label}
    (start : init.pc = init.visit 0) (in_sync : InSync init)
    (run : Runs.Run (step platform) (fun _ a => Receives a) init labels s) :
    (∀ i p, s.pc ≠ .copy i p) ∧ s.pc ≠ .terminated ∧ ∀ p c k,
      (∀ (reference : RulesList (Fields p)) (packets : List (Packet (Header p))),
        RulesList.Alike reference (init.main.list p) → packets.Perm (labels.flatMap (packets_of p)) →
        total s p c k = total init p c k +
          ((reference.feed packets).count_at c k - reference.count_at c k)) ∧
      ∀ (now : Nat → Proto → time_point) (threads : List RulesCollection), threads.Perm s.threads →
        ∃ main' threads', sync_pass now s.main threads = .ok (main',threads') ∧
          (main'.list p).count_at c k = total s p c k := by
  have first : Sharded init [] init :=
    ⟨in_sync,start ▸ visit_not_copy init 0,start ▸ visit_running init 0,fun _ => rfl,fun p c k => by simp⟩
  have sharded : Sharded init labels s :=
    run.invariant_labels first fun labels s a s' sharded receives taken => sharded_step (stepped taken) receives sharded
  refine ⟨sharded.no_copy,sharded.running,fun p c k => ⟨fun reference packets alike same => ?_,
    fun now threads same => ?_⟩⟩
  · have growth : reference.growth c k = (init.main.list p).growth c k :=
      funext (RulesList.growth_alike alike c k)
    rw [sharded.totals,RulesList.count_at_feed,growth,(same.map _).sum_eq]
    grind
  · obtain ⟨main',threads',passed,_,_,counts⟩ := sync_pass_spec now s.main threads
    refine ⟨main',threads',passed,?_⟩
    rw [counts p c k,fold_in_sync threads s.main p c k _ fun d member => inSync_ne sharded.sync (same.mem_iff.mp member)]
    rw [total,threads_count,threads_count,(same.map _).sum_eq]

theorem sample_inSync : InSync sample_daemon := by
  intro j c found p
  have member : c ∈ [tcp_collection [sample_rule]] := List.mem_of_getElem? found
  rw [List.mem_singleton.mp member]
  exact RulesList.alike_self _

/-- Two threads with the sample rule. -/
def two_shards : Daemon :=
  start (tcp_collection [sample_rule]) [tcp_collection [sample_rule],tcp_collection [sample_rule]] 0

theorem two_shards_inSync : InSync two_shards := by
  intro j c found p
  have member : c ∈ [tcp_collection [sample_rule],tcp_collection [sample_rule]] := List.mem_of_getElem? found
  have copy : c = tcp_collection [sample_rule] := by simpa using member
  rw [copy]
  exact RulesList.alike_self _

def longer_packet : Packet tcphdr := { sample_packet with len := 60 }

/-- Packets to the two threads, the last of them after the watcher has taken over what the
    first thread has counted. -/
def shard_labels : List Label :=
  [.packet 0 .TCP sample_packet,.packet 1 .TCP longer_packet] ++ List.replicate 5 (tick 1) ++ [.packet 0 .TCP sample_packet]

/-- The packets in another order, and a pass over the threads in the other order. -/
theorem sharding_invisible_two : ∃ s,
    Runs.Run (step documented) (fun _ a => Receives a) two_shards shard_labels s ∧
    total s .TCP .bytes 0 = total two_shards .TCP .bytes 0 +
      (((two_shards.main.list .TCP).feed [sample_packet,sample_packet,longer_packet]).count_at .bytes 0 -
        (two_shards.main.list .TCP).count_at .bytes 0) ∧
    ∃ main' threads', sync_pass (fun _ _ => 3) s.main s.threads.reverse = .ok (main',threads') ∧
      (main'.list .TCP).count_at .bytes 0 = total s .TCP .bytes 0 := by
  obtain ⟨s,reached⟩ : ∃ s, Runs.runFrom (step documented) two_shards shard_labels = some s := ⟨_,rfl⟩
  have run : Runs.Run (step documented) (fun _ a => Receives a) two_shards shard_labels s := by
    refine .of_runFrom_free (fun a member _ => ?_) reached
    simp only [shard_labels,List.mem_append,List.mem_cons,List.mem_replicate,List.not_mem_nil,or_false] at member
    rcases member with ((rfl | rfl) | ⟨_,rfl⟩) | rfl <;> trivial
  obtain ⟨_,_,counts⟩ := sharding_invisible documented rfl two_shards_inSync run
  obtain ⟨together,passes⟩ := counts .TCP .bytes 0
  have packets : shard_labels.flatMap (packets_of .TCP) = [sample_packet,longer_packet,sample_packet] := rfl
  have order : [sample_packet,sample_packet,longer_packet].Perm (shard_labels.flatMap (packets_of .TCP)) :=
    packets ▸ (List.Perm.swap longer_packet sample_packet []).cons sample_packet
  exact ⟨s,run,together _ _ (RulesList.alike_self _) order,passes (fun _ _ => 3) _ (List.reverse_perm _)⟩

end Daemon
end DdosDetector
