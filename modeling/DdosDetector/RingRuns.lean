import DdosDetector.ReceiveLoop
import DdosDetector.Runs

/-!
A thread of `netmap_thread` and the kernel on one ring, over whole runs. The kernel
learns of the slots that the thread has released, and of their flags, only in a system
call; until then they are not written. The invariant counts the packets: those that the
kernel has taken back, those that the thread has checked, and those it was handed, in the
order of the ring.
-/
namespace DdosDetector.NetmapReceiver
open Rings (place places)
open Runs (Run recorded)

/-! ### Packets -/

/-- A packet, by its length and the bytes of its buffer. -/
structure Frame where
  len : UInt32
  bytes : List UInt8
deriving DecidableEq

/-- The bytes from the first of the packet on. -/
def Frame.packet (frame : Frame) : Memory := fun i => frame.bytes.getD i 0

def frame_at (memory : Int → UInt8) (nr_buf_size : UInt32) (buf : Int) (len : UInt32) : Frame :=
  ⟨len,(List.range nr_buf_size.toNat).map (bytes_from memory buf)⟩

/-- The packet of a slot, and if the slot is marked. -/
def slot_frame (r : netmap_ring) (memory : Int → UInt8) (i : UInt32) : Frame × Bool :=
  (frame_at memory r.nr_buf_size (NETMAP_BUF r (r.slot i).buf_idx) (r.slot i).len.toUInt32,
    decide ((r.slot i).flags &&& NS_FORWARD ≠ 0))

/-- What `check_packet` reads of a packet lies in its first 90 bytes. -/
theorem check_packet_agree {packet packet' : Memory} (agree : ∀ i < 90, packet' i = packet i) (collect : RulesCollection)
    (len : UInt32) : check_packet packet' collect len = check_packet packet collect len := by
  obtain ⟨most,size⟩ : ∃ most : UInt32, most.toNat = 90 := ⟨90,rfl⟩
  have within (p : Proto) : 14 + size_ip packet + header_size p ≤ 90 := by
    have nibble : (ip_hl packet).toNat ≤ 15 := by
      rw [ip_hl,UInt8.toNat_and]
      exact Nat.and_le_right
    have last : header_size p ≤ 16 := by cases p <;> decide
    rw [size_ip]
    omega
  have covered : Covered 90 packet :=
    ⟨by omega,fun _ => ⟨by omega,fun _ => by omega⟩,fun p _ => ⟨by omega,within p⟩⟩
  rw [check_packet_eq,check_packet_eq,announced_covered covered agree]
  cases announced packet with
  | none => rw [Option.map_none,Option.map_none]
  | some p =>
    have same : read_packet packet' most p = read_packet packet most p :=
      read_packet_covered (by omega) (size ▸ within p) (by rwa [size])
    have same_read : read_packet packet' len p = read_packet packet len p :=
      congrArg (fun read : Packet (Header p) => { read with len := len }) same
    rw [Option.map_some,Option.map_some,check_proto,check_proto,same_read]

theorem check_packet_frame (memory : Int → UInt8) {nr_buf_size : UInt32} (room : 90 ≤ nr_buf_size) (buf : Int)
    (collect : RulesCollection) (len : UInt32) :
    check_packet (frame_at memory nr_buf_size buf len).packet collect len =
      check_packet (bytes_from memory buf) collect len := by
  refine check_packet_agree (fun i inside => ?_) collect len
  have below : i < nr_buf_size.toNat := inside.trans_le room
  simp [Frame.packet,frame_at,below]

/-! ### The machine -/

/-- Where `netmap_thread` is: at its interruption point, in the loop over the packets, or
    past `nm_close`. -/
inductive Stage
  | polling
  | receiving
  | closed
deriving DecidableEq

/-- A thread, with the memory that it shares with the kernel and the `head` that the
    kernel has seen last. -/
structure Thread where
  poller : NetmapPoller
  memory : Int → UInt8
  released : UInt32
  stage : Stage

/-- A call of `check_packet`, by the packet, the rules that it went by and its result. -/
structure Check where
  frame : Frame
  collect : RulesCollection
  accepted : Bool

/-- The packets that the kernel has handed over and those it has passed on to the host
    stack, and what the thread has checked. -/
structure Traffic where
  handed : List (Frame × Bool)
  checks : List Check
  passed : List Frame

namespace Thread

/-- The kernel writes to what it owns; an interruption arrives; `poll` returns, after
    which `slot`, `memory` and `tail` are what the kernel has made of them; one round of
    the loop over the packets, before which the rules are `collect`. -/
inductive Label
  | write (slot : UInt32 → netmap_slot) (memory : Int → UInt8)
  | interrupt
  | poll (poll_result : Int) (slot : UInt32 → netmap_slot) (memory : Int → UInt8) (tail : UInt32)
  | round (collect : RulesCollection)

/-- `NetmapPoller::try_poll` by the result of `poll`; `none` where it throws. -/
def try_poll (poll_result : Int) : Option Bool :=
  if poll_result = 0 then some false else if poll_result = -1 then none else some true

/-- What the kernel writes. -/
def written (s : Thread) (slot : UInt32 → netmap_slot) (memory : Int → UInt8) : Thread :=
  { s with poller := { s.poller with rxring_ := { s.poller.rxring_ with slot := slot } }, memory := memory }

/-- What a system call leaves: the kernel has seen `head`, and set `tail`. -/
def synced (s : Thread) (slot : UInt32 → netmap_slot) (memory : Int → UInt8) (tail : UInt32) : Thread :=
  { s with
    poller := { s.poller with rxring_ := { s.poller.rxring_ with slot := slot, tail := tail } }
    memory := memory
    released := s.poller.rxring_.head }

/-- A round of the loop in `netmap_thread`. -/
def receive (thread_number : Int) (collect : RulesCollection) (s : Thread) : Option Receiving :=
  receive_round s.memory (fun _ _ => collect) thread_number ⟨s.poller,collect,[]⟩

def step (thread_number : Int) : Label → Thread → Option Thread
  | .write slot memory, s => if s.stage = .closed then none else some (s.written slot memory)
  | .interrupt, s => if s.stage = .polling then some { s with stage := .closed } else none
  | .poll poll_result slot memory tail, s =>
    if s.stage = .polling then
      match try_poll poll_result with
      | none => some { s with stage := .closed }
      | some ready => some { s.synced slot memory tail with stage := if ready then .receiving else .polling }
    else none
  | .round collect, s =>
    if s.stage = .receiving then
      match s.receive thread_number collect with
      | some round => some { s with poller := round.poller }
      | none => some { s with poller := receive_end ⟨s.poller,collect,[]⟩, stage := .polling }
    else none

/-- The slots from one index to the one before another. -/
def window (r : netmap_ring) (first last : UInt32) : List UInt32 :=
  (places r.num_slots.toNat first.toNat last.toNat).map UInt32.ofNat

/-- The packets that the kernel passes to the host stack in a system call: those of the
    slots released since the last one that are marked, where the ring allows it. -/
def passing (s : Thread) : List Frame :=
  if s.poller.rxring_.flags &&& NR_FORWARD = 0 then []
  else (((window s.poller.rxring_ s.released s.poller.rxring_.head).map
    (slot_frame s.poller.rxring_ s.memory)).filter Prod.snd).map Prod.fst

/-- What a step adds to the traffic. -/
def observe (thread_number : Int) : Label → Thread → Traffic → Traffic
  | .poll poll_result slot memory tail, s, h =>
    if try_poll poll_result = none then h
    else
      { h with
        handed := h.handed ++ (window s.poller.rxring_ s.poller.rxring_.tail tail).map
          (slot_frame (s.synced slot memory tail).poller.rxring_ memory)
        passed := h.passed ++ s.passing }
  | .round collect, s, h =>
    match s.receive thread_number collect with
    | none => h
    | some round =>
      { h with checks := h.checks ++ round.calls.map fun call =>
          ⟨frame_at s.memory s.poller.rxring_.nr_buf_size call.buf call.len,collect,call.accepted⟩ }
  | _, _, h => h

/-- The kernel leaves the slots of a window and their buffers alone. -/
def Kept (r : netmap_ring) (memory : Int → UInt8) (owned : List UInt32) (slot : UInt32 → netmap_slot)
    (memory' : Int → UInt8) : Prop :=
  ∀ i ∈ owned, slot i = r.slot i ∧ ∀ k : Nat, k < r.nr_buf_size.toNat →
    memory' (NETMAP_BUF r (r.slot i).buf_idx + k) = memory (NETMAP_BUF r (r.slot i).buf_idx + k)

/-- What the kernel promises: between system calls it keeps the slots that it has not
    taken back; a system call takes back those before `head`, keeps those from there to
    `tail`, and moves `tail` on, at most to the slot before `head`. -/
def Contract (sh : Thread × Traffic) : Label → Prop
  | .write slot memory =>
    Kept sh.1.poller.rxring_ sh.1.memory (window sh.1.poller.rxring_ sh.1.released sh.1.poller.rxring_.tail) slot memory
  | .poll _ slot memory tail =>
    Kept sh.1.poller.rxring_ sh.1.memory (window sh.1.poller.rxring_ sh.1.poller.rxring_.head sh.1.poller.rxring_.tail)
      slot memory ∧ tail < sh.1.poller.rxring_.num_slots ∧
    Rings.distance sh.1.poller.rxring_.num_slots.toNat sh.1.poller.rxring_.head.toNat sh.1.poller.rxring_.tail.toNat ≤
      Rings.distance sh.1.poller.rxring_.num_slots.toNat sh.1.poller.rxring_.head.toNat tail.toNat
  | _ => True

/-- The thread before its first `poll`, the ring as it was opened. -/
def start (r : netmap_ring) (memory : Int → UInt8) : Thread := ⟨⟨0,0,r⟩,memory,r.head,.polling⟩

/-! ### What a step can be -/

/-- What a round leaves of the poller, where a packet waits. -/
structure Taken (thread_number : Int) (collect : RulesCollection) (s : Thread) (accepted : Bool) (poller : NetmapPoller) :
    Prop where
  waiting : s.poller.rxring_.cur ≠ s.poller.rxring_.tail
  result : (check_packet
    (bytes_from s.memory (NETMAP_BUF s.poller.rxring_ (s.poller.rxring_.slot s.poller.rxring_.cur).buf_idx)) collect
    (s.poller.rxring_.slot s.poller.rxring_.cur).len.toUInt32).2 = accepted
  frame : poller.rxring_.buf_ofs = s.poller.rxring_.buf_ofs ∧ poller.rxring_.num_slots = s.poller.rxring_.num_slots ∧
    poller.rxring_.nr_buf_size = s.poller.rxring_.nr_buf_size ∧ poller.rxring_.tail = s.poller.rxring_.tail
  cur : poller.rxring_.cur = nm_ring_next s.poller.rxring_ s.poller.rxring_.cur
  head : poller.rxring_.head = poller.rxring_.cur
  flags : poller.rxring_.flags &&& NR_FORWARD ≠ 0
  slot : ∀ j, poller.rxring_.slot j =
    if j = s.poller.rxring_.cur ∧ thread_number = 0 ∧ accepted = true then
      NetmapPoller.forwarded (s.poller.rxring_.slot j)
    else s.poller.rxring_.slot j

inductive Stepped (thread_number : Int) (s : Thread) (h : Traffic) : Label → Thread → Traffic → Prop
  | write (slot : UInt32 → netmap_slot) (memory : Int → UInt8) :
      Stepped thread_number s h (.write slot memory) (s.written slot memory) h
  | interrupt : Stepped thread_number s h .interrupt { s with stage := .closed } h
  | failed {poll_result : Int} {slot : UInt32 → netmap_slot} {memory : Int → UInt8} {tail : UInt32} :
      Stepped thread_number s h (.poll poll_result slot memory tail) { s with stage := .closed } h
  | poll {poll_result : Int} (slot : UInt32 → netmap_slot) (memory : Int → UInt8) (tail : UInt32) (stage : Stage) :
      Stepped thread_number s h (.poll poll_result slot memory tail) { s.synced slot memory tail with stage := stage }
        { h with
          handed := h.handed ++ (window s.poller.rxring_ s.poller.rxring_.tail tail).map
            (slot_frame (s.synced slot memory tail).poller.rxring_ memory)
          passed := h.passed ++ s.passing }
  | round {collect : RulesCollection} {accepted : Bool} {poller : NetmapPoller}
      (taken : Taken thread_number collect s accepted poller) :
      Stepped thread_number s h (.round collect) { s with poller := poller }
        { h with checks := h.checks ++
          [⟨(slot_frame s.poller.rxring_ s.memory s.poller.rxring_.cur).1,collect,accepted⟩] }
  | drained {collect : RulesCollection} (empty : s.poller.rxring_.cur = s.poller.rxring_.tail) :
      Stepped thread_number s h (.round collect)
        { s with poller := receive_end ⟨s.poller,collect,[]⟩, stage := .polling } h

theorem or_and_self (x m : UInt32) : (x ||| m) &&& m = m := by
  refine UInt32.toBitVec_inj.mp (BitVec.eq_of_getLsbD_eq fun i _ => ?_)
  simp only [UInt32.toBitVec_and,UInt32.toBitVec_or,BitVec.getLsbD_and,BitVec.getLsbD_or]
  cases x.toBitVec.getLsbD i <;> cases m.toBitVec.getLsbD i <;> rfl

theorem receive_flags {memory : Int → UInt8} {others : Nat → RulesCollection → RulesCollection} {thread_number : Int}
    {s s' : Receiving} (taken : receive_round memory others thread_number s = some s') :
    s'.poller.rxring_.flags &&& NR_FORWARD ≠ 0 := by
  have set : (s.poller.rxring_.flags ||| NR_FORWARD ||| NR_TIMESTAMP) &&& NR_FORWARD ≠ 0 := by
    rw [UInt32.or_assoc,UInt32.or_comm NR_FORWARD,← UInt32.or_assoc,or_and_self]
    decide
  have busy : nm_ring_empty { s.poller.rxring_ with
      flags := s.poller.rxring_.flags ||| NR_FORWARD ||| NR_TIMESTAMP } = false := by
    refine Bool.eq_false_iff.mpr fun empty => ?_
    cases taken.symm.trans (receive_round_none_iff.mpr (of_decide_eq_true empty))
  simp only [receive_round,NetmapPoller.get_buff_from_ring,busy,Bool.false_eq_true,↓reduceIte] at taken
  obtain rfl := Option.some.inj taken
  dsimp only
  split_ifs <;> exact set

theorem receive_taken {thread_number : Int} {collect : RulesCollection} {s : Thread}
    (waiting : s.poller.rxring_.cur ≠ s.poller.rxring_.tail) :
    ∃ accepted round, s.receive thread_number collect = some round ∧
      Taken thread_number collect s accepted round.poller ∧
      round.calls = [⟨NETMAP_BUF s.poller.rxring_ (s.poller.rxring_.slot s.poller.rxring_.cur).buf_idx,
        (s.poller.rxring_.slot s.poller.rxring_.cur).len.toUInt32,accepted⟩] := by
  obtain ⟨round,taken,does⟩ := receive_round_eq (s := ⟨s.poller,collect,[]⟩) s.memory (fun _ _ => collect) thread_number waiting
  have calls := congrArg Prod.snd does.checked
  rw [check_slot_calls] at calls
  exact ⟨_,round,taken,⟨waiting,rfl,does.frame,does.cur,does.head,receive_flags taken,does.slot⟩,calls⟩

theorem stepped {thread_number : Int} {a : Label} {s s' : Thread} {h h' : Traffic}
    (taken : recorded (step thread_number) (observe thread_number) a (s,h) = some (s',h')) :
    Stepped thread_number s h a s' h' := by
  obtain ⟨moved,rfl⟩ := Runs.recorded_eq_some.mp taken
  cases a with
  | write slot memory =>
    simp only [step] at moved
    split_ifs at moved
    exact Option.some.inj moved ▸ .write slot memory
  | interrupt =>
    simp only [step] at moved
    split_ifs at moved
    exact Option.some.inj moved ▸ .interrupt
  | poll poll_result slot memory tail =>
    simp only [step] at moved
    split_ifs at moved
    simp only [observe]
    cases result : try_poll poll_result with
    | none =>
      rw [result] at moved
      exact Option.some.inj moved ▸ .failed
    | some ready =>
      rw [result] at moved
      exact Option.some.inj moved ▸ .poll slot memory tail _
  | round collect =>
    simp only [step] at moved
    split_ifs at moved
    simp only [observe]
    by_cases empty : s.poller.rxring_.cur = s.poller.rxring_.tail
    · have ended : s.receive thread_number collect = none := receive_round_none_iff.mpr empty
      rw [ended] at moved ⊢
      exact Option.some.inj moved ▸ .drained empty
    · obtain ⟨accepted,round,found,taken,calls⟩ := @receive_taken thread_number collect s empty
      rw [found] at moved ⊢
      simp only [calls]
      exact Option.some.inj moved ▸ .round taken

/-! ### The slots in the order in which they are handed over -/

/-- The slot after so many from the first one of a ring. -/
def slot_at (r : netmap_ring) (k : Nat) : UInt32 := UInt32.ofNat (place r.num_slots.toNat r.cur.toNat k)

theorem slot_at_toNat {r : netmap_ring} (inside : r.cur < r.num_slots) (k : Nat) :
    (slot_at r k).toNat = place r.num_slots.toNat r.cur.toNat k := toNat_place inside k

theorem slot_at_inj {r : netmap_ring} (inside : r.cur < r.num_slots) {j k : Nat} (before : j ≤ k)
    (turn : k - j < r.num_slots.toNat) (same : slot_at r j = slot_at r k) : j = k := by
  have places := congrArg UInt32.toNat same
  rw [slot_at_toNat inside,slot_at_toNat inside] at places
  exact Rings.place_inj_between before turn places

theorem window_between {r r' : netmap_ring} (inside : r.cur < r.num_slots) (size : r'.num_slots = r.num_slots) {j k : Nat}
    (before : j ≤ k) (turn : k - j < r.num_slots.toNat) :
    window r' (slot_at r j) (slot_at r k) = (List.range' j (k - j)).map (slot_at r) := by
  rw [window,slot_at_toNat inside,slot_at_toNat inside,size,Rings.places_between before turn,List.map_map]
  rfl

theorem mem_window {r r' : netmap_ring} (inside : r.cur < r.num_slots) (size : r'.num_slots = r.num_slots) {j k i : Nat}
    (from_first : j ≤ i) (before_last : i < k) (turn : k - j < r.num_slots.toNat) :
    slot_at r i ∈ window r' (slot_at r j) (slot_at r k) := by
  rw [window_between inside size (from_first.trans before_last.le) turn]
  exact List.mem_map_of_mem (List.mem_range'_1.mpr ⟨from_first,by omega⟩)

theorem nm_ring_next_slot_at {r r' : netmap_ring} (inside : r.cur < r.num_slots) (size : r'.num_slots = r.num_slots) (k : Nat) :
    nm_ring_next r' (slot_at r k) = slot_at r (k + 1) := by
  have some_slot : 0 < r.num_slots.toNat := Nat.zero_lt_of_lt inside
  have below : slot_at r k < r'.num_slots := by
    rw [size,UInt32.lt_iff_toNat_lt,slot_at_toNat inside]
    exact Rings.place_lt some_slot k
  refine UInt32.toNat_inj.mp ?_
  rw [nm_ring_next_toNat below,slot_at_toNat inside,size,slot_at_toNat inside,Rings.place_succ some_slot]

/-- The slot that is so far behind another one. -/
theorem slot_at_distance {r : netmap_ring} (inside : r.cur < r.num_slots) {k : Nat} {i : UInt32} (below : i < r.num_slots) :
    slot_at r (k + Rings.distance r.num_slots.toNat (slot_at r k).toNat i.toNat) = i := by
  have some_slot : 0 < r.num_slots.toNat := Nat.zero_lt_of_lt inside
  refine UInt32.toNat_inj.mp ?_
  rw [slot_at_toNat inside,← Rings.place_place,slot_at_toNat inside]
  exact Rings.place_distance (Rings.place_lt some_slot k) below

/-! ### What becomes of the packets -/

/-- What has become of the packets that were checked: each of them, and if it goes to the
    host stack. -/
def outcomes (thread_number : Int) (h : Traffic) : List (Frame × Bool) :=
  List.zipWith (fun given check => (given.1,given.2 || (decide (thread_number = 0) && check.accepted))) h.handed h.checks

/-- The same, with the packets that wait to be checked as they were handed over. -/
def held (thread_number : Int) (h : Traffic) : List (Frame × Bool) :=
  outcomes thread_number h ++ h.handed.drop h.checks.length

/-- Where the thread and the kernel are: `back` slots are back with the kernel. -/
structure Following (thread_number : Int) (r : netmap_ring) (s : Thread) (h : Traffic) (back : Nat) : Prop where
  frame : s.poller.rxring_.buf_ofs = r.buf_ofs ∧ s.poller.rxring_.num_slots = r.num_slots ∧
    s.poller.rxring_.nr_buf_size = r.nr_buf_size
  released : s.released = slot_at r back
  cur : s.poller.rxring_.cur = slot_at r h.checks.length
  head : s.poller.rxring_.head = slot_at r h.checks.length
  tail : s.poller.rxring_.tail = slot_at r h.handed.length
  order : back ≤ h.checks.length ∧ h.checks.length ≤ h.handed.length ∧ h.handed.length - back < r.num_slots.toNat
  checked : h.checks.map Check.frame = (h.handed.map Prod.fst).take h.checks.length
  results : ∀ check ∈ h.checks, (check_packet check.frame.packet check.collect check.frame.len).2 = check.accepted
  holds : ∀ j, back ≤ j → j < h.handed.length →
    (held thread_number h)[j]? = some (slot_frame s.poller.rxring_ s.memory (slot_at r j))
  forwards : back < h.checks.length → s.poller.rxring_.flags &&& NR_FORWARD ≠ 0
  passed : h.passed = (((outcomes thread_number h).take back).filter Prod.snd).map Prod.fst

section
variable {thread_number : Int} {r : netmap_ring} {s s' : Thread} {h h' : Traffic} {back : Nat}

theorem outcomes_length (order : h.checks.length ≤ h.handed.length) : (outcomes thread_number h).length = h.checks.length := by
  rw [outcomes,List.length_zipWith,Nat.min_eq_right order]

theorem outcomes_take (order : h.checks.length ≤ h.handed.length) : outcomes thread_number h =
    List.zipWith (fun given check => (given.1,given.2 || (decide (thread_number = 0) && check.accepted)))
      (h.handed.take h.checks.length) h.checks := by
  rw [outcomes]
  conv_lhs => rw [List.zipWith_eq_zipWith_take_min,Nat.min_eq_right order,List.take_length]

theorem outcomes_handed (order : h.checks.length ≤ h.handed.length) (more : List (Frame × Bool)) (passed : List Frame) :
    outcomes thread_number { h with handed := h.handed ++ more, passed := passed } = outcomes thread_number h := by
  have order' : h.checks.length ≤ (h.handed ++ more).length := by
    rw [List.length_append]
    omega
  rw [outcomes_take order,outcomes_take order']
  dsimp only
  rw [List.take_append_of_le_length order]

theorem held_handed (order : h.checks.length ≤ h.handed.length) (more : List (Frame × Bool)) (passed : List Frame) :
    held thread_number { h with handed := h.handed ++ more, passed := passed } = held thread_number h ++ more := by
  rw [held,outcomes_handed order,held,List.append_assoc,List.drop_append_of_le_length order]

theorem held_length (order : h.checks.length ≤ h.handed.length) : (held thread_number h).length = h.handed.length := by
  rw [held,List.length_append,outcomes_length order,List.length_drop]
  omega

theorem outcomes_checked {given : Frame × Bool} (here : h.handed[h.checks.length]? = some given) (check : Check) :
    outcomes thread_number { h with checks := h.checks ++ [check] } =
      outcomes thread_number h ++ [(given.1,given.2 || (decide (thread_number = 0) && check.accepted))] := by
  have before := (List.getElem?_eq_some_iff.mp here).1
  have order' : (h.checks ++ [check]).length ≤ h.handed.length := by
    rw [List.length_append,List.length_singleton]
    exact before
  have lengths : (h.handed.take h.checks.length).length = h.checks.length := List.length_take_of_le before.le
  rw [outcomes_take before.le,outcomes_take order',List.length_append,List.length_singleton,List.take_add_one,here,
    Option.toList_some,List.zipWith_append lengths]
  rfl

/-- A round replaces the packet that was waiting by what has become of it. -/
theorem held_checked {given : Frame × Bool} (here : h.handed[h.checks.length]? = some given) (check : Check) :
    held thread_number { h with checks := h.checks ++ [check] } = (held thread_number h).set h.checks.length
      (given.1,given.2 || (decide (thread_number = 0) && check.accepted)) := by
  have before := (List.getElem?_eq_some_iff.mp here).1
  have first : h.handed.drop h.checks.length = given :: h.handed.drop (h.checks.length + 1) := by
    rw [List.drop_eq_getElem_cons before,(List.getElem?_eq_some_iff.mp here).2]
  rw [held,held,outcomes_checked here,first,List.set_append_right _ _ (outcomes_length before.le).le,
    outcomes_length before.le,Nat.sub_self,List.set_cons_zero,List.append_assoc,List.length_append,List.length_singleton]
  rfl

/-! ### A step keeps the count -/

theorem slot_frame_congr {r r' : netmap_ring} {memory memory' : Int → UInt8} {i : UInt32}
    (frame : r'.buf_ofs = r.buf_ofs ∧ r'.nr_buf_size = r.nr_buf_size) (slot : r'.slot i = r.slot i)
    (kept : ∀ k : Nat, k < r.nr_buf_size.toNat →
      memory' (NETMAP_BUF r (r.slot i).buf_idx + k) = memory (NETMAP_BUF r (r.slot i).buf_idx + k)) :
    slot_frame r' memory' i = slot_frame r memory i := by
  have buffer : NETMAP_BUF r' (r.slot i).buf_idx = NETMAP_BUF r (r.slot i).buf_idx := by
    rw [NETMAP_BUF,NETMAP_BUF,frame.1,frame.2]
  have bytes : (List.range r.nr_buf_size.toNat).map (bytes_from memory' (NETMAP_BUF r (r.slot i).buf_idx)) =
      (List.range r.nr_buf_size.toNat).map (bytes_from memory (NETMAP_BUF r (r.slot i).buf_idx)) :=
    List.map_congr_left fun k member => kept k (List.mem_range.mp member)
  simp only [slot_frame,frame_at,slot,frame.2,buffer,bytes]

theorem Following.written (inside : r.cur < r.num_slots) (following : Following thread_number r s h back)
    {slot : UInt32 → netmap_slot} {memory : Int → UInt8}
    (kept : Kept s.poller.rxring_ s.memory (window s.poller.rxring_ s.released s.poller.rxring_.tail) slot memory) :
    Following thread_number r (s.written slot memory) h back := by
  refine { following with holds := fun j from_back before => ?_ }
  have member : slot_at r j ∈ window s.poller.rxring_ s.released s.poller.rxring_.tail := by
    rw [following.released,following.tail]
    exact mem_window inside following.frame.2.1 from_back before following.order.2.2
  obtain ⟨same,buffer⟩ := kept _ member
  have unchanged : slot_frame (s.written slot memory).poller.rxring_ memory (slot_at r j) =
      slot_frame s.poller.rxring_ s.memory (slot_at r j) := slot_frame_congr ⟨rfl,rfl⟩ same buffer
  rw [following.holds j from_back before]
  exact congrArg some unchanged.symm

/-- What the kernel takes back in a system call is what has become of the packets that were
    checked since the last one. -/
theorem Following.passing_eq (inside : r.cur < r.num_slots) (following : Following thread_number r s h back) :
    s.passing = (((outcomes thread_number h).drop back).filter Prod.snd).map Prod.fst := by
  obtain ⟨order,order',turn⟩ := following.order
  have released : (window s.poller.rxring_ s.released s.poller.rxring_.head).map (slot_frame s.poller.rxring_ s.memory) =
      (outcomes thread_number h).drop back := by
    rw [following.released,following.head,window_between inside following.frame.2.1 order (by omega),List.map_map]
    refine List.ext_getElem? fun j => ?_
    rw [List.getElem?_drop]
    by_cases before : j < h.checks.length - back
    · have here := following.holds (back + j) (by omega) (by omega)
      rw [held,List.getElem?_append_left (by rw [outcomes_length order']; omega)] at here
      rw [here]
      simp [before]
    · rw [List.getElem?_eq_none (by simpa using before),List.getElem?_eq_none (by rw [outcomes_length order']; omega)]
  unfold passing
  split_ifs with off
  · have none_checked : h.checks.length ≤ back := by
      by_contra some_checked
      exact following.forwards (by omega) off
    rw [List.drop_eq_nil_of_le (by rw [outcomes_length order']; exact none_checked)]
    rfl
  · rw [released]

/-- A system call takes back what has been checked and hands over what `tail` moves past. -/
theorem Following.polled (inside : r.cur < r.num_slots) (following : Following thread_number r s h back)
    {slot : UInt32 → netmap_slot} {memory : Int → UInt8} {tail : UInt32} {stage : Stage}
    (kept : Kept s.poller.rxring_ s.memory (window s.poller.rxring_ s.poller.rxring_.head s.poller.rxring_.tail) slot memory)
    (below : tail < s.poller.rxring_.num_slots)
    (on : Rings.distance s.poller.rxring_.num_slots.toNat s.poller.rxring_.head.toNat s.poller.rxring_.tail.toNat ≤
      Rings.distance s.poller.rxring_.num_slots.toNat s.poller.rxring_.head.toNat tail.toNat) :
    Following thread_number r { s.synced slot memory tail with stage := stage }
      { h with
        handed := h.handed ++ (window s.poller.rxring_ s.poller.rxring_.tail tail).map
          (slot_frame (s.synced slot memory tail).poller.rxring_ memory)
        passed := h.passed ++ s.passing } h.checks.length := by
  obtain ⟨order,order',turn⟩ := following.order
  have some_slot : 0 < r.num_slots.toNat := Nat.zero_lt_of_lt inside
  -- the count of the packets that are handed over when `tail` stands where the call sets it
  obtain ⟨last,at_last,more,room⟩ : ∃ last, tail = slot_at r last ∧ h.handed.length ≤ last ∧
      last - h.checks.length < r.num_slots.toNat := by
    have bound : Rings.distance r.num_slots.toNat (slot_at r h.checks.length).toNat tail.toNat < r.num_slots.toNat :=
      Rings.distance_lt some_slot
    have moved : h.handed.length - h.checks.length ≤
        Rings.distance r.num_slots.toNat (slot_at r h.checks.length).toNat tail.toNat := by
      rw [following.frame.2.1,following.head,following.tail,slot_at_toNat inside h.handed.length] at on
      rwa [slot_at_toNat inside,Rings.distance_place order' (by omega),← slot_at_toNat inside] at on
    refine ⟨h.checks.length + Rings.distance r.num_slots.toNat (slot_at r h.checks.length).toNat tail.toNat,?_,
      by omega,by omega⟩
    exact (slot_at_distance inside (following.frame.2.1 ▸ below)).symm
  have handed : (window s.poller.rxring_ s.poller.rxring_.tail tail).map
      (slot_frame (s.synced slot memory tail).poller.rxring_ memory) =
      (List.range' h.handed.length (last - h.handed.length)).map fun j =>
        slot_frame (s.synced slot memory tail).poller.rxring_ memory (slot_at r j) := by
    rw [following.tail,at_last,window_between inside following.frame.2.1 more (by omega),List.map_map]
    rfl
  have count : (h.handed ++ (window s.poller.rxring_ s.poller.rxring_.tail tail).map
      (slot_frame (s.synced slot memory tail).poller.rxring_ memory)).length = last := by
    rw [handed,List.length_append,List.length_map,List.length_range']
    omega
  refine { frame := following.frame, released := following.head, cur := following.cur, head := following.head,
           tail := ?_, order := ⟨le_refl _,?_,?_⟩, checked := ?_, results := following.results, holds := ?_,
           forwards := fun behind => absurd behind (lt_irrefl _), passed := ?_ }
  · rw [count]
    exact at_last
  · rw [count]
    exact order'.trans more
  · rw [count]
    exact room
  · rw [List.map_append,List.take_append_of_le_length (by rw [List.length_map]; exact order')]
    exact following.checked
  · intro j from_back before
    rw [held_handed order']
    dsimp only at from_back before
    rw [count] at before
    by_cases waited : j < h.handed.length
    · have member : slot_at r j ∈ window s.poller.rxring_ s.poller.rxring_.head s.poller.rxring_.tail := by
        rw [following.head,following.tail]
        exact mem_window inside following.frame.2.1 from_back waited (by omega)
      obtain ⟨same,buffer⟩ := kept _ member
      have unchanged : slot_frame (s.synced slot memory tail).poller.rxring_ memory (slot_at r j) =
          slot_frame s.poller.rxring_ s.memory (slot_at r j) := slot_frame_congr ⟨rfl,rfl⟩ same buffer
      rw [List.getElem?_append_left (by rw [held_length order']; exact waited),following.holds j (by omega) waited]
      exact congrArg some unchanged.symm
    · rw [List.getElem?_append_right (by rw [held_length order']; omega),held_length order',handed,List.getElem?_map,
        List.getElem?_range' (by omega),Option.map_some,Nat.one_mul,Nat.add_sub_cancel' (by omega)]
      rfl
  · rw [outcomes_handed order',following.passing_eq inside,following.passed,← List.map_append,← List.filter_append,
      List.take_append_drop,List.take_of_length_le (outcomes_length order').le]

theorem marked_forwarded (slot : netmap_slot) : (NetmapPoller.forwarded slot).flags &&& NS_FORWARD ≠ 0 := by
  have set : (slot.flags ||| NS_FORWARD) &&& NS_FORWARD = NS_FORWARD := by
    refine UInt16.toBitVec_inj.mp (BitVec.eq_of_getLsbD_eq fun i _ => ?_)
    simp only [UInt16.toBitVec_and,UInt16.toBitVec_or,BitVec.getLsbD_and,BitVec.getLsbD_or]
    cases slot.flags.toBitVec.getLsbD i <;> cases NS_FORWARD.toBitVec.getLsbD i <;> rfl
  change (slot.flags ||| NS_FORWARD) &&& NS_FORWARD ≠ 0
  rw [set]
  decide

/-- What a round leaves of the slots: the one that it has checked, marked as it may be, and
    the others as they were. -/
theorem Taken.slot_frame_eq {collect : RulesCollection} {accepted : Bool} {poller : NetmapPoller}
    (taken : Taken thread_number collect s accepted poller) (i : UInt32) :
    slot_frame poller.rxring_ s.memory i =
      ((slot_frame s.poller.rxring_ s.memory i).1,(slot_frame s.poller.rxring_ s.memory i).2 ||
        (decide (i = s.poller.rxring_.cur) && (decide (thread_number = 0) && accepted))) := by
  have buffer : ∀ index, NETMAP_BUF poller.rxring_ index = NETMAP_BUF s.poller.rxring_ index := fun index => by
    rw [NETMAP_BUF,NETMAP_BUF,taken.frame.1,taken.frame.2.2.1]
  simp only [slot_frame,taken.slot i,buffer,taken.frame.2.2.1]
  split_ifs with here
  · obtain ⟨rfl,rfl,rfl⟩ := here
    have set := marked_forwarded (s.poller.rxring_.slot s.poller.rxring_.cur)
    refine Prod.ext rfl ((decide_eq_true set).trans ?_)
    simp
  · have unmarked : (decide (i = s.poller.rxring_.cur) && (decide (thread_number = 0) && accepted)) = false := by
      rw [Bool.eq_false_iff]
      simpa using here
    rw [unmarked,Bool.or_false]

/-- A round checks the first packet that waits. -/
theorem Following.taken (inside : r.cur < r.num_slots) (room : 90 ≤ r.nr_buf_size)
    (following : Following thread_number r s h back) {collect : RulesCollection} {accepted : Bool} {poller : NetmapPoller}
    (taken : Taken thread_number collect s accepted poller) :
    Following thread_number r { s with poller := poller }
      { h with checks := h.checks ++
        [⟨(slot_frame s.poller.rxring_ s.memory s.poller.rxring_.cur).1,collect,accepted⟩] } back := by
  obtain ⟨order,order',turn⟩ := following.order
  have before : h.checks.length < h.handed.length := by
    have different := taken.waiting
    rw [following.cur,following.tail] at different
    exact lt_of_le_of_ne order' fun same => different (congrArg (slot_at r) same)
  have here : h.handed[h.checks.length]? = some (slot_frame s.poller.rxring_ s.memory s.poller.rxring_.cur) := by
    have waits := following.holds h.checks.length order before
    rw [held,List.getElem?_append_right (outcomes_length order').le,outcomes_length order',Nat.sub_self,
      List.getElem?_drop,Nat.add_zero] at waits
    rw [waits,following.cur]
  have next : poller.rxring_.cur = slot_at r (h.checks.length + 1) := by
    rw [taken.cur,following.cur]
    exact nm_ring_next_slot_at inside following.frame.2.1 _
  refine { frame := ?_, released := following.released, cur := ?_, head := ?_, tail := ?_, order := ?_, checked := ?_,
           results := ?_, holds := ?_, forwards := fun _ => taken.flags, passed := ?_ }
  · exact ⟨taken.frame.1.trans following.frame.1,taken.frame.2.1.trans following.frame.2.1,
      taken.frame.2.2.1.trans following.frame.2.2⟩
  · rw [List.length_append,List.length_singleton]
    exact next
  · rw [List.length_append,List.length_singleton]
    exact taken.head.trans next
  · exact taken.frame.2.2.2.trans following.tail
  · rw [List.length_append,List.length_singleton]
    exact ⟨order.trans (Nat.le_succ _),before,turn⟩
  · rw [List.length_append,List.length_singleton,List.map_append,following.checked,List.take_add_one,List.getElem?_map,here]
    rfl
  · intro check member
    rw [List.mem_append,List.mem_singleton] at member
    rcases member with earlier | rfl
    · exact following.results check earlier
    · have enough : 90 ≤ s.poller.rxring_.nr_buf_size := following.frame.2.2.symm ▸ room
      exact (congrArg Prod.snd (check_packet_frame s.memory enough _ collect _)).trans taken.result
  · intro j from_back in_turn
    rw [held_checked here,List.getElem?_set,held_length order']
    have slot := taken.slot_frame_eq (slot_at r j)
    by_cases at_check : h.checks.length = j
    · obtain rfl := at_check
      rw [if_pos rfl,if_pos before,slot,← following.cur]
      simp
    · have other : slot_at r j ≠ s.poller.rxring_.cur := by
        rw [following.cur]
        intro same
        rcases Nat.le_total j h.checks.length with earlier | later
        · exact at_check (slot_at_inj inside earlier (by omega) same).symm
        · exact at_check (slot_at_inj inside later (by dsimp only at in_turn; omega) same.symm)
      rw [if_neg at_check,following.holds j from_back in_turn,slot]
      simp [other]
  · rw [outcomes_checked here,List.take_append_of_le_length (by rw [outcomes_length order']; exact order)]
    exact following.passed

theorem Following.drained (following : Following thread_number r s h back) (collect : RulesCollection) (stage : Stage) :
    Following thread_number r { s with poller := receive_end ⟨s.poller,collect,[]⟩, stage := stage } h back := by
  have ring := receive_end_ring ⟨s.poller,collect,[]⟩
  have flags : (s.poller.rxring_.flags ||| NR_FORWARD ||| NR_TIMESTAMP) &&& NR_FORWARD ≠ 0 := by
    rw [UInt32.or_assoc,UInt32.or_comm NR_FORWARD,← UInt32.or_assoc,or_and_self]
    decide
  refine { following with frame := ?_, cur := ?_, head := ?_, tail := ?_, holds := ?_, forwards := ?_ }
  · rw [ring]
    exact following.frame
  · rw [ring]
    exact following.cur
  · rw [ring]
    exact following.head
  · rw [ring]
    exact following.tail
  · rw [ring]
    exact following.holds
  · rw [ring]
    exact fun _ => flags

/-- So many slots are back with the kernel. -/
def Counted (thread_number : Int) (r : netmap_ring) (s : Thread) (h : Traffic) : Prop :=
  ∃ back, Following thread_number r s h back

theorem Following.next (inside : r.cur < r.num_slots) (room : 90 ≤ r.nr_buf_size)
    (following : Following thread_number r s h back) {a : Label} (contract : Contract (s,h) a)
    (stepped : Stepped thread_number s h a s' h') : Counted thread_number r s' h' := by
  cases stepped with
  | write slot memory => exact ⟨back,following.written inside contract⟩
  | interrupt | failed => exact ⟨back,{ following with }⟩
  | poll slot memory tail stage =>
    obtain ⟨kept,below,on⟩ := contract
    exact ⟨h.checks.length,following.polled inside kept below on⟩
  | round taken => exact ⟨back,following.taken inside room taken⟩
  | drained empty => exact ⟨back,following.drained _ _⟩

theorem Following.first (opened : r.head = r.cur ∧ r.tail = r.cur) (inside : r.cur < r.num_slots) (memory : Int → UInt8) :
    Following thread_number r (start r memory) ⟨[],[],[]⟩ 0 := by
  have here : slot_at r 0 = r.cur := UInt32.toNat_inj.mp ((slot_at_toNat inside 0).trans (Rings.place_zero inside))
  refine { frame := ⟨rfl,rfl,rfl⟩, released := ?_, cur := here.symm, head := ?_, tail := ?_, order := ⟨le_refl _,le_refl _,?_⟩,
           checked := rfl, results := ?_, holds := ?_, forwards := ?_, passed := rfl }
  · exact opened.1.trans here.symm
  · exact opened.1.trans here.symm
  · exact opened.2.trans here.symm
  · exact Nat.zero_lt_of_lt inside
  · intro check member
    cases member
  · intro j _ before
    cases before
  · intro behind
    cases behind

theorem window_pending (r : netmap_ring) : window r r.cur r.tail = pending r := by
  rw [window,Rings.places,List.map_map]
  rfl

end

/-- In every run on a ring that was opened empty, whatever the kernel writes where it may,
    the packets checked and those that wait in the ring are the packets handed over, in
    their order; every result is that of `check_packet` on the packet as it was handed
    over; and the host stack has got, in their order, the packets of the slots taken back
    that were marked already or that thread 0 has had accepted, and no other. -/
theorem packets_accounted (thread_number : Int) {r : netmap_ring} (memory : Int → UInt8) (inside : r.cur < r.num_slots)
    (opened : r.head = r.cur ∧ r.tail = r.cur) (room : 90 ≤ r.nr_buf_size) {labels : List Label} {s : Thread} {h : Traffic}
    (run : Run (recorded (step thread_number) (observe thread_number)) Contract (start r memory,⟨[],[],[]⟩) labels (s,h)) :
    h.handed.map Prod.fst = h.checks.map Check.frame ++
      (pending s.poller.rxring_).map (fun i => (slot_frame s.poller.rxring_ s.memory i).1) ∧
    (∀ check ∈ h.checks, (check_packet check.frame.packet check.collect check.frame.len).2 = check.accepted) ∧
    ∃ back due, outcomes thread_number h = back ++ due ∧
      due.length = (window s.poller.rxring_ s.released s.poller.rxring_.head).length ∧
      h.passed = (back.filter Prod.snd).map Prod.fst := by
  have first : Counted thread_number r (start r memory) ⟨[],[],[]⟩ := ⟨0,Following.first opened inside memory⟩
  have counted : Counted thread_number r s h := run.invariant_recorded first fun s h a s' earlier contract moved => by
    obtain ⟨back,following⟩ := earlier
    exact following.next inside room contract (stepped (Runs.recorded_eq_some.mpr ⟨moved,rfl⟩))
  obtain ⟨back,following⟩ := counted
  obtain ⟨order,order',turn⟩ := following.order
  refine ⟨?_,following.results,(outcomes thread_number h).take back,(outcomes thread_number h).drop back,
    (List.take_append_drop _ _).symm,?_,following.passed⟩
  · have waiting : (pending s.poller.rxring_).map (slot_frame s.poller.rxring_ s.memory) = h.handed.drop h.checks.length := by
      rw [← window_pending,following.cur,following.tail,window_between inside following.frame.2.1 order' (by omega),
        List.map_map]
      refine List.ext_getElem? fun j => ?_
      rw [List.getElem?_drop]
      by_cases before : j < h.handed.length - h.checks.length
      · have here := following.holds (h.checks.length + j) (by omega) (by omega)
        rw [held,List.getElem?_append_right (by rw [outcomes_length order']; omega),outcomes_length order',
          Nat.add_sub_cancel_left,List.getElem?_drop] at here
        rw [here]
        simp [before]
      · rw [List.getElem?_eq_none (by simpa using before),List.getElem?_eq_none (by omega)]
    have frames := congrArg (List.map Prod.fst) waiting
    rw [List.map_map,List.map_drop] at frames
    rw [following.checked]
    exact ((congrArg _ frames).trans (List.take_append_drop _ _)).symm
  · rw [List.length_drop,outcomes_length order',following.released,following.head,
      window_between inside following.frame.2.1 order (by omega),List.length_map,List.length_range']

/-- The ring of three slots before its first packet. -/
def opened_ring : netmap_ring := { wrapped_ring with tail := 2 }

/-- A system call in which no packet is the thread's. -/
def nothing_owned : Label → Thread × Traffic → Bool
  | .write _ _, _ => false
  | .poll _ _ _ tail, sh => window sh.1.poller.rxring_ sh.1.poller.rxring_.head sh.1.poller.rxring_.tail = [] ∧
      tail < sh.1.poller.rxring_.num_slots
  | _, _ => true

theorem nothing_owned_allowed (a : Label) (sh : Thread × Traffic) (allowed : nothing_owned a sh = true) : Contract sh a := by
  cases a with
  | write slot memory => cases allowed
  | interrupt | round collect => trivial
  | poll poll_result slot memory tail =>
    obtain ⟨empty,below⟩ := of_decide_eq_true allowed
    have none_between : Rings.distance sh.1.poller.rxring_.num_slots.toNat sh.1.poller.rxring_.head.toNat
        sh.1.poller.rxring_.tail.toNat = 0 := by
      simpa [window,Rings.places] using empty
    refine ⟨?_,below,none_between.symm ▸ Nat.zero_le _⟩
    rw [empty]
    intro i member
    cases member

/-- The buffer of the last slot holds a TCP packet to 10.0.0.1. -/
def one_packet (a : Int) : UInt8 :=
  match (a - 8192).toNat with
  | 12 => 8
  | 14 => 0x45
  | 23 => 6
  | 30 => 10
  | 33 => 1
  | _ => 0

/-- Two packets, one on each side of the wrap, and the call that takes them back. -/
def wrapped_labels : List Label :=
  [.poll 1 opened_ring.slot one_packet 1,.round (tcp_collection [sample_rule]),.round (tcp_collection [sample_rule]),
    .round (tcp_collection []),.poll 0 opened_ring.slot one_packet 1]

/-- The first packet is accepted, and so passed to the host stack. -/
theorem packets_accounted_wrapped : ∃ s h,
    Run (recorded (step 0) (observe 0)) Contract (start opened_ring fun _ => 0,⟨[],[],[]⟩) wrapped_labels (s,h) ∧
      h.checks.map Check.accepted = [true,false] ∧ h.passed.length = 1 ∧
      h.handed.map Prod.fst = h.checks.map Check.frame ++
        (pending s.poller.rxring_).map (fun i => (slot_frame s.poller.rxring_ s.memory i).1) ∧
      (∀ check ∈ h.checks, (check_packet check.frame.packet check.collect check.frame.len).2 = check.accepted) ∧
      ∃ back due, outcomes 0 h = back ++ due ∧
        due.length = (window s.poller.rxring_ s.released s.poller.rxring_.head).length ∧
        h.passed = (back.filter Prod.snd).map Prod.fst := by
  have outcome : (Runs.runFrom (fun a sh => if nothing_owned a sh then recorded (step 0) (observe 0) a sh else none)
      (start opened_ring fun _ => 0,⟨[],[],[]⟩) wrapped_labels).map
        (fun sh => (sh.2.checks.map Check.accepted,sh.2.passed.length)) = some ([true,false],1) := by decide +kernel
  obtain ⟨⟨s,h⟩,reached,both⟩ := Option.map_eq_some_iff.mp outcome
  obtain ⟨accepted,passed⟩ := Prod.mk.inj both
  have run := Run.of_runFrom (fun a _ sh allowed => nothing_owned_allowed a sh allowed) reached
  exact ⟨s,h,run,accepted,passed,packets_accounted 0 _ (by decide) (by decide) (by decide) run⟩

end Thread
end DdosDetector.NetmapReceiver
