import DdosDetector.Loops
import DdosDetector.Receiver
import DdosDetector.Rings

/-!
The inner loop of `netmap_thread`, which takes the packets of a ring one after the other.
Its measure is the distance from `cur` to `tail` on the ring; what couples the three
calls of the poller in a round is that `cur_slot_id_` stays the slot of the packet.
-/
namespace DdosDetector
open Loops (Loop)
open Rings (place distance)

/-! ### The ring -/

/-- `struct netmap_slot`, without the pointer for indirect buffers. -/
structure netmap_slot where
  buf_idx : UInt32
  len : UInt16
  flags : UInt16
deriving DecidableEq

/-- `struct netmap_ring`, by what the poller and its macros use. -/
structure netmap_ring where
  buf_ofs : Int64
  num_slots : UInt32
  nr_buf_size : UInt32
  head : UInt32
  cur : UInt32
  tail : UInt32
  flags : UInt32
  slot : UInt32 → netmap_slot

def NS_FORWARD : UInt16 := 0x0004
def NR_TIMESTAMP : UInt32 := 0x0002
def NR_FORWARD : UInt32 := 0x0004

/-- `NETMAP_BUF`, as the offset of a buffer from the ring. -/
def NETMAP_BUF (ring : netmap_ring) (index : UInt32) : Int :=
  ring.buf_ofs.toInt + (index * ring.nr_buf_size).toNat

def nm_ring_next (r : netmap_ring) (i : UInt32) : UInt32 := if i + 1 = r.num_slots then 0 else i + 1

def nm_ring_empty (ring : netmap_ring) : Bool := ring.cur = ring.tail

/-! ### The poller -/

structure NetmapPoller where
  buff_len : UInt32
  cur_slot_id_ : UInt32
  rxring_ : netmap_ring

namespace NetmapPoller

/-- The poller afterwards, and the buffer unless the ring is empty. -/
def get_buff_from_ring (poller : NetmapPoller) : NetmapPoller × Option Int :=
  let rxring_ := { poller.rxring_ with flags := poller.rxring_.flags ||| NR_FORWARD ||| NR_TIMESTAMP }
  if nm_ring_empty rxring_ then ({ poller with rxring_ := rxring_ },none)
  else
    ({ rxring_ := rxring_
       cur_slot_id_ := rxring_.cur
       buff_len := (rxring_.slot rxring_.cur).len.toUInt32 },
      some (NETMAP_BUF rxring_ (rxring_.slot rxring_.cur).buf_idx))

/-- The slot with `NS_FORWARD` set. -/
def forwarded (slot : netmap_slot) : netmap_slot := { slot with flags := slot.flags ||| NS_FORWARD }

def set_forward (poller : NetmapPoller) : NetmapPoller :=
  { poller with rxring_ := { poller.rxring_ with
      slot := Function.update poller.rxring_.slot poller.cur_slot_id_
        (forwarded (poller.rxring_.slot poller.cur_slot_id_)) } }

def next (poller : NetmapPoller) : NetmapPoller :=
  { poller with rxring_ := { poller.rxring_ with
      cur := nm_ring_next poller.rxring_ poller.cur_slot_id_
      head := nm_ring_next poller.rxring_ poller.cur_slot_id_ } }

end NetmapPoller

/-! ### The loop -/

namespace NetmapReceiver

/-- A call of `check_packet`: the buffer, the length and what it returned. -/
structure Call where
  buf : Int
  len : UInt32
  accepted : Bool
deriving DecidableEq

/-- The variables of the loop, and the calls that it has made so far. -/
structure Receiving where
  poller : NetmapPoller
  collect : RulesCollection
  calls : List Call

/-- The bytes from the offset on. -/
def bytes_from (memory : Int → UInt8) (buf : Int) : Memory := fun i => memory (buf + i)

/-- One round: the condition, which gets the packet, and the body. Before its rules are
    looked at, the other threads may have changed them. -/
def receive_round (memory : Int → UInt8) (others : Nat → RulesCollection → RulesCollection) (thread_number : Int)
    (s : Receiving) : Option Receiving :=
  match s.poller.get_buff_from_ring with
  | (_,none) => none
  | (poller,some buf) =>
    let (collect,accepted) :=
      check_packet (bytes_from memory buf) (others s.calls.length s.collect) poller.buff_len
    let marked := if accepted then if thread_number = 0 then poller.set_forward else poller else poller
    some ⟨marked.next,collect,s.calls ++ [⟨buf,poller.buff_len,accepted⟩]⟩

/-- What the condition that fails leaves behind. -/
def receive_end (s : Receiving) : NetmapPoller := s.poller.get_buff_from_ring.1

/-! ### What the loop is for -/

/-- The slots of the packets that wait in the ring, in the order of the ring. -/
def pending (r : netmap_ring) : List UInt32 :=
  (List.range (distance r.num_slots.toNat r.cur.toNat r.tail.toNat)).map fun k =>
    UInt32.ofNat (place r.num_slots.toNat r.cur.toNat k)

/-- One packet is checked: the rules afterwards, and the calls with the one for it. -/
def check_slot (memory : Int → UInt8) (others : Nat → RulesCollection → RulesCollection) (r : netmap_ring)
    (sofar : RulesCollection × List Call) (i : UInt32) : RulesCollection × List Call :=
  let (collect,accepted) := check_packet (bytes_from memory (NETMAP_BUF r (r.slot i).buf_idx))
    (others sofar.2.length sofar.1) (r.slot i).len.toUInt32
  (collect,sofar.2 ++ [⟨NETMAP_BUF r (r.slot i).buf_idx,(r.slot i).len.toUInt32,accepted⟩])

/-- Thread 0 has had the packet of the slot accepted. -/
def Forwards (thread_number : Int) (r : netmap_ring) (calls : List Call) (i : UInt32) : Prop :=
  thread_number = 0 ∧ ∃ (k : Nat) (call : Call), (pending r)[k]? = some i ∧ calls[k]? = some call ∧ call.accepted = true

/-! ### The rounds -/

section
variable {memory : Int → UInt8} {others : Nat → RulesCollection → RulesCollection} {thread_number : Int}
  {r : netmap_ring} {collect : RulesCollection} {s : Receiving}

/-- Where the loop is after so many rounds. -/
structure Received (memory : Int → UInt8) (others : Nat → RulesCollection → RulesCollection) (thread_number : Int)
    (r : netmap_ring) (collect : RulesCollection) (s : Receiving) : Prop where
  frame : s.poller.rxring_.buf_ofs = r.buf_ofs ∧ s.poller.rxring_.num_slots = r.num_slots ∧
    s.poller.rxring_.nr_buf_size = r.nr_buf_size ∧ s.poller.rxring_.tail = r.tail
  rounds : s.calls.length ≤ (pending r).length
  cur : s.poller.rxring_.cur.toNat = place r.num_slots.toNat r.cur.toNat s.calls.length
  head : s.poller.rxring_.head = if s.calls = [] then r.head else s.poller.rxring_.cur
  checked : (s.collect,s.calls) =
    ((pending r).take s.calls.length).foldl (check_slot memory others r) (collect,[])
  forwards : ∀ i, Forwards thread_number r s.calls i → s.poller.rxring_.slot i = NetmapPoller.forwarded (r.slot i)
  others_kept : ∀ i, ¬ Forwards thread_number r s.calls i → s.poller.rxring_.slot i = r.slot i

theorem pending_length : (pending r).length = distance r.num_slots.toNat r.cur.toNat r.tail.toNat := by simp [pending]

theorem pending_getElem? {k : Nat} (before : k < (pending r).length) :
    (pending r)[k]? = some (UInt32.ofNat (place r.num_slots.toNat r.cur.toNat k)) := by
  rw [pending_length] at before
  simp [pending,before]

theorem toNat_place (inside : r.cur < r.num_slots) (k : Nat) :
    (UInt32.ofNat (place r.num_slots.toNat r.cur.toNat k)).toNat = place r.num_slots.toNat r.cur.toNat k := by
  have some_slot : 0 < r.num_slots.toNat := Nat.zero_lt_of_lt inside
  exact UInt32.toNat_ofNat_of_lt' ((Rings.place_lt some_slot k).trans r.num_slots.toNat_lt)

/-- No slot waits twice. -/
theorem pending_inj (inside : r.cur < r.num_slots) {j k : Nat} {i : UInt32} (here : (pending r)[j]? = some i)
    (there : (pending r)[k]? = some i) : j = k := by
  have turn := (List.getElem?_eq_some_iff.mp here).1
  have turn' := (List.getElem?_eq_some_iff.mp there).1
  rw [pending_getElem? turn] at here
  rw [pending_getElem? turn'] at there
  have same : place r.num_slots.toNat r.cur.toNat j = place r.num_slots.toNat r.cur.toNat k := by
    rw [← toNat_place inside j,← toNat_place inside k,Option.some.inj here,Option.some.inj there]
  have bound : distance r.num_slots.toNat r.cur.toNat r.tail.toNat < r.num_slots.toNat :=
    Rings.distance_lt (Nat.zero_lt_of_lt inside)
  rw [pending_length] at turn turn'
  exact Rings.place_inj inside (turn.trans bound) (turn'.trans bound) same

/-- `cur` stands on `tail` exactly when all packets are taken. -/
theorem Received.empty_iff (inside : r.cur < r.num_slots) (inside' : r.tail < r.num_slots)
    (received : Received memory others thread_number r collect s) :
    s.poller.rxring_.cur = s.poller.rxring_.tail ↔ s.calls.length = (pending r).length := by
  rw [received.frame.2.2.2,← UInt32.toNat_inj,received.cur]
  constructor
  · intro at_tail
    by_contra some_left
    have before : s.calls.length < distance r.num_slots.toNat r.cur.toNat r.tail.toNat := by
      have rounds := received.rounds
      rw [pending_length] at rounds some_left
      omega
    exact Rings.place_ne_last inside inside' before at_tail
  · intro all
    rw [all,pending_length]
    exact Rings.place_distance inside inside'

theorem Received.first (inside : r.cur < r.num_slots) (cur_slot_id_ buff_len : UInt32) :
    Received memory others thread_number r collect ⟨⟨buff_len,cur_slot_id_,r⟩,collect,[]⟩ where
  frame := ⟨rfl,rfl,rfl,rfl⟩
  rounds := Nat.zero_le _
  cur := (Rings.place_zero inside).symm
  head := rfl
  checked := rfl
  forwards := fun i forwards => by
    obtain ⟨_,k,call,_,found,_⟩ := forwards
    cases found
  others_kept := fun _ _ => rfl

/-- What `check_packet` returns for the packet of a slot. -/
def verdict (memory : Int → UInt8) (others : Nat → RulesCollection → RulesCollection) (r : netmap_ring)
    (sofar : RulesCollection × List Call) (i : UInt32) : Bool :=
  (check_packet (bytes_from memory (NETMAP_BUF r (r.slot i).buf_idx)) (others sofar.2.length sofar.1)
    (r.slot i).len.toUInt32).2

/-- What a round does: it checks the packet of the slot at `cur`, marks at most this very
    slot, and releases it. -/
structure Round (memory : Int → UInt8) (others : Nat → RulesCollection → RulesCollection) (thread_number : Int)
    (s s' : Receiving) : Prop where
  checked : (s'.collect,s'.calls) = check_slot memory others s.poller.rxring_ (s.collect,s.calls) s.poller.rxring_.cur
  frame : s'.poller.rxring_.buf_ofs = s.poller.rxring_.buf_ofs ∧ s'.poller.rxring_.num_slots = s.poller.rxring_.num_slots ∧
    s'.poller.rxring_.nr_buf_size = s.poller.rxring_.nr_buf_size ∧ s'.poller.rxring_.tail = s.poller.rxring_.tail
  cur : s'.poller.rxring_.cur = nm_ring_next s.poller.rxring_ s.poller.rxring_.cur
  head : s'.poller.rxring_.head = s'.poller.rxring_.cur
  slot : ∀ j, s'.poller.rxring_.slot j =
    if j = s.poller.rxring_.cur ∧ thread_number = 0 ∧
        verdict memory others s.poller.rxring_ (s.collect,s.calls) s.poller.rxring_.cur = true then
      NetmapPoller.forwarded (s.poller.rxring_.slot j)
    else s.poller.rxring_.slot j

theorem receive_round_eq (memory : Int → UInt8) (others : Nat → RulesCollection → RulesCollection) (thread_number : Int)
    (waiting : s.poller.rxring_.cur ≠ s.poller.rxring_.tail) :
    ∃ s', receive_round memory others thread_number s = some s' ∧ Round memory others thread_number s s' := by
  have busy : nm_ring_empty { s.poller.rxring_ with
      flags := s.poller.rxring_.flags ||| NR_FORWARD ||| NR_TIMESTAMP } = false := by
    simpa [nm_ring_empty] using waiting
  simp only [receive_round,NetmapPoller.get_buff_from_ring,busy,Bool.false_eq_true,↓reduceIte]
  refine ⟨_,rfl,?_⟩
  split_ifs with accepted thread
  · refine ⟨rfl,⟨rfl,rfl,rfl,rfl⟩,rfl,rfl,?_⟩
    intro j
    by_cases here : j = s.poller.rxring_.cur
    · rw [if_pos ⟨here,thread,accepted⟩,here]
      exact Function.update_self ..
    · rw [if_neg fun both => here both.1]
      exact Function.update_of_ne here ..
  · refine ⟨rfl,⟨rfl,rfl,rfl,rfl⟩,rfl,rfl,?_⟩
    intro j
    rw [if_neg fun both => thread both.2.1]
    rfl
  · refine ⟨rfl,⟨rfl,rfl,rfl,rfl⟩,rfl,rfl,?_⟩
    intro j
    rw [if_neg fun both => accepted both.2.2]
    rfl

theorem receive_round_none_iff : receive_round memory others thread_number s = none ↔
    s.poller.rxring_.cur = s.poller.rxring_.tail := by
  constructor
  · intro ended
    by_contra waiting
    obtain ⟨s',taken,_⟩ := receive_round_eq memory others thread_number waiting
    cases taken.symm.trans ended
  · intro empty
    simp [receive_round,NetmapPoller.get_buff_from_ring,nm_ring_empty,empty]

theorem check_slot_calls (memory : Int → UInt8) (others : Nat → RulesCollection → RulesCollection) (r : netmap_ring)
    (sofar : RulesCollection × List Call) (i : UInt32) : (check_slot memory others r sofar i).2 =
      sofar.2 ++ [⟨NETMAP_BUF r (r.slot i).buf_idx,(r.slot i).len.toUInt32,verdict memory others r sofar i⟩] := rfl

theorem nm_ring_next_toNat {i : UInt32} (inside : i < r.num_slots) :
    (nm_ring_next r i).toNat = if i.toNat + 1 = r.num_slots.toNat then 0 else i.toNat + 1 := by
  have below : i.toNat < r.num_slots.toNat := inside
  have bound := r.num_slots.toNat_lt
  have next : (i + 1).toNat = i.toNat + 1 := by
    rw [UInt32.toNat_add,UInt32.toNat_one]
    omega
  have last : i + 1 = r.num_slots ↔ i.toNat + 1 = r.num_slots.toNat := by rw [← UInt32.toNat_inj,next]
  unfold nm_ring_next
  simp only [last]
  split_ifs
  · rfl
  · exact next

/-- One more call forwards one more slot, if thread 0 has its packet accepted. -/
theorem forwards_snoc {calls : List Call} {call : Call} {i j : UInt32} (here : (pending r)[calls.length]? = some i) :
    Forwards thread_number r (calls ++ [call]) j ↔
      Forwards thread_number r calls j ∨ (j = i ∧ thread_number = 0 ∧ call.accepted = true) := by
  constructor
  · rintro ⟨thread,k,call',at_k,found,accepted⟩
    by_cases earlier : k < calls.length
    · rw [List.getElem?_append_left earlier] at found
      exact .inl ⟨thread,k,call',at_k,found,accepted⟩
    · have size := (List.getElem?_eq_some_iff.mp found).1
      rw [List.length_append,List.length_singleton] at size
      obtain rfl : k = calls.length := by omega
      obtain rfl : call = call' := by simpa using found
      exact .inr ⟨Option.some.inj (at_k.symm.trans here),thread,accepted⟩
  · rintro (⟨thread,k,call',at_k,found,accepted⟩ | ⟨rfl,thread,accepted⟩)
    · have earlier := (List.getElem?_eq_some_iff.mp found).1
      exact ⟨thread,k,call',at_k,by rw [List.getElem?_append_left earlier,found],accepted⟩
    · exact ⟨thread,calls.length,call,here,by simp,accepted⟩

/-- A round brings the loop one packet on. -/
theorem Received.next (inside : r.cur < r.num_slots) (inside' : r.tail < r.num_slots)
    (received : Received memory others thread_number r collect s) {n : Nat}
    (left : (pending r).length - s.calls.length = n + 1) :
    ∃ s', receive_round memory others thread_number s = some s' ∧
      Received memory others thread_number r collect s' ∧ (pending r).length - s'.calls.length = n := by
  have before : s.calls.length < (pending r).length := by omega
  have waiting : s.poller.rxring_.cur ≠ s.poller.rxring_.tail := fun empty =>
    (received.empty_iff inside inside').mp empty |>.not_lt before
  have here : (pending r)[s.calls.length]? = some s.poller.rxring_.cur := by
    rw [pending_getElem? before,← received.cur,UInt32.ofNat_toNat]
  -- the slot of this round has been in no round before
  have fresh : ¬ Forwards thread_number r s.calls s.poller.rxring_.cur := by
    rintro ⟨_,k,call,at_k,found,_⟩
    have earlier := (List.getElem?_eq_some_iff.mp found).1
    exact earlier.ne (pending_inj inside at_k here)
  have untouched := received.others_kept _ fresh
  have some_slot : 0 < r.num_slots.toNat := Nat.zero_lt_of_lt inside
  obtain ⟨s',taken,round⟩ := receive_round_eq memory others thread_number waiting
  have buffers : ∀ index, NETMAP_BUF s.poller.rxring_ index = NETMAP_BUF r index := fun index => by
    rw [NETMAP_BUF,NETMAP_BUF,received.frame.1,received.frame.2.2.1]
  have same_check : check_slot memory others s.poller.rxring_ (s.collect,s.calls) s.poller.rxring_.cur =
      check_slot memory others r (s.collect,s.calls) s.poller.rxring_.cur := by
    simp only [check_slot,untouched,buffers]
  have same_verdict : verdict memory others s.poller.rxring_ (s.collect,s.calls) s.poller.rxring_.cur =
      verdict memory others r (s.collect,s.calls) s.poller.rxring_.cur := by
    simp only [verdict,untouched,buffers]
  have checks := round.checked.trans same_check
  have calls := congrArg Prod.snd checks
  rw [check_slot_calls] at calls
  dsimp only at calls
  have size : s'.calls.length = s.calls.length + 1 := by rw [calls,List.length_append,List.length_singleton]
  have at_slot : s.poller.rxring_.cur < s.poller.rxring_.num_slots := by
    rw [received.frame.2.1,UInt32.lt_iff_toNat_lt,received.cur]
    exact Rings.place_lt some_slot _
  have slot := round.slot
  simp only [same_verdict] at slot
  refine ⟨s',taken,?_,by omega⟩
  refine { frame := ?_, rounds := by omega, cur := ?_, head := ?_, checked := ?_, forwards := ?_, others_kept := ?_ }
  · exact ⟨round.frame.1.trans received.frame.1,round.frame.2.1.trans received.frame.2.1,
      round.frame.2.2.1.trans received.frame.2.2.1,round.frame.2.2.2.trans received.frame.2.2.2⟩
  · rw [round.cur,size,Rings.place_succ some_slot,← received.cur,← received.frame.2.1]
    exact nm_ring_next_toNat at_slot
  · rw [round.head,calls,if_neg (by simp)]
  · rw [size,List.take_add_one,here,Option.toList_some,List.foldl_append,← received.checked,checks]
    rfl
  · intro i forwards
    rw [calls,forwards_snoc here] at forwards
    rw [slot i]
    rcases forwards with earlier | now
    · have other : i ≠ s.poller.rxring_.cur := fun same => fresh (same ▸ earlier)
      rw [if_neg fun now => other now.1,received.forwards i earlier]
    · rw [if_pos now,now.1,untouched]
  · intro i kept
    rw [calls,forwards_snoc here,not_or] at kept
    rw [slot i,if_neg kept.2,received.others_kept i kept.1]

end

/-- What the loop has done when it is left: it has checked the packets that waited, each
    once and in ring order, with the length of its slot; it has released them all, and
    marked those that are to be forwarded. -/
structure Consumed (memory : Int → UInt8) (others : Nat → RulesCollection → RulesCollection) (thread_number : Int)
    (r : netmap_ring) (collect : RulesCollection) (t : Receiving) : Prop where
  checked : (t.collect,t.calls) = (pending r).foldl (check_slot memory others r) (collect,[])
  order : t.calls.map (fun call => (call.buf,call.len)) =
    (pending r).map fun i => (NETMAP_BUF r (r.slot i).buf_idx,(r.slot i).len.toUInt32)
  cur : (receive_end t).rxring_.cur = r.tail ∧ (receive_end t).rxring_.tail = r.tail
  head : (receive_end t).rxring_.head = if r.cur = r.tail then r.head else r.tail
  forwards : ∀ i, Forwards thread_number r t.calls i →
    (receive_end t).rxring_.slot i = NetmapPoller.forwarded (r.slot i)
  others_kept : ∀ i, ¬ Forwards thread_number r t.calls i → (receive_end t).rxring_.slot i = r.slot i

theorem foldl_check_slot_order (memory : Int → UInt8) (others : Nat → RulesCollection → RulesCollection) (r : netmap_ring)
    (is : List UInt32) (sofar : RulesCollection × List Call) :
    ((is.foldl (check_slot memory others r) sofar).2.map fun call => (call.buf,call.len)) =
      (sofar.2.map fun call => (call.buf,call.len)) ++
        is.map fun i => (NETMAP_BUF r (r.slot i).buf_idx,(r.slot i).len.toUInt32) := by
  induction is generalizing sofar with
  | nil => simp
  | cons i rest ih => rw [List.foldl_cons,ih,check_slot_calls]; simp

theorem receive_end_ring (s : Receiving) : (receive_end s).rxring_ = { s.poller.rxring_ with
    flags := s.poller.rxring_.flags ||| NR_FORWARD ||| NR_TIMESTAMP } := by
  unfold receive_end NetmapPoller.get_buff_from_ring
  dsimp only
  split_ifs <;> rfl

theorem Received.consumed {memory : Int → UInt8} {others : Nat → RulesCollection → RulesCollection} {thread_number : Int}
    {r : netmap_ring} {collect : RulesCollection} {t : Receiving} (inside : r.cur < r.num_slots)
    (inside' : r.tail < r.num_slots) (received : Received memory others thread_number r collect t)
    (all : t.calls.length = (pending r).length) : Consumed memory others thread_number r collect t := by
  have checked := received.checked
  rw [all,List.take_length] at checked
  have at_tail : t.poller.rxring_.cur = r.tail :=
    ((received.empty_iff inside inside').mpr all).trans received.frame.2.2.2
  refine { checked := checked, order := ?_, cur := ?_, head := ?_, forwards := ?_, others_kept := ?_ }
  · have calls := congrArg Prod.snd checked
    dsimp only at calls
    rw [calls,foldl_check_slot_order]
    rfl
  · rw [receive_end_ring]
    exact ⟨at_tail,received.frame.2.2.2⟩
  · rw [receive_end_ring]
    have idle : t.calls = [] ↔ r.cur = r.tail := by
      rw [← List.length_eq_zero_iff,all,pending_length]
      exact (Rings.distance_eq_zero_iff inside inside').trans UInt32.toNat_inj
    simp only [received.head,idle,at_tail]
  · rw [receive_end_ring]
    exact received.forwards
  · rw [receive_end_ring]
    exact received.others_kept

/-- The loop ends after as many rounds as there are slots from `cur` to `tail`, and has
    consumed each packet once; `head` follows `cur` unless no packet was there. -/
theorem receive_loop (memory : Int → UInt8) (others : Nat → RulesCollection → RulesCollection) (thread_number : Int)
    (r : netmap_ring) (cur_slot_id_ buff_len : UInt32) (collect : RulesCollection) (inside : r.cur < r.num_slots)
    (inside' : r.tail < r.num_slots) :
    ∃ t, Loop (receive_round memory others thread_number) ⟨⟨buff_len,cur_slot_id_,r⟩,collect,[]⟩
        (distance r.num_slots.toNat r.cur.toNat r.tail.toNat) t ∧
      Consumed memory others thread_number r collect t := by
  have ended_iff : ∀ s, Received memory others thread_number r collect s →
      (receive_round memory others thread_number s = none ↔ s.calls.length = (pending r).length) :=
    fun s received => receive_round_none_iff.trans (received.empty_iff inside inside')
  obtain ⟨t,loop,received⟩ := Loops.ends_after_measure (fun s : Receiving => (pending r).length - s.calls.length)
    (Received.first inside cur_slot_id_ buff_len)
    (fun s received none_left => (ended_iff s received).mpr (by have := received.rounds; omega))
    (fun s n received left => received.next inside inside' left)
  have ended := (loop.invariant trivial fun _ _ _ _ => trivial).2
  rw [← pending_length]
  exact ⟨t,loop,received.consumed inside inside' ((ended_iff t received).mp ended)⟩

/-- A ring of three slots, with packets in the last and the first. -/
def wrapped_ring : netmap_ring where
  buf_ofs := 4096
  num_slots := 3
  nr_buf_size := 2048
  head := 2
  cur := 2
  tail := 1
  flags := 0
  slot i := ⟨i,60 + i.toUInt16,0⟩

theorem wrapped_ring_consumed : ∃ t,
    Loop (receive_round (fun _ => 0) (fun _ collect => collect) 0) ⟨⟨0,0,wrapped_ring⟩,tcp_collection [sample_rule],[]⟩
        (distance 3 2 1) t ∧
      Consumed (fun _ => 0) (fun _ collect => collect) 0 wrapped_ring (tcp_collection [sample_rule]) t :=
  receive_loop _ _ 0 wrapped_ring 0 0 _ (by decide) (by decide)

/-- The same ring with nothing in it, and `head` behind `cur`. -/
def idle_ring : netmap_ring := { wrapped_ring with head := 1, cur := 2, tail := 2 }

/-- With no packet in the ring `head` stays where it is. -/
theorem idle_ring_keeps_head : idle_ring.cur < idle_ring.num_slots ∧ idle_ring.tail < idle_ring.num_slots ∧
    ∀ (n : Nat) (t : Receiving),
      Loop (receive_round (fun _ => 0) (fun _ collect => collect) 0) ⟨⟨0,0,idle_ring⟩,tcp_collection [],[]⟩ n t →
      (receive_end t).rxring_.head ≠ idle_ring.tail := by
  refine ⟨by decide,by decide,?_⟩
  intro n t loop
  cases loop with
  | done ended => decide
  | next taken rest => cases taken

end NetmapReceiver
end DdosDetector
