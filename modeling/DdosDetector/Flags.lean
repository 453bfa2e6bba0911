import DdosDetector.BitMasks
import DdosDetector.Equality
import DdosDetector.Parses

/-!
The TCP flags of a rule. The items of the option are folded into bits and a mask, which
stand for the last value that the items give each flag; the bits of a packet stand in the
same order.
-/
namespace DdosDetector
open BitMasks (Stands)

/-- The item that gives the flag a state. -/
def flag_item (flag : Char) (state : Bool) : Text := [flag,':',if state then '1' else '0']

/-- The item gives a flag of the list a state. -/
def IsFlagItem (f : Text) : Prop := ∃ flag ∈ accept_tcp_flags, ∃ state, f = flag_item flag state

/-- The state that the item gives the flag. -/
def flag_state (flag : Char) (f : Text) : Option Bool :=
  if f = flag_item flag true then some true else if f = flag_item flag false then some false else none

/-- The last state that the items give the flag. -/
def last_state (flag : Char) : List Text → Option Bool
  | [] => none
  | f :: rest => (last_state flag rest).or (flag_state flag f)

/-- The bit of a header for a flag. -/
def header_flag (h : tcphdr) : Char → Bool
  | 'U' => h.urg
  | 'A' => h.ack
  | 'P' => h.psh
  | 'R' => h.rst
  | 'S' => h.syn
  | 'F' => h.fin
  | _ => false

theorem getLsbD_set_bit (b : BitVec 6) {k : Nat} (place : k < 6) (v : Bool) :
    ∀ i < 6, (set_bit b k v).getLsbD i = if i = k then v else b.getLsbD i := by
  intro i inside
  unfold set_bit
  interval_cases k <;> interval_cases i <;> cases v <;> simp

/-- The bits of a header stand in the order of the accepted flags. -/
theorem getLsbD_header_flags (h : tcphdr) :
    ∀ i < 6, (TcpRule.header_flags h).getLsbD i = header_flag h (accept_tcp_flags.getD i ' ') := by
  intro i inside
  unfold TcpRule.header_flags
  repeat rw [getLsbD_set_bit _ (by decide) _ i inside]
  interval_cases i <;> rfl

theorem flag_item_inj {flag flag' : Char} {state state' : Bool} :
    flag_item flag state = flag_item flag' state' ↔ flag = flag' ∧ state = state' := by
  cases state <;> cases state' <;> simp [flag_item]

/-- An item is accepted exactly if it gives a flag of the list a state, which is stored
    at the place of the flag. -/
theorem bitset_flag_ok_iff (bits_mask made : BitVec 6 × BitVec 6) (f : Text) :
    bitset_flag accept_tcp_flags bits_mask f = .ok made ↔ ∃ flag ∈ accept_tcp_flags, ∃ state, f = flag_item flag state ∧
      made = (set_bit bits_mask.1 (accept_tcp_flags.idxOf flag) state,
        set_bit bits_mask.2 (accept_tcp_flags.idxOf flag) true) := by
  constructor
  · intro accepted
    unfold bitset_flag at accepted
    split at accepted
    · rename_i flag state
      split_ifs at accepted with digit
      unfold get_index at accepted
      split_ifs at accepted with known
      · refine ⟨flag,known,state = '1',?_,(Except.ok.inj accepted).symm⟩
        rcases digit with rfl | rfl <;> rfl
      · cases accepted
    · cases accepted
  · rintro ⟨flag,known,state,rfl,rfl⟩
    cases state <;> simp [bitset_flag,flag_item,get_index,known,Except.map]

/-- The states that the items give the flags, by their places. -/
def states (items : List Text) (i : Nat) : Option Bool := last_state (accept_tcp_flags.getD i ' ') items

theorem getD_idxOf_iff (flag : Char) {i : Nat} (inside : i < 6) (known : flag ∈ accept_tcp_flags) :
    flag = accept_tcp_flags.getD i ' ' ↔ i = accept_tcp_flags.idxOf flag := by
  have place : i < accept_tcp_flags.length := inside
  have nodup : accept_tcp_flags.Nodup := by decide
  rw [List.getD_eq_getElem _ _ place]
  constructor
  · rintro rfl
    exact (nodup.idxOf_getElem i place).symm
  · rintro rfl
    exact (List.getElem_idxOf place).symm

theorem flag_state_item {flag : Char} (known : flag ∈ accept_tcp_flags) (state : Bool) :
    ∀ i < 6, flag_state (accept_tcp_flags.getD i ' ') (flag_item flag state) =
      if i = accept_tcp_flags.idxOf flag then some state else none := by
  intro i inside
  simp only [flag_state,flag_item_inj,getD_idxOf_iff flag inside known]
  cases state <;> simp

/-- Folding the items into bits and a mask keeps the last state given for each flag. -/
theorem flags_stand : ∀ (items : List Text) {before : Nat → Option Bool} {bits_mask made : BitVec 6 × BitVec 6},
    Stands before bits_mask.1 bits_mask.2 → items.foldlM (bitset_flag accept_tcp_flags) bits_mask = .ok made →
      Stands (fun i => (states items i).or (before i)) made.1 made.2 ∧ ∀ f ∈ items, IsFlagItem f := by
  intro items
  induction items with
  | nil =>
    intro before bits_mask made stands folded
    obtain rfl := Except.ok.inj folded
    exact ⟨by simpa [states,last_state] using stands,by simp⟩
  | cons f rest ih =>
    intro before bits_mask made stands folded
    rw [List.foldlM_cons] at folded
    obtain ⟨next,accepted,folded⟩ := bind_ok folded
    obtain ⟨flag,known,state,rfl,rfl⟩ := (bitset_flag_ok_iff _ _ _).mp accepted
    have place : accept_tcp_flags.idxOf flag < 6 := List.idxOf_lt_length_iff.mpr known
    have updated := stands.update (getLsbD_set_bit _ place state) (getLsbD_set_bit bits_mask.2 place true)
    obtain ⟨stand,others⟩ := ih updated folded
    refine ⟨stand.congr fun i inside => ?_,List.forall_mem_cons.mpr ⟨⟨flag,known,state,rfl⟩,others⟩⟩
    simp only [states,last_state,flag_state_item known state i inside,Option.or_assoc,Function.update_apply]
    split_ifs <;> rfl

theorem flags_accepted : ∀ (items : List Text) (bits_mask : BitVec 6 × BitVec 6), (∀ f ∈ items, IsFlagItem f) →
    ∃ made, items.foldlM (bitset_flag accept_tcp_flags) bits_mask = .ok made := by
  intro items
  induction items with
  | nil => exact fun bits_mask _ => ⟨bits_mask,rfl⟩
  | cons f rest ih =>
    intro bits_mask flags
    obtain ⟨⟨flag,known,state,form⟩,others⟩ := List.forall_mem_cons.mp flags
    obtain ⟨made,folded⟩ := ih _ others
    refine ⟨made,?_⟩
    rw [List.foldlM_cons,(bitset_flag_ok_iff _ _ _).mpr ⟨flag,known,state,form,rfl⟩]
    exact folded

/-- A list is accepted exactly if it has items, each of which gives a flag a state. -/
theorem bitset_from_string_ok_iff (platform : Platform) (value : Text) :
    (∃ made, bitset_from_string platform value accept_tcp_flags = .ok made) ↔
      ∃ items, tokenize platform ',' value = .ok items ∧ items ≠ [] ∧ ∀ f ∈ items, IsFlagItem f := by
  constructor
  · rintro ⟨made,accepted⟩
    obtain ⟨items,tokens,accepted⟩ := bind_ok accepted
    cases items with
    | nil => cases accepted
    | cons f rest => exact ⟨f :: rest,tokens,by simp,(flags_stand _ BitMasks.stands_none accepted).2⟩
  · rintro ⟨items,tokens,given,flags⟩
    obtain ⟨made,folded⟩ := flags_accepted items (0,0) flags
    refine ⟨made,?_⟩
    cases items with
    | nil => exact absurd rfl given
    | cons f rest =>
      unfold bitset_from_string
      rw [tokens]
      exact folded

/-- The bits and the mask of an accepted list stand for the last state given for each
    flag. -/
theorem bitset_from_string_stands {platform : Platform} {value : Text} {items : List Text}
    {made : BitVec 6 × BitVec 6} (tokens : tokenize platform ',' value = .ok items)
    (accepted : bitset_from_string platform value accept_tcp_flags = .ok made) :
    Stands (states items) made.1 made.2 := by
  unfold bitset_from_string at accepted
  rw [tokens] at accepted
  cases items with
  | nil => cases accepted
  | cons f rest =>
    have stand := (flags_stand _ BitMasks.stands_none accepted).1
    exact stand.congr fun i _ => Option.or_none

/-! ### What a rule with flags matches -/

/-- The flags check no bit outside of their mask. -/
def tcp_flags.Contained (f : tcp_flags) : Prop := f.bits_ &&& f.mask_ = f.bits_

/-- The rule without its flags. -/
def without_flags (r : TcpRule) : TcpRule := { r with l4 := { r.l4 with flags := ⟨false,0,0⟩ } }

/-- Where the other criteria hold, a rule with an accepted list of flags matches exactly
    the headers whose flags are as last given. -/
theorem check_flags_iff {r : TcpRule} {items : List Text} {p : BitVec 6 × BitVec 6}
    (stands : Stands (states items) p.1 p.2) (flags : r.l4.flags = ⟨true,p.1,p.2⟩) {h : tcphdr} {s_addr d_addr : UInt32}
    (others : (without_flags r).check_packet h s_addr d_addr = true) :
    r.check_packet h s_addr d_addr = true ↔
      ∀ flag ∈ accept_tcp_flags, ∀ v, last_state flag items = some v → header_flag h flag = v := by
  have only : r.check_packet h s_addr d_addr = true ↔ TcpRule.header_flags h &&& p.2 = p.1 := by
    simp only [TcpRule.check_packet,without_flags,Bool.not_false,Bool.true_or,Bool.and_true] at others
    rw [TcpRule.check_packet,others,flags]
    simp [tcp_flags.in_this]
  rw [only,stands.masked_iff]
  constructor
  · intro places flag known v given
    have place : accept_tcp_flags.idxOf flag < 6 := List.idxOf_lt_length_iff.mpr known
    have there := (getD_idxOf_iff flag place known).mpr rfl
    rw [there,← getLsbD_header_flags h _ place]
    exact places _ place v (by rw [states,← there,given])
  · intro named i inside v given
    rw [getLsbD_header_flags h i inside]
    have known : accept_tcp_flags.getD i ' ' ∈ accept_tcp_flags := by
      rw [List.getD_eq_getElem _ _ inside]
      exact List.getElem_mem inside
    exact named _ known v given

/-- The flags are off or come from an accepted list. -/
def FlagsRead (f : tcp_flags) : Prop := f = ⟨false,0,0⟩ ∨
  ∃ platform value p, bitset_from_string platform value accept_tcp_flags = .ok p ∧ f = ⟨true,p.1,p.2⟩

theorem parsed_flags {r : TcpRule} (parsed : Parsed (p := .TCP) r) : FlagsRead r.l4.flags := by
  obtain ⟨platform,opt,tokens,parsed⟩ := parsed
  obtain ⟨⟨base,vm⟩,made_base,parsed⟩ := bind_ok parsed
  obtain ⟨_,_,parsed⟩ := bind_ok parsed
  obtain ⟨_,_,parsed⟩ := bind_ok parsed
  obtain ⟨_,_,parsed⟩ := bind_ok parsed
  obtain ⟨_,_,parsed⟩ := bind_ok parsed
  obtain ⟨_,_,parsed⟩ := bind_ok parsed
  obtain ⟨_,_,parsed⟩ := bind_ok parsed
  obtain ⟨flags,made_flags,parsed⟩ := bind_ok parsed
  obtain rfl := Except.ok.inj parsed
  have fresh : base.l4 = {} := (parse_base_parsed made_base).2
  rw [fresh] at made_flags
  have read : FlagsRead flags := by
    refine given_ok made_flags (.inl rfl) ?_
    intro v made accepted
    cases read : bitset_from_string platform v accept_tcp_flags with
    | error error => simp [read,Except.map] at accepted
    | ok p =>
      simp only [read,Except.map,Except.ok.injEq] at accepted
      exact .inr ⟨platform,v,p,read,accepted.symm⟩
  exact read

theorem accepted_contained {platform : Platform} {value : Text} {p : BitVec 6 × BitVec 6}
    (accepted : bitset_from_string platform value accept_tcp_flags = .ok p) : p.1 &&& p.2 = p.1 := by
  obtain ⟨items,tokens,_⟩ := (bitset_from_string_ok_iff platform value).mp ⟨p,accepted⟩
  exact (bitset_from_string_stands tokens accepted).contained

theorem parsed_contained {r : TcpRule} (parsed : Parsed (p := .TCP) r) : r.l4.flags.Contained := by
  rcases parsed_flags parsed with off | ⟨platform,value,p,accepted,on⟩
  · rw [off]
    rfl
  · rw [on]
    exact accepted_contained accepted

/-- A list of flags is accepted exactly if it has items that each give a flag a state.
    A rule with it matches, where its other criteria hold, exactly the headers whose named
    flags are as last given. In whatever way rules are entered, edited and copied, none
    checks a bit outside of its mask. -/
theorem flags_meant :
    (∀ (platform : Platform) (value : Text),
      (∃ p, bitset_from_string platform value accept_tcp_flags = .ok p) ↔
        ∃ items, tokenize platform ',' value = .ok items ∧ items ≠ [] ∧ ∀ f ∈ items, IsFlagItem f) ∧
    (∀ (platform : Platform) (value : Text) (items : List Text) (p : BitVec 6 × BitVec 6),
      tokenize platform ',' value = .ok items → bitset_from_string platform value accept_tcp_flags = .ok p →
      p.1 &&& p.2 = p.1 ∧
        ∀ (r : TcpRule) (h : tcphdr) (s_addr d_addr : UInt32), r.l4.flags = ⟨true,p.1,p.2⟩ →
          (without_flags r).check_packet h s_addr d_addr = true →
          (r.check_packet h s_addr d_addr = true ↔
            ∀ flag ∈ accept_tcp_flags, ∀ v, last_state flag items = some v → header_flag h flag = v)) ∧
    ∀ (platform : Platform) (main : RulesCollection) (threads : List RulesCollection) (now : time_point)
      (s : Daemon) (labels : List Label), main.MadeOf Daemon.FromText → (∀ c ∈ threads, c.MadeOf Daemon.FromText) →
      Runs.Run (Daemon.step platform) (fun _ a => Daemon.FromWords a) (Daemon.start main threads now) labels s →
      ∀ c, Daemon.Stored s c → ∀ r ∈ (c.list .TCP).rules_, r.l4.flags.Contained := by
  refine ⟨bitset_from_string_ok_iff,fun platform value items p tokens accepted => ⟨accepted_contained accepted,?_⟩,?_⟩
  · intro r h s_addr d_addr flags others
    exact check_flags_iff (bitset_from_string_stands tokens accepted) flags others
  · intro platform main threads now s labels main_made threads_made run c stored r member
    have reached : Daemon.StoredOf Daemon.FromText s :=
      run.invariant (Daemon.storedOf_start now main_made threads_made) fun s a s' made words taken =>
        Daemon.storedOf_step (Daemon.stepped taken) (Daemon.enters_fromText words) made
    obtain ⟨made,parsed,same⟩ := reached.stored stored .TCP r member
    have entered : (Rule.entered made).l4.flags = (Rule.entered r).l4.flags := by rw [same]
    have flags : made.l4.flags = r.l4.flags := entered
    exact flags ▸ parsed_contained parsed

/-- The rule `--dstip 10.0.0.1 --pps-th 100p` with the flags `S:0,A:0,S:1`. -/
def syn_rule : TcpRule := { sample_rule with l4 := { flags := ⟨true,16,18⟩ } }

theorem flags_meant_syn :
    (16 : BitVec 6) &&& 18 = 16 ∧
    (syn_rule.check_packet ⟨1,1,1,1,5,false,false,false,false,true,false,1⟩ 1 167772161 = true ↔
      ∀ flag ∈ accept_tcp_flags, ∀ v, last_state flag ["S:0","A:0","S:1"] = some v →
        header_flag ⟨1,1,1,1,5,false,false,false,false,true,false,1⟩ flag = v) ∧
    ∀ c, Daemon.Stored (Daemon.start (tcp_collection [sample_rule]) [] 1) c →
      ∀ r ∈ (c.list .TCP).rules_, r.l4.flags.Contained := by
  obtain ⟨_,meant,contained⟩ := flags_meant
  have tokens : tokenize documented ',' "S:0,A:0,S:1" = .ok ["S:0","A:0","S:1"] := by decide +kernel
  have accepted : bitset_from_string documented "S:0,A:0,S:1" accept_tcp_flags = .ok (16,18) := by decide +kernel
  obtain ⟨within,matched⟩ := meant documented _ _ _ tokens accepted
  refine ⟨within,matched syn_rule _ _ _ rfl (by decide),?_⟩
  exact contained documented _ _ _ _ [] sample_fromText.main (by simp) .nil

end DdosDetector
