import DdosDetector.Alarm
import DdosDetector.Parses

/-!
What the checks of each rule of main leave behind, kept beside the rule: an edit moves it
with the rule, a rule that is entered has none. A relation of the rule's thresholds to it
that every check keeps holds in every run, whatever threads, merges and rates do.
-/
namespace DdosDetector

/-- What an edit does to things kept beside the rules: the entered rule has `new`. -/
def Edit.follow {F α : Type} (new : α) (kept : List α) : Edit F → List α
  | .add_rule _ => kept ++ [new]
  | .insert_rule num _ => kept.take num.toNat ++ [new] ++ kept.drop num.toNat
  | .del_rule num => kept.eraseIdx num.toNat

/-- Things kept beside the rules stay beside them through an edit. -/
theorem Edit.forall₂_follow {F H α : Type} [ProtoRule F H] {platform : Platform} {l l' : RulesList F} {e : Edit F}
    {R : Rule F → α → Prop} {kept : List α} {new : α} (applied : e.apply platform l = .ok l')
    (beside : List.Forall₂ R l.rules_ kept)
    (fresh : ∀ given made, e.rule = some given → ProtoRule.parse platform l.parse_opt_ given = .ok made → R made new) :
    List.Forall₂ R l'.rules_ (e.follow new kept) := by
  cases e with
  | add_rule rule =>
    obtain ⟨made,parsed,added⟩ := bind_ok applied
    obtain rfl := Except.ok.inj added
    exact List.rel_append beside (.cons (fresh rule made rfl parsed) .nil)
  | insert_rule num rule =>
    obtain ⟨made,parsed,inserted⟩ := bind_ok applied
    split_ifs at inserted with empty range
    obtain rfl := Except.ok.inj inserted
    have before := List.forall₂_take num.toNat beside
    have after := List.forall₂_drop num.toNat beside
    exact List.rel_append (List.rel_append before (.cons (fresh rule made rfl parsed) .nil)) after
  | del_rule num =>
    simp only [apply,RulesList.del_rule] at applied
    split_ifs at applied with empty range
    obtain rfl := Except.ok.inj applied
    simp only [follow,List.eraseIdx_eq_take_drop_succ]
    exact List.rel_append (List.forall₂_take _ beside) (List.forall₂_drop _ beside)

namespace RulesList
variable {F : Type}

/-- What the thresholds of the rules go by. -/
def states (l : RulesList F) : List TriggerState := l.rules_.map fun r => r.trigger_state

theorem states_merge {l other l' other' : RulesList F} (merged : l.merge other = .ok (l',other')) :
    l'.states = l.states := by
  refine List.ext_getElem? ?_
  intro k
  simp only [states,List.getElem?_map]
  rcases rules_merge merged k with ⟨here,_,there,_⟩ | ⟨r,r',here,_,there,_⟩
  · rw [here,there]
  · rw [here,there]
    rfl

theorem states_calc_delta (platform : Platform) (l rules_old : RulesList F) :
    (l.calc_delta platform rules_old).states = l.states := by
  refine List.ext_getElem? ?_
  intro k
  simp only [states,List.getElem?_map]
  rcases rules_calc_delta platform l rules_old k with same | ⟨r,old,here,_,rated⟩
  · rw [same]
  · rw [here,rated]
    rfl

end RulesList

/-! ### Rules enter with their clocks at the start -/

theorem parse_fresh {platform : Platform} {opt : options_description} {p : Proto} {tokens : List Text}
    {r : Rule (Fields p)} (parsed : ProtoRule.parse platform opt (ProtoRule.new tokens) = .ok r) :
    Fresh r.toBaseRule :=
  (parse_unused parsed).clocks

/-! ### Steps that do not check -/

namespace Daemon
variable {platform : Platform} {a : Label} {s s' : Daemon}

/-- The program as it starts: no rule has been checked, and no reload is about to
    assign its rules. -/
structure Unchecked (s : Daemon) : Prop where
  fresh : ∀ p, ∀ r ∈ (s.main.list p).rules_, Fresh r.toBaseRule
  idle : ∀ p buff, s.loader ≠ .assigning p buff

/-- A list of main keeps its clocks unless it is written or checked. -/
theorem states_frame (moved : Stepped platform s a s') {q : Proto} (kept : ¬ Writes platform s a q)
    (unchecked : s.pc ≠ .triggers q) : (s'.main.list q).states = (s.main.list q).states := by
  have other {p : Proto} {l : RulesList (Fields p)} (same : l.states = (s.main.list p).states) :
      ((s.main.set_list p l).list q).states = (s.main.list q).states :=
    RulesCollection.list_set_list_cases s.main p l (fun q m => m.states = (s.main.list q).states) same (fun _ _ => rfl) q
  cases moved with
  | console => exact congrArg RulesList.states (RulesCollection.list_console kept)
  | load loaded =>
    cases loaded with
    | @assigned p buff here =>
      have elsewhere : q ≠ p := fun at_p => kept (by subst at_p; exact ⟨buff,here⟩)
      exact congrArg RulesList.states (RulesCollection.list_set_list_ne s.main _ elsewhere)
    | changed here => simp
    | _ => rfl
  | watch watched =>
    cases watched with
    | stamped here => exact other rfl
    | merged here thread sum => exact other (RulesList.states_merge sum)
    | rated here => exact other (RulesList.states_calc_delta platform _ _)
    | @checked p jobs events here =>
      have elsewhere : q ≠ p := fun at_p => unchecked (at_p ▸ here)
      exact congrArg RulesList.states (RulesCollection.list_set_list_ne s.main _ elsewhere)
    | _ => rfl
  | _ => rfl

end Daemon

/-! ### What checks leave -/

/-- What each check of each rule of main has left, and the time of the latest check. -/
structure History (α : Type) where
  latest : Int
  of : Proto → List (List α)

/-- An edit keeps nothing that was not kept before. -/
theorem Edit.mem_of_follow {F α : Type} (e : Edit F) {kept : List (List α)} {left : List α}
    (member : left ∈ e.follow [] kept) (some_left : left ≠ []) : left ∈ kept := by
  cases e with
  | add_rule rule => simpa [follow,some_left] using member
  | insert_rule num rule =>
    simp only [follow,List.append_assoc,List.mem_append,List.mem_singleton,some_left,false_or] at member
    exact member.elim List.mem_of_mem_take List.mem_of_mem_drop
  | del_rule num => exact List.mem_of_mem_eraseIdx member

namespace History
variable {α : Type}

section
variable (platform : Platform) (look : {p : Proto} → Rule (Fields p) → Int → α)

/-- What a round of checks leaves. -/
def add (clock : Nat → Int) {p : Proto} (l : RulesList (Fields p)) (kept : List (List α)) : List (List α) :=
  List.zipWith (fun left e => left ++ [e]) kept (l.rules_.mapIdx fun k r => look r (clock k))

/-- An edit moves what is kept with the rules; rules that are entered have been checked
    by nobody. -/
def note : Label → Daemon → History α → History α
  | .console p e, s, h =>
    match e.apply platform (s.main.list p) with
    | .ok _ => { h with of := Function.update h.of p (e.follow [] (h.of p)) }
    | .error _ => h
  | .load _, s, h =>
    match s.loader with
    | .assigning p buff => { h with of := Function.update h.of p ((buff.list p).rules_.map fun _ => []) }
    | _ => h
  | .watch _ clock, s, h =>
    match s.pc with
    | .triggers p =>
      ⟨clock (s.main.list p).rules_.length,Function.update h.of p (add look clock (s.main.list p) (h.of p))⟩
    | _ => h
  | _, _, h => h

/-- A relation of a rule's thresholds to what its checks have left, which holds of rules
    that are entered and is kept by their checks. -/
structure Checking (R : Int → TriggerState → List α → Prop) : Prop where
  fresh : ∀ {r : BaseRule} {latest : Int}, Fresh r → 0 ≤ latest → R latest r.trigger_state []
  later : ∀ {latest latest' : Int} {t : TriggerState} {left : List α}, R latest t left → latest ≤ latest' → R latest' t left
  checked : ∀ {p : Proto} {r : Rule (Fields p)} {latest cur_time : Int} {left : List α},
    R latest r.trigger_state left → latest ≤ cur_time →
      R cur_time (RulesList.check_trigger platform r cur_time).1.trigger_state (left ++ [look r cur_time])

end

/-- Nothing has been checked yet. -/
def start (s : Daemon) : History α := ⟨0,fun p => (s.main.list p).rules_.map fun _ => []⟩

/-- The clock of the checks does not go back, and the console makes rules from words. -/
def Forward (sh : Daemon × History α) : Label → Prop
  | .watch _ clock => Monotone clock ∧ sh.2.latest ≤ clock 0
  | a => Daemon.FromWords a

/-- Every rule of main is related to what its checks have left; a reload brings rules with
    their clocks at the start. -/
structure Follows (R : Int → TriggerState → List α → Prop) (s : Daemon) (h : History α) : Prop where
  begun : 0 ≤ h.latest
  rules : ∀ p, List.Forall₂ (R h.latest) (s.main.list p).states (h.of p)
  fresh : ∀ p buff, s.loader = .assigning p buff → ∀ q, ∀ r ∈ (buff.list q).rules_, Fresh r.toBaseRule

variable {platform : Platform} {look : {p : Proto} → Rule (Fields p) → Int → α} {R : Int → TriggerState → List α → Prop}
  {a : Label} {s s' : Daemon} {h : History α}

theorem related_fresh (checking : Checking platform look R) {F : Type} {l : RulesList F}
    (fresh : ∀ r ∈ l.rules_, Fresh r.toBaseRule) {latest : Int} (begun : 0 ≤ latest) :
    List.Forall₂ (R latest) l.states (l.rules_.map fun _ => []) := by
  rw [RulesList.states,List.forall₂_map_left_iff,List.forall₂_map_right_iff,List.forall₂_same]
  exact fun r member => checking.fresh (fresh r member) begun

theorem related_later (checking : Checking platform look R) {states : List TriggerState} {kept : List (List α)}
    {latest latest' : Int} (related : List.Forall₂ (R latest) states kept) (later : latest ≤ latest') :
    List.Forall₂ (R latest') states kept :=
  related.imp fun _ _ before => checking.later before later

/-- A round of checks, whose times do not go back, keeps all rules related. -/
theorem related_check (checking : Checking platform look R) {p : Proto} {l : RulesList (Fields p)} {clock : Nat → Int}
    {latest : Int} {kept : List (List α)} (related : List.Forall₂ (R latest) l.states kept) (forward : Monotone clock)
    (later : latest ≤ clock 0) : List.Forall₂ (R (clock l.rules_.length)) (l.check_triggers platform clock).1.states
      (add look clock l kept) := by
  obtain ⟨size,all⟩ := List.forall₂_iff_get.mp related
  have length : l.rules_.length = kept.length := by simpa [RulesList.states] using size
  refine List.forall₂_iff_get.mpr ⟨by simp [RulesList.states,RulesList.check_triggers,add,length],?_⟩
  intro k inside inside'
  have here : k < l.rules_.length := by simpa [RulesList.states,RulesList.check_triggers] using inside
  have there : k < kept.length := length ▸ here
  have before : R latest l.rules_[k].trigger_state kept[k] := by
    simpa [RulesList.states] using all k (by simpa [RulesList.states] using here) there
  have after := checking.later (checking.checked before (later.trans (forward (Nat.zero_le k)))) (forward here.le)
  simpa [RulesList.states,RulesList.check_triggers,add] using after

private theorem related_console (checking : Checking platform look R) {p : Proto} {e : Edit (Fields p)}
    (words : Daemon.FromWords (.console p e)) (follows : Follows R s h) (q : Proto) :
    List.Forall₂ (R (note platform look (.console p e) s h).latest) ((s.main.console platform p e).list q).states
      ((note platform look (.console p e) s h).of q) := by
  have before := follows.rules q
  cases applied : e.apply platform (s.main.list p) with
  | error error => simpa [note,RulesCollection.console,applied] using before
  | ok l =>
    simp only [note,RulesCollection.console,applied]
    by_cases same : q = p
    · subst same
      rw [RulesCollection.list_set_list,Function.update_self]
      rw [RulesList.states,List.forall₂_map_left_iff] at before ⊢
      refine Edit.forall₂_follow applied before ?_
      intro given made entered parsed
      obtain ⟨tokens,rfl⟩ := words given entered
      exact checking.fresh (parse_fresh parsed) follows.begun
    · rw [RulesCollection.list_set_list_ne _ _ same,Function.update_of_ne same]
      exact before

private theorem related_load (checking : Checking platform look R) {now : time_point} (loaded : Daemon.Loaded platform now s s')
    (follows : Follows R s h) (q : Proto) : List.Forall₂ (R (note platform look (.load now) s h).latest)
      (s'.main.list q).states ((note platform look (.load now) s h).of q) := by
  have before := follows.rules q
  cases loaded with
  | @assigned p buff here =>
    simp only [note,here]
    by_cases same : q = p
    · subst same
      rw [RulesCollection.list_set_list,Function.update_self]
      exact related_fresh checking (follows.fresh q buff here q) follows.begun
    · rw [RulesCollection.list_set_list_ne _ _ same,Function.update_of_ne same]
      exact before
  | changed here => simpa [note,here] using before
  | copied here | filled here | failed here => simpa [note,here] using before

private theorem related_watch (checking : Checking platform look R) {now : time_point} {clock : Nat → Int}
    (watched : Daemon.Watched platform now clock s s') (forward : Forward (s,h) (.watch now clock))
    (follows : Follows R s h) (q : Proto) : List.Forall₂ (R (note platform look (.watch now clock) s h).latest)
      (s'.main.list q).states ((note platform look (.watch now clock) s h).of q) := by
  obtain ⟨monotone,later⟩ := forward
  have before := follows.rules q
  by_cases checking_at : ∃ p, s.pc = .triggers p
  · obtain ⟨p,at_p⟩ := checking_at
    simp only [note,at_p]
    cases watched with
    | @checked p' jobs events here =>
      obtain rfl := Pc.triggers.inj (here.symm.trans at_p)
      by_cases same : q = p'
      · subst same
        rw [RulesCollection.list_set_list,Function.update_self]
        exact related_check checking before monotone later
      · rw [RulesCollection.list_set_list_ne _ _ same,Function.update_of_ne same]
        exact related_later checking before (later.trans (monotone (Nat.zero_le _)))
    | equal here | differ here | copied here | stamped here | merged here | failed here | rated here | saved here
    | opened here | closed here | reread here => cases here.symm.trans at_p
  · have elsewhere : ∀ p, s.pc ≠ .triggers p := fun p at_p => checking_at ⟨p,at_p⟩
    have unnoted : note platform look (.watch now clock) s h = h := by
      cases here : s.pc with
      | triggers p => exact absurd here (elsewhere p)
      | _ => simp [note,here]
    rw [unnoted,Daemon.states_frame (.watch watched) id (elsewhere q)]
    exact before

private theorem fresh_assigning (moved : Daemon.Stepped platform s a s') (follows : Follows R s h) (p : Proto)
    (buff : RulesCollection) (at_p : s'.loader = .assigning p buff) :
    ∀ q, ∀ r ∈ (buff.list q).rules_, Fresh r.toBaseRule := by
  cases moved with
  | load loaded =>
    cases loaded with
    | @filled p' file old filled here last read =>
      obtain ⟨rfl,rfl⟩ := Loader.assigning.inj at_p
      intro q r member
      rw [RulesFileLoader.filled_rules read q] at member
      obtain ⟨_,_,tokens,parsed⟩ := RulesFileLoader.loaded_rules_parsed member
      exact parse_fresh parsed
    | @assigned p' old here =>
      cases next : p'.next with
      | none => simp [next] at at_p
      | some p'' =>
        simp only [next,Loader.assigning.injEq] at at_p
        exact at_p.2 ▸ follows.fresh p' old here
    | copied here next => cases at_p
    | failed here => cases at_p
    | changed here => cases at_p
  | watch watched => cases watched <;> exact follows.fresh p buff at_p
  | reload idle => cases at_p
  | _ => exact follows.fresh p buff at_p

/-- The time of the latest check does not go back. -/
theorem latest_note (forward : Forward (s,h) a) : h.latest ≤ (note platform look a s h).latest := by
  cases a with
  | watch now clock =>
    obtain ⟨monotone,later⟩ := forward
    cases here : s.pc with
    | triggers p =>
      simp only [note,here]
      exact later.trans (monotone (Nat.zero_le _))
    | _ => simp [note,here]
  | console p e =>
    simp only [note]
    split <;> exact le_refl _
  | load now =>
    simp only [note]
    split <;> exact le_refl _
  | packet i p packet => exact le_refl _
  | reload file now => exact le_refl _

/-- Every step keeps what is kept beside the rules related to them. -/
theorem follows_step (checking : Checking platform look R) (moved : Daemon.Stepped platform s a s')
    (forward : Forward (s,h) a) (follows : Follows R s h) : Follows R s' (note platform look a s h) := by
  refine ⟨follows.begun.trans (latest_note forward),fun q => ?_,fresh_assigning moved follows⟩
  cases moved with
  | console => exact related_console checking forward follows q
  | load loaded => exact related_load checking loaded follows q
  | watch watched => exact related_watch checking watched forward follows q
  | _ => exact follows.rules q

theorem follows_start (checking : Checking platform look R) (unchecked : Daemon.Unchecked s) : Follows R s (start s) where
  begun := le_refl 0
  rules p := related_fresh checking (unchecked.fresh p) (le_refl 0)
  fresh p buff at_p := absurd at_p (unchecked.idle p buff)

theorem mem_update {of : Proto → List (List α)} {p q : Proto} {new : List (List α)} {left : List α}
    (kept : left ∈ Function.update of p new q) : q = p ∧ left ∈ new ∨ left ∈ of q := by
  by_cases same : q = p
  · subst same
    exact .inl ⟨rfl,by rwa [Function.update_self] at kept⟩
  · exact .inr (by rwa [Function.update_of_ne same] at kept)

/-- What is kept has been there before, or a check has just left it. -/
theorem mem_note {q : Proto} {left : List α} {e : α} (kept : left ∈ (note platform look a s h).of q) (member : e ∈ left) :
    (∃ before ∈ h.of q, e ∈ before) ∨ s.pc = .triggers q ∧
      ∃ now clock k r, a = .watch now clock ∧ (s.main.list q).rules_[k]? = some r ∧ e = look r (clock k) := by
  have old (same : left ∈ h.of q) : ∃ before ∈ h.of q, e ∈ before := ⟨left,same,member⟩
  cases a with
  | packet i p packet => exact .inl (old kept)
  | reload file now => exact .inl (old kept)
  | console p edit =>
    refine .inl ?_
    simp only [note] at kept
    split at kept
    · rcases mem_update kept with ⟨rfl,new⟩ | same
      · exact ⟨left,edit.mem_of_follow new (List.ne_nil_of_mem member),member⟩
      · exact old same
    · exact old kept
  | load now =>
    refine .inl ?_
    simp only [note] at kept
    split at kept
    · rcases mem_update kept with ⟨rfl,new⟩ | same
      · obtain ⟨_,_,rfl⟩ := List.mem_map.mp new
        cases member
      · exact old same
    · exact old kept
  | watch now clock =>
    cases here : s.pc with
    | triggers p =>
      simp only [note,here] at kept
      rcases mem_update kept with ⟨rfl,new⟩ | same
      · obtain ⟨k,inside,rfl⟩ := List.getElem_of_mem new
        simp only [add,List.length_zipWith,List.length_mapIdx,lt_inf_iff] at inside
        simp only [add,List.getElem_zipWith,List.getElem_mapIdx,List.mem_append,List.mem_singleton] at member
        rcases member with before | new
        · exact .inl ⟨_,List.getElem_mem inside.1,before⟩
        · exact .inr ⟨rfl,now,clock,k,_,rfl,List.getElem?_eq_getElem inside.2,new⟩
      · exact .inl (old same)
    | _ =>
      simp only [note,here] at kept
      exact .inl (old kept)

/-- In every run from the start of the program the rules of main are related to what their
    checks have left. -/
theorem of_run (checking : Checking platform look R) {init : Daemon} (unchecked : Daemon.Unchecked init) {labels : List Label}
    (run : Runs.Run (Runs.recorded (Daemon.step platform) (note platform look)) Forward (init,start init) labels (s,h))
    {p : Proto} {k : Nat} {r : Rule (Fields p)} (rule : (s.main.list p).rules_[k]? = some r) :
    ∃ left, (h.of p)[k]? = some left ∧ R h.latest r.trigger_state left := by
  have follows : Follows R s h := run.invariant_recorded (follows_start checking unchecked)
    fun _ _ _ _ follows forward taken => follows_step checking (Daemon.stepped taken) forward follows
  obtain ⟨size,all⟩ := List.forall₂_iff_get.mp (follows.rules p)
  obtain ⟨inside,rfl⟩ := List.getElem?_eq_some_iff.mp rule
  have here : k < (s.main.list p).states.length := by simpa [RulesList.states] using inside
  have there : k < (h.of p).length := size ▸ here
  exact ⟨_,List.getElem?_eq_getElem there,by simpa [RulesList.states] using all k here there⟩

/-- The checks of the watcher do not come before the latest. -/
def in_order : Label → Daemon × History α → Bool
  | .watch _ clock, sh => sh.2.latest ≤ clock 0
  | _, _ => true

/-- Steps of the watcher at given times and packets are in order if their times are. -/
theorem forward_in_order (labels : List Label)
    (each : ∀ a ∈ labels, (∃ t, a = Daemon.tick t) ∨ ∃ i p packet, a = .packet i p packet) :
    ∀ a ∈ labels, ∀ sh : Daemon × History α, in_order a sh = true → Forward sh a := by
  intro a member sh ordered
  rcases each a member with ⟨t,rfl⟩ | ⟨i,p,packet,rfl⟩
  · exact ⟨monotone_const,of_decide_eq_true ordered⟩
  · trivial

end History
end DdosDetector
