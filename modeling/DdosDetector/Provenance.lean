import DdosDetector.Daemon

/-!
Where the rules in use come from: every rule in main, in a thread or in a buffer
about to be assigned was there at the start, was given to the console or was a
line of a rules file. What holds of all of these, as entered, holds of every rule
in use.
-/
namespace DdosDetector

/-- The rule that an edit enters, before `parse`. -/
def Edit.rule {F : Type} : Edit F → Option (Rule F)
  | .add_rule rule => some rule
  | .insert_rule _ rule => some rule
  | .del_rule _ => none

/-- A rule in an edited list was there before or has been entered. -/
theorem Edit.mem_apply {F H : Type} [ProtoRule F H] {platform : Platform} {l l' : RulesList F} {e : Edit F}
    (applied : e.apply platform l = .ok l') {r : Rule F} (member : r ∈ l'.rules_) :
    r ∈ l.rules_ ∨ ∃ given, e.rule = some given ∧ ProtoRule.parse platform l.parse_opt_ given = .ok r := by
  cases e with
  | add_rule rule =>
    obtain ⟨made,parsed,added⟩ := bind_ok applied
    obtain rfl := Except.ok.inj added
    rcases List.mem_append.mp member with old | new
    · exact .inl old
    · exact .inr ⟨rule,rfl,by rw [parsed,List.mem_singleton.mp new]⟩
  | insert_rule num rule =>
    obtain ⟨made,parsed,inserted⟩ := bind_ok applied
    split_ifs at inserted with empty range
    obtain rfl := Except.ok.inj inserted
    simp only [List.append_assoc,List.mem_append,List.mem_singleton] at member
    rcases member with before | new | after
    · exact .inl (List.mem_of_mem_take before)
    · exact .inr ⟨rule,rfl,by rw [parsed,new]⟩
    · exact .inl (List.mem_of_mem_drop after)
  | del_rule num =>
    simp only [apply,RulesList.del_rule] at applied
    split_ifs at applied with empty range
    obtain rfl := Except.ok.inj applied
    exact .inl (List.mem_of_mem_eraseIdx member)

/-- The rule is what `parse` makes of some text, accepted under some options. -/
def Parsed {p : Proto} (r : Rule (Fields p)) : Prop :=
  ∃ (platform : Platform) (opt : options_description) (tokens : List Text),
    ProtoRule.parse platform opt (ProtoRule.new tokens) = .ok r

namespace RulesFileLoader

/-- The rules that a file holds. -/
def loaded_rules (platform : Platform) (opt : options_description) (p : Proto) : RulesFile → List (Rule (Fields p))
  | .content text => file_rules platform opt p (getlines text)
  | _ => []

theorem load_file_spec {platform : Platform} {file : RulesFile} {buff filled : RulesCollection}
    (read : load_file platform file buff = .ok filled) (p : Proto) :
    filled.list p = { buff.list p with
      rules_ := (buff.list p).rules_ ++ loaded_rules platform (buff.list p).parse_opt_ p file } := by
  cases file with
  | missing => obtain rfl := Except.ok.inj read; simp [loaded_rules]
  | unreadable => obtain rfl := Except.ok.inj read; simp [loaded_rules]
  | content text =>
    have tokenized : ∀ line ∈ getlines text, ∃ tokens, tokenize platform ' ' line = .ok tokens := by
      intro line member
      by_contra broken
      obtain ⟨error,thrown⟩ := load_lines_error member broken buff
      rw [load_file,thrown] at read
      cases read
    obtain ⟨filled',loaded,added⟩ := load_lines_spec tokenized buff
    obtain rfl := Except.ok.inj (loaded.symm.trans read)
    exact added p

theorem loaded_rules_parsed {platform : Platform} {opt : options_description} {p : Proto} {file : RulesFile}
    {r : Rule (Fields p)} (member : r ∈ loaded_rules platform opt p file) : Parsed r := by
  cases file with
  | missing => simp [loaded_rules] at member
  | unreadable => simp [loaded_rules] at member
  | content text =>
    simp only [loaded_rules,file_rules,List.mem_filterMap] at member
    obtain ⟨line,_,made⟩ := member
    unfold line_rule at made
    split at made
    · split_ifs at made
      rename_i type word words _ _
      refine ⟨platform,opt,word :: words,?_⟩
      cases parsed : ProtoRule.parse platform opt (ProtoRule.new (word :: words) : Rule (Fields p)) with
      | error error => simp [parsed,Except.toOption] at made
      | ok rule =>
        simp only [parsed,Except.toOption,Option.some.injEq] at made
        rw [made]
    · cases made

/-- Into an empty buffer, a file brings just the rules that it holds. -/
theorem filled_rules {platform : Platform} {file : RulesFile} {buff filled : RulesCollection}
    (read : load_file platform file buff.clear = .ok filled) (p : Proto) :
    (filled.list p).rules_ = loaded_rules platform (buff.list p).parse_opt_ p file := by
  have cleared : buff.clear.list p = (buff.list p).clear := by cases p <;> rfl
  rw [load_file_spec read p,cleared]
  simp [RulesList.clear]

end RulesFileLoader

/-- Every rule of the collection, as entered, is one of the given. -/
def RulesCollection.MadeOf (E : (p : Proto) → Rule (Fields p) → Prop) (c : RulesCollection) : Prop :=
  ∀ p, ∀ r ∈ (c.list p).rules_, E p r.entered

namespace Daemon
variable {E : (p : Proto) → Rule (Fields p) → Prop} {platform : Platform} {a : Label} {s s' : Daemon}

/-- Every rule in use, as entered, is one of the given. -/
structure MadeOf (E : (p : Proto) → Rule (Fields p) → Prop) (s : Daemon) : Prop where
  main : s.main.MadeOf E
  threads : ∀ (i : Nat) (c : RulesCollection), s.threads[i]? = some c → c.MadeOf E
  buff : ∀ p buff, s.loader = .assigning p buff → buff.MadeOf E

/-- The step enters only rules that are, once parsed, of the given. -/
def Enters (E : (p : Proto) → Rule (Fields p) → Prop) (platform : Platform) (s : Daemon) : Label → Prop
  | .console p e => ∀ given, e.rule = some given → ∀ r,
      ProtoRule.parse platform (s.main.list p).parse_opt_ given = .ok r → E p r.entered
  | .load _ => ∀ q file buff, s.loader = .copying q file buff → ∀ p,
      ∀ r ∈ RulesFileLoader.loaded_rules platform (buff.list p).parse_opt_ p file, E p r.entered
  | _ => True

/-- The console makes the rules that it enters from their words. -/
def FromWords : Label → Prop
  | .console p e => ∀ given, e.rule = some given → ∃ tokens, given = (ProtoRule.new tokens : Rule (Fields p))
  | _ => True

theorem madeOf_entered {c c' : RulesCollection} (same : SameEntered c' c) (made : c.MadeOf E) : c'.MadeOf E := by
  intro p r member
  have inside : r.entered ∈ (c'.list p).entered := List.mem_map_of_mem member
  rw [same p] at inside
  obtain ⟨old,old_member,equal⟩ := List.mem_map.mp inside
  exact equal ▸ made p old old_member

theorem madeOf_set_list {c : RulesCollection} {p : Proto} {l : RulesList (Fields p)} (made : c.MadeOf E)
    (new : ∀ r ∈ l.rules_, E p r.entered) : (c.set_list p l).MadeOf E :=
  RulesCollection.list_set_list_cases c p l (fun q m => ∀ r ∈ m.rules_, E q r.entered) new fun q _ => made q

theorem madeOf_console {c : RulesCollection} {p : Proto} {e : Edit (Fields p)} (made : c.MadeOf E)
    (enters : ∀ given, e.rule = some given → ∀ r,
      ProtoRule.parse platform (c.list p).parse_opt_ given = .ok r → E p r.entered) :
    (c.console platform p e).MadeOf E := by
  unfold RulesCollection.console
  cases applied : e.apply platform (c.list p) with
  | error error => exact made
  | ok l =>
    refine madeOf_set_list made ?_
    intro r member
    rcases Edit.mem_apply applied member with old | ⟨given,entered,parsed⟩
    · exact made p r old
    · exact enters given entered r parsed

theorem madeOf_filled {file : RulesFile} {buff filled : RulesCollection}
    (read : RulesFileLoader.load_file platform file buff.clear = .ok filled)
    (enters : ∀ p, ∀ r ∈ RulesFileLoader.loaded_rules platform (buff.list p).parse_opt_ p file, E p r.entered) :
    filled.MadeOf E := by
  intro p r member
  rw [RulesFileLoader.filled_rules read p] at member
  exact enters p r member

private theorem made_main (moved : Stepped platform s a s') (enters : Enters E platform s a) (made : MadeOf E s) :
    s'.main.MadeOf E := by
  cases moved with
  | console => exact madeOf_console made.main enters
  | load loaded =>
    cases loaded with
    | @assigned p buff here => exact madeOf_set_list made.main fun r member => made.buff p buff here p r member
    | changed here => exact madeOf_entered (fun p => by simp) made.main
    | _ => exact made.main
  | watch watched =>
    exact madeOf_entered (fun p => main_frame (.watch watched) id) made.main
  | _ => exact made.main

private theorem made_threads (moved : Stepped platform s a s') (made : MadeOf E s) (j : Nat) (c : RulesCollection)
    (found : s'.threads[j]? = some c) : c.MadeOf E := by
  have inside : j < s.threads.length := threads_length moved ▸ (List.getElem?_eq_some_iff.mp found).1
  obtain ⟨c',found',kept⟩ := thread_frame moved (List.getElem?_eq_getElem inside)
  obtain rfl := Option.some.inj (found'.symm.trans found)
  intro p r member
  by_cases copies : Copies s a j p
  · have same := thread_copied moved copies found
    have moved_rule : r.entered ∈ (s.main.list p).entered := same ▸ List.mem_map_of_mem member
    obtain ⟨old,old_member,equal⟩ := List.mem_map.mp moved_rule
    exact equal ▸ made.main p old old_member
  · have moved_rule : r.entered ∈ (s.threads[j].list p).entered := kept p copies ▸ List.mem_map_of_mem member
    obtain ⟨old,old_member,equal⟩ := List.mem_map.mp moved_rule
    exact equal ▸ made.threads j _ (List.getElem?_eq_getElem inside) p old old_member

private theorem made_buff (moved : Stepped platform s a s') (enters : Enters E platform s a) (made : MadeOf E s)
    (p : Proto) (buff : RulesCollection) (at_p : s'.loader = .assigning p buff) : buff.MadeOf E := by
  cases moved with
  | load loaded =>
    cases loaded with
    | @filled q file old filled here last read =>
      obtain ⟨rfl,rfl⟩ := Loader.assigning.inj at_p
      refine madeOf_filled read ?_
      intro q' r member
      refine enters q file old here q' r ?_
      simpa using member
    | @assigned q old here =>
      cases next : q.next with
      | none => simp [next] at at_p
      | some q' =>
        simp only [next,Loader.assigning.injEq] at at_p
        exact at_p.2 ▸ made.buff q old here
    | copied here next => cases at_p
    | failed here => cases at_p
    | changed here => cases at_p
  | watch watched => cases watched <;> exact made.buff p buff at_p
  | reload idle => cases at_p
  | _ => exact made.buff p buff at_p

/-- One step keeps to the given rules if it enters no other. -/
theorem madeOf_step (moved : Stepped platform s a s') (enters : Enters E platform s a) (made : MadeOf E s) :
    MadeOf E s' :=
  ⟨made_main moved enters made,made_threads moved made,made_buff moved enters made⟩

/-- The collections that the parties keep: main, those of the threads, the snapshot of
    the watcher and the buffer of a reload. -/
inductive Stored (s : Daemon) : RulesCollection → Prop
  | main : Stored s s.main
  | thread {i : Nat} {c : RulesCollection} (thread : s.threads[i]? = some c) : Stored s c
  | prev : Stored s s.prev
  | copying {p : Proto} {file : RulesFile} {buff : RulesCollection} (here : s.loader = .copying p file buff) : Stored s buff
  | assigning {p : Proto} {buff : RulesCollection} (here : s.loader = .assigning p buff) : Stored s buff

/-- Every rule in use comes from the given, and so do those of the snapshot and of the
    copy that a reload fills. -/
structure StoredOf (E : (p : Proto) → Rule (Fields p) → Prop) (s : Daemon) : Prop where
  used : MadeOf E s
  prev : s.prev.MadeOf E
  copying : ∀ p file buff, s.loader = .copying p file buff → buff.MadeOf E

theorem StoredOf.stored {c : RulesCollection} (holds : StoredOf E s) (stored : Stored s c) : c.MadeOf E := by
  cases stored with
  | main => exact holds.used.main
  | thread thread => exact holds.used.threads _ _ thread
  | prev => exact holds.prev
  | copying here => exact holds.copying _ _ _ here
  | assigning here => exact holds.used.buff _ _ here

theorem madeOf_assign_list {c other : RulesCollection} {p : Proto} {now : time_point} (made : c.MadeOf E)
    (other_made : other.MadeOf E) : (c.assign_list other p now).MadeOf E := by
  intro q r member
  by_cases same : q = p
  · subst same
    rw [RulesCollection.list_assign_list,RulesList.rules_assign] at member
    exact other_made q r member
  · rw [RulesCollection.list_assign_list_ne _ _ _ same] at member
    exact made q r member

private theorem stored_prev (moved : Stepped platform s a s') (holds : StoredOf E s) : s'.prev.MadeOf E := by
  intro p r member
  by_cases saves : Saves s a p
  · rw [prev_saved moved saves] at member
    exact holds.used.main p r member
  · rw [prev_frame moved saves] at member
    exact holds.prev p r member

private theorem stored_copying (moved : Stepped platform s a s') (holds : StoredOf E s) (p : Proto) (file : RulesFile)
    (buff : RulesCollection) (at_p : s'.loader = .copying p file buff) : buff.MadeOf E := by
  cases moved with
  | load loaded =>
    cases loaded with
    | @copied q _ _ old here =>
      obtain ⟨rfl,rfl,rfl⟩ := Loader.copying.inj at_p
      exact madeOf_assign_list (holds.copying q _ old here) holds.used.main
    | @assigned q old here => cases next : q.next <;> simp [next] at at_p
    | filled here => cases at_p
    | failed here => cases at_p
    | changed here => cases at_p
  | watch watched => cases watched <;> exact holds.copying p file buff at_p
  | reload idle =>
    obtain ⟨rfl,rfl,rfl⟩ := Loader.copying.inj at_p
    intro q r member
    cases q <;> cases member
  | _ => exact holds.copying p file buff at_p

/-- One step keeps all collections to the given rules if it enters no other. -/
theorem storedOf_step (moved : Stepped platform s a s') (enters : Enters E platform s a) (holds : StoredOf E s) :
    StoredOf E s' :=
  ⟨madeOf_step moved enters holds.used,stored_prev moved holds,stored_copying moved holds⟩

/-- At the start the snapshot is a copy of main. -/
theorem storedOf_start {main : RulesCollection} {threads : List RulesCollection} (now : time_point)
    (main_made : main.MadeOf E) (threads_made : ∀ c ∈ threads, c.MadeOf E) : StoredOf E (start main threads now) where
  used := ⟨main_made,fun _ _ found => threads_made _ (List.mem_of_getElem? found),fun _ _ here => by cases here⟩
  prev := fun p r member => main_made p r (by cases p <;> exact member)
  copying := fun _ _ _ here => by cases here

end Daemon
end DdosDetector
