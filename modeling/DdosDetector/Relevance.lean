import DdosDetector.Daemon

/-!
When the triggers are checked. The watcher skips the checks of an iteration in which it
finds `last_change` renewed, but only a reload renews it, and only after it has assigned
the lists. Where every list that was changed is announced in time by such a renewal, the
checks see lists that stand as the previous iteration saved them, with rates of this one.
-/
namespace DdosDetector

namespace RulesList
variable {F : Type}

def rates (l : RulesList F) : List (UInt64 × UInt64) := l.rules_.map fun r => (r.pps,r.bps)

theorem rates_check_triggers (platform : Platform) (cur_time : Nat → Int) (l : RulesList F) :
    (l.check_triggers platform cur_time).1.rates = l.rates := by
  apply List.ext_getElem? fun k => ?_
  rw [rates,rates,List.getElem?_map,List.getElem?_map,rules_check_triggers]
  cases l.rules_[k]? with
  | none => rfl
  | some r =>
    obtain ⟨_,_,_,pps,bps⟩ := check_trigger_frame platform r (cur_time k)
    simp [pps,bps]

end RulesList

/-- What has become of main's lists since they were last saved, and before that in the
    iteration that saved them last. -/
structure Changes where
  since : Proto → Bool
  before : Proto → Bool
  /-- A reload has renewed `last_change` since the watcher last noted it. -/
  renewed : Bool
  /-- The rules that `calc_delta` last compared with, as entered, and the rates that it
      gave if it divided. -/
  old : (p : Proto) → List (Rule (Fields p))
  rates : Proto → Option (List (UInt64 × UInt64))

namespace Changes

/-- Nothing has changed yet; the start renews `last_change`. -/
def start (s : Daemon) : Changes where
  since _ := false
  before _ := false
  renewed := s.last_change ≠ s.main.last_change
  old _ := []
  rates _ := none

def written (h : Changes) (p : Proto) : Changes := { h with since := Function.update h.since p true }

def saved (h : Changes) (p : Proto) : Changes :=
  { h with
    before := Function.update h.before p (h.since p)
    since := Function.update h.since p false }

def rated (h : Changes) (p : Proto) (old : List (Rule (Fields p))) (rates : Option (List (UInt64 × UInt64))) : Changes :=
  { h with
    old := Function.update h.old p old
    rates := Function.update h.rates p rates }

/-- What a step adds to the changes. -/
def note (platform : Platform) : Label → Daemon → Changes → Changes
  | .packet _ _ _, _, h => h
  | .console p e, s, h =>
    match e.apply platform (s.main.list p) with
    | .ok _ => h.written p
    | .error _ => h
  | .reload _ _, _, h => h
  | .load _, s, h =>
    match s.loader with
    | .assigning p _ => h.written p
    | .changing => { h with renewed := true }
    | _ => h
  | .watch _ _, s, h =>
    match s.pc with
    | .delta p =>
      h.rated p (s.prev.list p).entered
        (if (s.main.list p).rules_.length = (s.prev.list p).rules_.length then
          some ((s.main.list p).calc_delta platform (s.prev.list p)).rates
        else none)
    | .snapshot p => h.saved p
    | .reread => { h with renewed := false }
    | _ => h

end Changes

namespace Daemon
variable {platform : Platform} {a : Label} {s s' : Daemon} {h : Changes}

/-- Changes are announced: the watcher compares `last_change` after a change only if a
    reload has renewed it since the watcher noted it, to another time; and nothing changes
    while the triggers are being checked. -/
structure Announced (platform : Platform) (sh : Daemon × Changes) (a : Label) : Prop where
  renewed : ∀ now clock, a = .watch now clock → sh.1.pc = .gate →
    (∃ q, sh.2.since q = true ∨ sh.2.before q = true) → sh.2.renewed = true
  fresh : ∀ now, a = .load now → sh.1.loader = .changing → now ≠ sh.1.last_change
  quiet : ∀ p, sh.1.pc = .triggers p → ∀ q, ¬ Writes platform sh.1 a q

/-! ### The marks -/

/-- What a step makes of the marks of one list: a write sets the first, saving the list
    passes it on to the second, everything else leaves them. -/
theorem note_marks (platform : Platform) (a : Label) (s : Daemon) (h : Changes) (p : Proto) :
    (Writes platform s a p ∧ (Changes.note platform a s h).since p = true) ∨
    (Saves s a p ∧ (Changes.note platform a s h).since p = false ∧
      (Changes.note platform a s h).before p = h.since p) ∨
    (¬ Writes platform s a p ∧ ¬ Saves s a p ∧ (Changes.note platform a s h).since p = h.since p ∧
      (Changes.note platform a s h).before p = h.before p) := by
  cases a with
  | packet i q packet => exact .inr (.inr ⟨id,id,rfl,rfl⟩)
  | reload file now => exact .inr (.inr ⟨id,id,rfl,rfl⟩)
  | console q e =>
    cases applied : e.apply platform (s.main.list q) with
    | error error =>
      refine .inr (.inr ⟨?_,id,by simp [Changes.note,applied],by simp [Changes.note,applied]⟩)
      rintro ⟨rfl,l,edited⟩
      cases applied.symm.trans edited
    | ok l =>
      by_cases same : p = q
      · subst same
        exact .inl ⟨⟨rfl,l,applied⟩,by simp [Changes.note,applied,Changes.written]⟩
      · refine .inr (.inr ⟨fun writes => same writes.1.symm,id,?_,by simp [Changes.note,applied,Changes.written]⟩)
        simp [Changes.note,applied,Changes.written,same]
  | load now =>
    cases here : s.loader with
    | assigning q buff =>
      by_cases same : p = q
      · subst same
        exact .inl ⟨⟨buff,here⟩,by simp [Changes.note,here,Changes.written]⟩
      · refine .inr (.inr ⟨?_,id,?_,by simp [Changes.note,here,Changes.written]⟩)
        · rintro ⟨other,assigning⟩
          exact same (Loader.assigning.inj (here.symm.trans assigning)).1.symm
        · simp [Changes.note,here,Changes.written,same]
    | idle | copying q file buff | changing | stopped =>
      refine .inr (.inr ⟨?_,id,by simp [Changes.note,here],by simp [Changes.note,here]⟩)
      rintro ⟨other,assigning⟩
      cases here.symm.trans assigning
  | watch now clock =>
    cases here : s.pc with
    | snapshot q =>
      by_cases same : p = q
      · subst same
        exact .inr (.inl ⟨here,by simp [Changes.note,here,Changes.saved],by simp [Changes.note,here,Changes.saved]⟩)
      · refine .inr (.inr ⟨id,?_,?_,?_⟩)
        · exact fun saves => same (Pc.snapshot.inj (here.symm.trans saves)).symm
        · simp [Changes.note,here,Changes.saved,same]
        · simp [Changes.note,here,Changes.saved,same]
    | _ =>
      refine .inr (.inr ⟨id,not_saves (by simp [here]),?_,?_⟩)
      all_goals simp [Changes.note,here,Changes.rated]

/-- A renewal is not lost before the watcher notes it. -/
def Renewed (s : Daemon) (h : Changes) : Prop := h.renewed = true → s.last_change ≠ s.main.last_change

theorem renewed_step (moved : Stepped platform s a s') (announced : Announced platform (s,h) a) (before : Renewed s h) :
    Renewed s' (Changes.note platform a s h) := by
  intro renewed
  cases moved with
  | @console p e =>
    have kept : h.renewed = true := by
      simp only [Changes.note] at renewed
      split at renewed <;> exact renewed
    simpa using before kept
  | load loaded =>
    cases loaded with
    | changed here => exact (announced.fresh _ rfl here).symm
    | assigned here =>
      have kept : h.renewed = true := by simpa [Changes.note,here,Changes.written] using renewed
      simpa using before kept
    | copied here | filled here | failed here => exact before (by simpa [Changes.note,here] using renewed)
  | watch watched =>
    cases watched with
    | reread here => simp [Changes.note,here] at renewed
    | equal here | differ here | copied here | stamped here | merged here | failed here | rated here | saved here
    | opened here | closed here | checked here =>
      have kept : h.renewed = true := by simpa [Changes.note,here,Changes.rated,Changes.saved] using renewed
      simpa using before kept
  | _ => exact before renewed

/-- While the triggers are being checked, no list has changed. -/
def Unchanged (s : Daemon) (h : Changes) : Prop :=
  ∀ p, s.pc = .triggers p → ∀ q, h.since q = false ∧ h.before q = false

/-- The checks begin at the gate, where equal times mean that nothing was renewed. -/
theorem checking_before (moved : Stepped platform s a s') {p : Proto} (checking : s'.pc = .triggers p) :
    (∃ q, s.pc = .triggers q) ∨
      s.pc = .gate ∧ s.last_change = s.main.last_change ∧ ∃ now clock, a = .watch now clock := by
  cases moved with
  | load loaded => cases loaded <;> exact .inl ⟨p,checking⟩
  | watch watched =>
    cases watched with
    | opened here same => exact .inr ⟨here,same,_,_,rfl⟩
    | @checked q jobs events here => exact .inl ⟨q,here⟩
    | @equal i q c here thread same => cases q <;> cases checking
    | @copied i q c here thread => cases q <;> cases checking
    | @merged i q c l l' here thread sum =>
      cases q with
      | TCP => cases checking
      | UDP => cases checking
      | ICMP => rcases visit_cases s (i + 1) with visit | visit <;> cases visit.symm.trans checking
    | @rated q here => cases q <;> cases checking
    | @saved q here => cases q <;> cases checking
    | reread here => rcases visit_cases s 0 with visit | visit <;> cases visit.symm.trans checking
    | differ here | stamped here | failed here | closed here => cases checking
  | _ => exact .inl ⟨p,checking⟩

theorem unchanged_step (moved : Stepped platform s a s') (announced : Announced platform (s,h) a) (renewed : Renewed s h)
    (unchanged : Unchanged s h) : Unchanged s' (Changes.note platform a s h) := by
  intro p checking q
  have still : (∀ q, h.since q = false ∧ h.before q = false) ∧ ¬ Writes platform s a q ∧ ¬ Saves s a q := by
    rcases checking_before moved checking with ⟨q',here⟩ | ⟨here,same,now,clock,rfl⟩
    · exact ⟨unchanged q' here,announced.quiet q' here q,not_saves (by simp [here])⟩
    · refine ⟨fun q => ?_,id,not_saves (by simp [here])⟩
      by_contra changed
      have some_change : h.since q = true ∨ h.before q = true := by
        cases since : h.since q <;> cases before : h.before q <;> simp_all
      exact renewed (announced.renewed now clock rfl here ⟨q,some_change⟩) same
  obtain ⟨marks,unwritten,unsaved⟩ := still
  rcases note_marks platform a s h q with ⟨writes,_⟩ | ⟨saves,_⟩ | ⟨_,_,since,before⟩
  · exact absurd writes unwritten
  · exact absurd saves unsaved
  · rw [since,before]
    exact marks q

/-! ### The lists -/

/-- A list that has not changed since it was saved stands as it was saved. -/
def StandsSaved (s : Daemon) (h : Changes) : Prop :=
  ∀ q, h.since q = false → (s.main.list q).entered = (s.prev.list q).entered

theorem standsSaved_step (moved : Stepped platform s a s') (stands : StandsSaved s h) :
    StandsSaved s' (Changes.note platform a s h) := by
  intro q unchanged
  rcases note_marks platform a s h q with ⟨_,since⟩ | ⟨saves,_⟩ | ⟨unwritten,unsaved,since,_⟩
  · cases since.symm.trans unchanged
  · rw [main_frame moved (saves_unwritten saves),prev_saved moved saves,RulesList.entered_assign]
  · rw [main_frame moved unwritten,prev_frame moved unsaved]
    exact stands q (since ▸ unchanged)

/-- In this iteration a list that has not changed since the last one saved it has got new
    rates, and keeps them. -/
def HasRates (s : Daemon) (h : Changes) : Prop :=
  ∀ q, Rated s.pc q → h.since q = false → (Saved s.pc q → h.before q = false) →
    (s.main.list q).entered = h.old q ∧ h.rates q = some (s.main.list q).rates

/-- A list that has just been rated stays so until the next iteration. -/
theorem rated_before (moved : Stepped platform s a s') {q : Proto} (later : Rated s'.pc q) :
    (∃ now clock, a = .watch now clock) ∧ s.pc = .delta q ∨
      Rated s.pc q ∧ (Saved s.pc q → Saved s'.pc q) ∧ ∀ now clock, a = .watch now clock → s.pc ≠ .delta q := by
  cases moved with
  | load loaded => cases loaded <;> exact .inr ⟨later,id,fun _ _ other => by cases other⟩
  | watch watched =>
    cases watched with
    | @rated p here =>
      rcases rated_rated later with before | rfl
      · refine .inr ⟨here ▸ before,by simp [here,Saved],?_⟩
        intro _ _ _ at_delta
        obtain rfl := Pc.delta.inj (here.symm.trans at_delta)
        simp [Rated] at before
      · exact .inl ⟨⟨_,_,rfl⟩,here⟩
    | @saved p here =>
      refine .inr ⟨by simp [here,Rated],fun before => ?_,by simp [here]⟩
      rw [here] at before
      cases p <;> cases q <;> simp_all [Saved,saved,Proto.next,Proto.index]
    | opened here same => exact .inr ⟨by simp [here,Rated],fun _ => trivial,by simp [here]⟩
    | @checked p jobs events here =>
      refine .inr ⟨here ▸ (rated_checked later).1,fun _ => ?_,by simp [here]⟩
      cases p with
      | TCP => trivial
      | UDP => trivial
      | ICMP => exact absurd later (not_rated_visit s 0 q)
    | reread here => exact absurd later (not_rated_visit s 0 q)
    | @equal i p c here thread same => cases p <;> cases later
    | @copied i p c here thread => cases p <;> cases later
    | @merged i p c l l' here thread sum =>
      cases p with
      | TCP => cases later
      | UDP => cases later
      | ICMP => exact absurd later (not_rated_visit s (i + 1) q)
    | differ here | stamped here | failed here | closed here => cases later
  | _ => exact .inr ⟨later,id,fun _ _ other => by cases other⟩

/-- The rates of a list that has been rated stay as they are. -/
theorem rates_frame (moved : Stepped platform s a s') {q : Proto} (rated : Rated s.pc q)
    (unwritten : ¬ Writes platform s a q) : (s'.main.list q).rates = (s.main.list q).rates := by
  cases moved with
  | console => exact congrArg RulesList.rates (RulesCollection.list_console unwritten)
  | load loaded =>
    cases loaded with
    | @assigned p buff here =>
      have other : q ≠ p := fun same => unwritten (by subst same; exact ⟨buff,here⟩)
      exact congrArg RulesList.rates (RulesCollection.list_set_list_ne s.main _ other)
    | changed here => simp
    | _ => rfl
  | watch watched =>
    cases watched with
    | stamped here | merged here => simp [here,Rated] at rated
    | @rated p here =>
      have other : q ≠ p := by
        rintro rfl
        simp [here,Rated] at rated
      exact congrArg RulesList.rates (RulesCollection.list_set_list_ne s.main _ other)
    | @checked p jobs events here =>
      exact RulesCollection.list_set_list_cases s.main p _ (fun q l => l.rates = (s.main.list q).rates)
        (RulesList.rates_check_triggers platform _ _) (fun _ _ => rfl) q
    | _ => rfl
  | _ => rfl

private theorem note_old (platform : Platform) (h : Changes) {q : Proto} (elsewhere : ∀ now clock, a = .watch now clock → s.pc ≠ .delta q) :
    (Changes.note platform a s h).old q = h.old q ∧ (Changes.note platform a s h).rates q = h.rates q := by
  cases a with
  | console p e =>
    simp only [Changes.note]
    split <;> exact ⟨rfl,rfl⟩
  | load now =>
    simp only [Changes.note]
    split <;> exact ⟨rfl,rfl⟩
  | watch now clock =>
    cases here : s.pc with
    | delta p =>
      have other : q ≠ p := fun same => elsewhere now clock rfl (same ▸ here)
      simp [Changes.note,here,Changes.rated,other]
    | _ => simp [Changes.note,here,Changes.saved]
  | _ => exact ⟨rfl,rfl⟩

private theorem saved_itself (q : Proto) : Saved (saved q) q := by
  cases q <;> simp [saved,Proto.next,Saved,Proto.index]

private theorem saves_saved (moved : Stepped platform s a s') {q : Proto} (saves : Saves s a q) :
    ¬ Saved s.pc q ∧ Saved s'.pc q := by
  cases moved with
  | watch watched =>
    have at_snapshot : s.pc = .snapshot q := saves
    refine ⟨by simp [at_snapshot,Saved],?_⟩
    cases watched with
    | saved here =>
      cases Pc.snapshot.inj (here.symm.trans at_snapshot)
      exact saved_itself _
    | equal here | differ here | copied here | stamped here | merged here | failed here | rated here | opened here
    | closed here | reread here | checked here => cases here.symm.trans at_snapshot
  | _ => exact saves.elim

theorem hasRates_step (moved : Stepped platform s a s') (stands : StandsSaved s h) (rates : HasRates s h) :
    HasRates s' (Changes.note platform a s h) := by
  intro q later unchanged unchanged_before
  rcases rated_before moved later with ⟨⟨now,clock,rfl⟩,here⟩ | ⟨rated,stays,elsewhere⟩
  · have since : h.since q = false := by simpa [Changes.note,here,Changes.rated] using unchanged
    have stood := stands q since
    have size := RulesList.entered_length stood
    cases moved with
    | watch watched =>
      have same : (s'.main.list q).entered = (s.main.list q).entered := main_frame (.watch watched) id
      cases watched with
      | rated at_delta =>
        obtain rfl := Pc.delta.inj (at_delta.symm.trans here)
        refine ⟨?_,?_⟩
        · rw [same,stood]
          simp [Changes.note,here,Changes.rated]
        · simp [Changes.note,here,Changes.rated,size]
      | equal at_pc | differ at_pc | copied at_pc | stamped at_pc | merged at_pc | failed at_pc | saved at_pc
      | opened at_pc | closed at_pc | reread at_pc | checked at_pc => cases at_pc.symm.trans here
  · obtain ⟨old,noted⟩ := note_old platform h elsewhere
    rw [old,noted]
    rcases note_marks platform a s h q with ⟨_,since⟩ | ⟨saves,_,before⟩ | ⟨unwritten,_,since,before⟩
    · cases since.symm.trans unchanged
    · obtain ⟨unsaved,now_saved⟩ := saves_saved moved saves
      rw [main_frame moved (saves_unwritten saves),rates_frame moved rated (saves_unwritten saves)]
      exact rates q rated (before ▸ unchanged_before now_saved) fun saved => absurd saved unsaved
    · rw [main_frame moved unwritten,rates_frame moved rated unwritten]
      exact rates q rated (since ▸ unchanged) fun saved => before ▸ unchanged_before (stays saved)

/-! ### The checks -/

/-- What a run keeps in which changes are announced. -/
structure Relevant (s : Daemon) (h : Changes) : Prop where
  renewed : Renewed s h
  unchanged : Unchanged s h
  stands : StandsSaved s h
  rates : HasRates s h

theorem relevant_step (moved : Stepped platform s a s') (announced : Announced platform (s,h) a)
    (relevant : Relevant s h) : Relevant s' (Changes.note platform a s h) where
  renewed := renewed_step moved announced relevant.renewed
  unchanged := unchanged_step moved announced relevant.renewed relevant.unchanged
  stands := standsSaved_step moved relevant.stands
  rates := hasRates_step moved relevant.stands relevant.rates

theorem relevant_start (main : RulesCollection) (threads : List RulesCollection) (begun : time_point) :
    Relevant (start main threads begun) (Changes.start (start main threads begun)) where
  renewed := by simp [Renewed,Changes.start]
  unchanged _ _ _ := ⟨rfl,rfl⟩
  stands q _ := by cases q <;> rfl
  rates q later := absurd later (not_rated_visit (start main threads begun) 0 q)

/-- In every run from the start of the watcher in which changes are announced, whenever a
    list is about to be checked: no list of main has changed since the previous iteration
    saved it, the list holds the rules that `calc_delta` has compared it with in this
    iteration, and its rates are those that `calc_delta` has then given it. -/
theorem checks_relevant (platform : Platform) (main : RulesCollection) (threads : List RulesCollection)
    (begun : time_point) {labels : List Label} {s : Daemon} {h : Changes}
    (run : Runs.Run (Runs.recorded (step platform) (Changes.note platform)) (Announced platform)
      (start main threads begun,Changes.start (start main threads begun)) labels (s,h))
    {p : Proto} (here : s.pc = .triggers p) :
    (∀ q, h.since q = false ∧ h.before q = false) ∧
      (s.main.list p).entered = h.old p ∧ h.rates p = some (s.main.list p).rates := by
  have relevant : Relevant s h := run.invariant_recorded (relevant_start main threads begun)
    fun s h a s' relevant announced taken => relevant_step (stepped taken) announced relevant
  have unchanged := relevant.unchanged p here
  exact ⟨unchanged,relevant.rates p (by simp [here,Rated]) (unchanged p).1 fun _ => (unchanged p).2⟩

/-- An iteration that comes to the checks, after one that has only noted the time of the
    start. -/
def until_checks : List Label := List.replicate 33 (tick 1)

/-- No list has changed. -/
def still (h : Changes) : Bool := [Proto.TCP,Proto.UDP,Proto.ICMP].all fun q => !h.since q && !h.before q

theorem still_announced (member : a ∈ until_checks) {sh : Daemon × Changes} (test : still sh.2 = true) :
    Announced platform sh a := by
  obtain rfl : a = tick 1 := List.eq_of_mem_replicate member
  refine ⟨fun _ _ _ _ ⟨q,changed⟩ => ?_,nofun,fun _ _ _ => id⟩
  cases q <;> simp_all [still]

/-- The first checks of the sample daemon. -/
theorem checks_relevant_first : ∃ labels s h,
    Runs.Run (Runs.recorded (step documented) (Changes.note documented)) (Announced documented)
      (sample_daemon,Changes.start sample_daemon) labels (s,h) ∧
    s.pc = .triggers .TCP ∧ h.rates .TCP = some (s.main.list .TCP).rates := by
  obtain ⟨s,h,reached,here⟩ : ∃ s h,
      Runs.runFrom (fun a sh => if still sh.2 then
          Runs.recorded (step documented) (Changes.note documented) a sh else none)
        (sample_daemon,Changes.start sample_daemon) until_checks = some (s,h) ∧ s.pc = .triggers .TCP :=
    ⟨_,_,rfl,rfl⟩
  have run : Runs.Run (Runs.recorded (step documented) (Changes.note documented)) (Announced documented) _ _ _ :=
    .of_runFrom (fun a member sh test => still_announced member test) reached
  exact ⟨_,s,h,run,here,(checks_relevant documented _ _ 0 run here).2.2⟩

/-- A rule is added after the time of the start has been noted: the next iteration checks
    lists that have changed, with rates that `calc_delta` has not computed. -/
theorem checks_irrelevant : ∃ labels s h,
    Runs.Run (Runs.recorded (step documented) (Changes.note documented)) (fun _ _ => True)
      (sample_daemon,Changes.start sample_daemon) labels (s,h) ∧
    s.pc = .triggers .TCP ∧ h.before .TCP = true ∧ (s.main.list .TCP).entered.length ≠ (h.old .TCP).length ∧
    h.rates .TCP = none := by
  obtain ⟨s,h,reached,rest⟩ : ∃ s h,
      Runs.runFrom (Runs.recorded (step documented) (Changes.note documented))
        (sample_daemon,Changes.start sample_daemon)
        (List.replicate 17 (tick 1) ++ [.console .TCP (.add_rule (TcpRule.new sample_words))] ++
          List.replicate 17 (tick 1)) = some (s,h) ∧
      s.pc = .triggers .TCP ∧ h.before .TCP = true ∧ (s.main.list .TCP).entered.length ≠ (h.old .TCP).length ∧
      h.rates .TCP = none :=
    ⟨_,_,rfl,rfl,rfl,by decide,rfl⟩
  exact ⟨_,s,h,.of_runFrom_free (fun _ _ _ => trivial) reached,rest⟩

end Daemon
end DdosDetector
