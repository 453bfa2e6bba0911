import DdosDetector.Provenance

/-!
The interval that `calc_delta` divides by. Every merge stamps main's list with the time,
and no time in use is later than the latest stamp; so the interval to the snapshot is
positive, unless a list that a reload has copied earlier is assigned after the stamps of
an iteration and before its rates.
-/
namespace DdosDetector
namespace Daemon
variable {platform : Platform} {a : Label} {s s' : Daemon} {latest : Proto → time_point}

/-- The time of the latest stamp of each list. -/
def note_stamps : Label → Daemon → (Proto → time_point) → Proto → time_point
  | .watch now _, s, latest =>
    match s.pc with
    | .stamp _ p => Function.update latest p now
    | _ => latest
  | _, _, latest => latest

/-- The step stamps a list of main. -/
def Stamps (s : Daemon) : Label → Proto → Prop
  | .watch _ _, p => ∃ i, s.pc = .stamp i p
  | _, _ => False

/-- In this iteration the list has got its last stamp, and no rates yet. -/
def Stamped (s : Daemon) (p : Proto) : Prop :=
  match s.pc with
  | .stamp i q => i + 1 = s.threads.length ∧ p.index < q.index
  | .merge i q => i + 1 = s.threads.length ∧ p.index ≤ q.index
  | .delta q => q.index ≤ p.index
  | _ => False

/-- The clock moves on between the stamps of a list. -/
def Clocked (sl : Daemon × (Proto → time_point)) (a : Label) : Prop :=
  ∀ p, Stamps sl.1 a p → sl.2 p < note_stamps a sl.1 sl.2 p

/-- The clock moves on between the stamps of a list; and a list that is assigned, or
    edited, between its last stamp and its rates is later than the snapshot if it can be
    compared with it. -/
structure Timed (platform : Platform) (sl : Daemon × (Proto → time_point)) (a : Label) : Prop where
  clock : Clocked sl a
  assigned : ∀ now p buff, a = .load now → sl.1.loader = .assigning p buff → Stamped sl.1 p →
    (buff.list p).rules_.length = (sl.1.prev.list p).rules_.length →
    (sl.1.prev.list p).last_update_ < (buff.list p).last_update_
  edited : ∀ p e l, a = .console p e → e.apply platform (sl.1.main.list p) = .ok l → Stamped sl.1 p →
    l.rules_.length = (sl.1.prev.list p).rules_.length →
    (sl.1.prev.list p).last_update_ < (sl.1.main.list p).last_update_

/-! ### Times in use -/

theorem note_stamps_same {p : Proto} (elsewhere : ¬ Stamps s a p) : note_stamps a s latest p = latest p := by
  cases a with
  | watch now clock =>
    cases here : s.pc with
    | stamp i q =>
      have other : p ≠ q := fun same => elsewhere ⟨i,same ▸ here⟩
      simp [note_stamps,here,other]
    | _ => simp [note_stamps,here]
  | _ => rfl

theorem note_stamps_le (timed : Timed platform (s,latest) a) (p : Proto) : latest p ≤ note_stamps a s latest p := by
  by_cases stamps : Stamps s a p
  · exact Int.le_of_lt (timed.clock p stamps)
  · exact (note_stamps_same stamps).ge

private theorem last_update_set_list {main : RulesCollection} {p : Proto} {l : RulesList (Fields p)}
    (same : l.last_update_ = (main.list p).last_update_) (q : Proto) :
    ((main.set_list p l).list q).last_update_ = (main.list q).last_update_ :=
  RulesCollection.list_set_list_cases main p l (fun q m => m.last_update_ = (main.list q).last_update_) same
    (fun _ _ => rfl) q

/-- How a step changes the time of a list of main: a stamp, or the assignment of a reload. -/
theorem last_update_cases (latest : Proto → time_point) (moved : Stepped platform s a s') (p : Proto) :
    (Stamps s a p ∧ (s'.main.list p).last_update_ = note_stamps a s latest p) ∨
    (∃ now buff, a = .load now ∧ s.loader = .assigning p buff ∧
      s'.main.list p = (s.main.list p).assign (buff.list p)) ∨
    (¬ Stamps s a p ∧ (s'.main.list p).last_update_ = (s.main.list p).last_update_) := by
  cases moved with
  | @console q e =>
    refine .inr (.inr ⟨id,?_⟩)
    cases applied : e.apply platform (s.main.list q) with
    | error error => simp [RulesCollection.console,applied]
    | ok l =>
      simp only [RulesCollection.console,applied]
      exact last_update_set_list (Edit.apply_spec applied).2.1 p
  | load loaded =>
    cases loaded with
    | @assigned q buff here =>
      by_cases same : p = q
      · subst same
        exact .inr (.inl ⟨_,buff,rfl,here,by simp⟩)
      · exact .inr (.inr ⟨id,by rw [RulesCollection.list_set_list_ne _ _ same]⟩)
    | changed here => exact .inr (.inr ⟨id,by simp⟩)
    | _ => exact .inr (.inr ⟨id,rfl⟩)
  | @watch now clock s' watched =>
    cases watched with
    | @stamped i q here =>
      by_cases same : p = q
      · subst same
        exact .inl ⟨⟨i,here⟩,by simp [note_stamps,here,RulesList.touch]⟩
      · refine .inr (.inr ⟨?_,by rw [RulesCollection.list_set_list_ne _ _ same]⟩)
        rintro ⟨j,at_stamp⟩
        exact same (Pc.stamp.inj (here.symm.trans at_stamp)).2.symm
    | merged here thread sum =>
      refine .inr (.inr ⟨by simp [Stamps,here],last_update_set_list ?_ p⟩)
      rw [(RulesList.merge_spec sum).2.1]
    | rated here =>
      refine .inr (.inr ⟨by simp [Stamps,here],last_update_set_list ?_ p⟩)
      unfold RulesList.calc_delta
      split <;> rfl
    | checked here => exact .inr (.inr ⟨by simp [Stamps,here],last_update_set_list (by rfl) p⟩)
    | equal here | differ here | copied here | failed here | saved here | opened here | closed here | reread here =>
      exact .inr (.inr ⟨by simp [Stamps,here],rfl⟩)
  | _ => exact .inr (.inr ⟨id,rfl⟩)

/-- No time in use is later than the latest stamp of its list. -/
structure Bounded (s : Daemon) (latest : Proto → time_point) : Prop where
  main : ∀ p, (s.main.list p).last_update_ ≤ latest p
  prev : ∀ p, (s.prev.list p).last_update_ ≤ latest p
  copying : ∀ q file buff, s.loader = .copying q file buff → ∀ p, p.index < q.index →
    (buff.list p).last_update_ ≤ latest p
  assigning : ∀ q buff, s.loader = .assigning q buff → ∀ p, (buff.list p).last_update_ ≤ latest p

private theorem bounded_main (moved : Stepped platform s a s') (timed : Timed platform (s,latest) a)
    (bounded : Bounded s latest) (p : Proto) : (s'.main.list p).last_update_ ≤ note_stamps a s latest p := by
  rcases last_update_cases latest moved p with ⟨_,stamped⟩ | ⟨now,buff,_,here,assigned⟩ | ⟨unstamped,same⟩
  · exact stamped.le
  · rw [assigned]
    exact (bounded.assigning p buff here p).trans (note_stamps_le timed p)
  · rw [same,note_stamps_same unstamped]
    exact bounded.main p

private theorem bounded_prev (moved : Stepped platform s a s') (timed : Timed platform (s,latest) a)
    (bounded : Bounded s latest) (p : Proto) : (s'.prev.list p).last_update_ ≤ note_stamps a s latest p := by
  by_cases saves : Saves s a p
  · rw [prev_saved moved saves]
    exact (bounded.main p).trans (note_stamps_le timed p)
  · rw [prev_frame moved saves]
    exact (bounded.prev p).trans (note_stamps_le timed p)

private theorem bounded_copying (moved : Stepped platform s a s') (timed : Timed platform (s,latest) a)
    (bounded : Bounded s latest) {q : Proto} {file : RulesFile} {buff : RulesCollection}
    (copying : s'.loader = .copying q file buff) {p : Proto} (done : p.index < q.index) :
    (buff.list p).last_update_ ≤ note_stamps a s latest p := by
  refine le_trans ?_ (note_stamps_le timed p)
  cases moved with
  | load loaded =>
    cases loaded with
    | @copied q' q'' file' old here next =>
      obtain ⟨rfl,rfl,rfl⟩ := Loader.copying.inj copying
      have step := Proto.next_some next
      by_cases same : p = q'
      · subst same
        rw [RulesCollection.list_assign_list]
        exact bounded.main p
      · have earlier : p.index < q'.index := by
          have differ : p.index ≠ q'.index := fun equal => same (Proto.index_inj equal)
          omega
        rw [RulesCollection.list_assign_list_ne _ _ _ same]
        exact bounded.copying q' file' old here p earlier
    | @assigned q' old here => cases next : q'.next <;> simp [next] at copying
    | filled here last read => cases copying
    | failed here => cases copying
    | changed here => cases copying
  | watch watched => cases watched <;> exact bounded.copying q file buff copying p done
  | reload idle =>
    obtain ⟨rfl,_,_⟩ := Loader.copying.inj copying
    exact absurd done (Nat.not_lt_zero _)
  | _ => exact bounded.copying q file buff copying p done

private theorem bounded_assigning (moved : Stepped platform s a s') (timed : Timed platform (s,latest) a)
    (bounded : Bounded s latest) {q : Proto} {buff : RulesCollection} (assigning : s'.loader = .assigning q buff)
    (p : Proto) : (buff.list p).last_update_ ≤ note_stamps a s latest p := by
  refine le_trans ?_ (note_stamps_le timed p)
  cases moved with
  | load loaded =>
    cases loaded with
    | @filled q' file' old filled here last read =>
      obtain ⟨rfl,rfl⟩ := Loader.assigning.inj assigning
      obtain rfl := Proto.next_none last
      have kept : ∀ c : RulesCollection, (c.clear.list p).last_update_ = (c.list p).last_update_ := by
        intro c
        cases p <;> rfl
      rw [RulesFileLoader.load_file_spec read p,kept]
      by_cases same : p = .ICMP
      · subst same
        rw [RulesCollection.list_assign_list]
        exact bounded.main .ICMP
      · have earlier : p.index < Proto.ICMP.index := by
          have differ : p.index ≠ Proto.ICMP.index := fun equal => same (Proto.index_inj equal)
          have most := Proto.index_le p
          omega
        rw [RulesCollection.list_assign_list_ne _ _ _ same]
        exact bounded.copying .ICMP file' old here p earlier
    | @assigned q' old here =>
      cases next : q'.next with
      | none => simp [next] at assigning
      | some q'' =>
        simp only [next,Loader.assigning.injEq] at assigning
        exact assigning.2 ▸ bounded.assigning q' old here p
    | copied here next => cases assigning
    | failed here => cases assigning
    | changed here => cases assigning
  | watch watched => cases watched <;> exact bounded.assigning q buff assigning p
  | reload idle => cases assigning
  | _ => exact bounded.assigning q buff assigning p

theorem bounded_step (moved : Stepped platform s a s') (timed : Timed platform (s,latest) a) (bounded : Bounded s latest) :
    Bounded s' (note_stamps a s latest) where
  main := bounded_main moved timed bounded
  prev := bounded_prev moved timed bounded
  copying _ _ _ copying _ done := bounded_copying moved timed bounded copying done
  assigning _ _ assigning := bounded_assigning moved timed bounded assigning

/-! ### Stamped lists -/

/-- A list that has its last stamp is later than the snapshot that it can be compared with. -/
def Ahead (s : Daemon) : Prop :=
  ∀ p, Stamped s p → (s.main.list p).rules_.length = (s.prev.list p).rules_.length →
    (s.prev.list p).last_update_ < (s.main.list p).last_update_

theorem stamped_unsaved {p : Proto} (stamped : Stamped s p) : ¬ Saves s a p :=
  not_saves fun here => by simp [Stamped,here] at stamped

/-- With a thread, an iteration stamps every list before it comes to the rates. -/
theorem not_stamped_visit (some_thread : s.threads ≠ []) (at_visit : s'.pc = s.visit 0) (p : Proto) : ¬ Stamped s' p := by
  have inside : 0 < s.threads.length := List.length_pos_iff.mpr some_thread
  simp [Stamped,at_visit,visit,inside]

private theorem stamped_merged {i : Nat} {p q : Proto} (here : s.pc = .merge i q) (inside : i < s.threads.length)
    (at_merged : s'.pc = s.merged i q) (size : s'.threads.length = s.threads.length) (stamped : Stamped s' p) :
    Stamped s p := by
  simp only [Stamped,here]
  simp only [Stamped,at_merged,size,merged] at stamped
  cases next : q.next with
  | some q' =>
    have step := Proto.next_some next
    simp only [next] at stamped
    exact ⟨stamped.1,by omega⟩
  | none =>
    obtain rfl := Proto.next_none next
    simp only [next,visit] at stamped
    split_ifs at stamped with more
    · exact stamped.elim
    · exact ⟨by omega,Proto.index_le p⟩

theorem stamped_before (moved : Stepped platform s a s') (some_thread : s.threads ≠ []) {p : Proto}
    (stamped : Stamped s' p) : Stamps s a p ∨ Stamped s p := by
  have size := threads_length moved
  cases moved with
  | packet thread =>
    refine .inr ?_
    simp only [Stamped,size] at stamped ⊢
    exact stamped
  | load loaded => cases loaded <;> exact .inr stamped
  | watch watched =>
    cases watched with
    | @stamped i q here =>
      by_cases same : p = q
      · subst same
        exact .inl ⟨i,here⟩
      · have differ : p.index ≠ q.index := fun equal => same (Proto.index_inj equal)
        obtain ⟨last,below⟩ : i + 1 = s.threads.length ∧ p.index ≤ q.index := stamped
        refine .inr ?_
        simp only [Stamped,here]
        exact ⟨last,by omega⟩
    | merged here thread sum =>
      exact .inr (stamped_merged here (List.getElem?_eq_some_iff.mp thread).1 rfl size stamped)
    | @rated q here =>
      refine .inr ?_
      simp only [Stamped,here]
      cases q with
      | TCP => exact Nat.zero_le _
      | UDP => exact Nat.le_of_succ_le stamped
      | ICMP => exact stamped.elim
    | @equal i q c here thread same =>
      cases q with
      | TCP => exact stamped.elim
      | UDP => exact stamped.elim
      | ICMP => exact absurd stamped.2 (Nat.not_lt_zero _)
    | @copied i q c here thread =>
      cases q with
      | TCP => exact stamped.elim
      | UDP => exact stamped.elim
      | ICMP => exact absurd stamped.2 (Nat.not_lt_zero _)
    | @saved q here => cases q <;> exact stamped.elim
    | @checked q jobs events here =>
      cases q with
      | TCP => exact stamped.elim
      | UDP => exact stamped.elim
      | ICMP => exact absurd stamped (not_stamped_visit some_thread rfl p)
    | reread here => exact absurd stamped (not_stamped_visit some_thread rfl p)
    | differ here | failed here | opened here | closed here => exact stamped.elim
  | _ => exact .inr stamped

private theorem ahead_stamped (moved : Stepped platform s a s') (timed : Timed platform (s,latest) a)
    (bounded : Bounded s latest) {p : Proto} (stamps : Stamps s a p) :
    (s.prev.list p).last_update_ < (s'.main.list p).last_update_ := by
  rcases last_update_cases latest moved p with ⟨_,stamped⟩ | ⟨now,buff,rfl,_⟩ | ⟨unstamped,_⟩
  · rw [stamped]
    exact lt_of_le_of_lt (bounded.prev p) (timed.clock p stamps)
  · exact stamps.elim
  · exact absurd stamps unstamped

private theorem ahead_written (moved : Stepped platform s a s') (timed : Timed platform (s,latest) a) {p : Proto}
    (writes : Writes platform s a p) (stamped : Stamped s p)
    (sizes : (s'.main.list p).rules_.length = (s.prev.list p).rules_.length) :
    (s.prev.list p).last_update_ < (s'.main.list p).last_update_ := by
  cases moved with
  | console =>
    obtain ⟨rfl,l,applied⟩ := writes
    simp only [RulesCollection.console,applied,RulesCollection.list_set_list] at sizes ⊢
    rw [(Edit.apply_spec applied).2.1]
    exact timed.edited _ _ l rfl applied stamped sizes
  | load loaded =>
    obtain ⟨buff,here⟩ := writes
    cases loaded with
    | assigned at_pc =>
      obtain ⟨rfl,rfl⟩ := Loader.assigning.inj (at_pc.symm.trans here)
      rw [RulesCollection.list_set_list] at sizes ⊢
      exact timed.assigned _ _ _ rfl here stamped sizes
    | copied at_pc | filled at_pc | failed at_pc | changed at_pc => cases at_pc.symm.trans here
  | _ => exact writes.elim

theorem ahead_step (moved : Stepped platform s a s') (some_thread : s.threads ≠ []) (timed : Timed platform (s,latest) a)
    (bounded : Bounded s latest) (ahead : Ahead s) : Ahead s' := by
  intro p stamped' sizes
  rcases stamped_before moved some_thread stamped' with stamps | stamped
  · have unsaved : ¬ Saves s a p := by
      intro saves
      cases a with
      | watch now clock =>
        obtain ⟨i,here⟩ := stamps
        cases here.symm.trans saves
      | _ => exact stamps.elim
    rw [prev_frame moved unsaved]
    exact ahead_stamped moved timed bounded stamps
  · rw [prev_frame moved (stamped_unsaved stamped)] at sizes ⊢
    by_cases writes : Writes platform s a p
    · exact ahead_written moved timed writes stamped sizes
    · rcases last_update_cases latest moved p with ⟨stamps,_⟩ | ⟨now,buff,rfl,here,_⟩ | ⟨_,same⟩
      · exact ahead_stamped moved timed bounded stamps
      · exact absurd ⟨buff,here⟩ writes
      · rw [same]
        exact ahead p stamped (RulesList.entered_length (main_frame moved writes) ▸ sizes)

/-! ### The intervals -/

/-- What a run keeps in which the lists are in time. -/
structure InTime (s : Daemon) (latest : Proto → time_point) : Prop where
  some_thread : s.threads ≠ []
  bounded : Bounded s latest
  ahead : Ahead s

theorem inTime_step (moved : Stepped platform s a s') (timed : Timed platform (s,latest) a) (in_time : InTime s latest) :
    InTime s' (note_stamps a s latest) where
  some_thread none := in_time.some_thread (List.length_eq_zero_iff.mp (by rw [← threads_length moved,none]; rfl))
  bounded := bounded_step moved timed in_time.bounded
  ahead := ahead_step moved in_time.some_thread timed in_time.bounded in_time.ahead

theorem inTime_start (main : RulesCollection) {threads : List RulesCollection} (some_thread : threads ≠ [])
    (begun : time_point) : InTime (start main threads begun) fun p => (main.list p).last_update_ where
  some_thread := some_thread
  bounded := ⟨fun _ => le_rfl,fun p => by cases p <;> exact le_rfl,nofun,nofun⟩
  ahead p stamped := absurd stamped (not_stamped_visit (s := start main threads begun) some_thread rfl p)

/-- In every run from the start of the watcher, with a thread and a clock that moves on
    between the stamps of a list, in which no list is assigned or edited between its last
    stamp and its rates unless it is then later than the snapshot or of another size:
    wherever `calc_delta` divides, the interval is positive. -/
theorem interval_positive (platform : Platform) (main : RulesCollection) {threads : List RulesCollection}
    (some_thread : threads ≠ []) (begun : time_point) {labels : List Label} {s : Daemon} {latest : Proto → time_point}
    (run : Runs.Run (Runs.recorded (step platform) note_stamps) (Timed platform)
      (start main threads begun,fun p => (main.list p).last_update_) labels (s,latest))
    {p : Proto} (here : s.pc = .delta p) (size : (s.main.list p).rules_.length = (s.prev.list p).rules_.length) :
    (s.prev.list p).last_update_ < (s.main.list p).last_update_ := by
  have in_time : InTime s latest := run.invariant_recorded (inTime_start main some_thread begun)
    fun s latest a s' in_time timed taken => inTime_step (stepped taken) timed in_time
  exact in_time.ahead p (by simp [Stamped,here]) size

/-- A tick is later than the latest stamp of the list that it stamps. -/
def later (now : Int) (sl : Daemon × (Proto → time_point)) : Bool :=
  match sl.1.pc with
  | .stamp _ p => sl.2 p < now
  | _ => true

theorem later_clocked {now : Int} {sl : Daemon × (Proto → time_point)} (test : later now sl = true) :
    Clocked sl (tick now) := by
  rintro p ⟨i,here⟩
  simp only [later,here,decide_eq_true_eq] at test
  simpa [tick,note_stamps,here] using test

theorem later_timed {now : Int} {sl : Daemon × (Proto → time_point)} (test : later now sl = true) :
    Timed platform sl (tick now) where
  clock := later_clocked test
  assigned _ _ _ same := by simp [tick] at same
  edited _ _ _ same := by simp [tick] at same

/-- The first rates of the sample daemon. -/
theorem interval_positive_first : ∃ labels s latest,
    Runs.Run (Runs.recorded (step documented) note_stamps) (Timed documented)
      (sample_daemon,fun p => ((tcp_collection [sample_rule]).list p).last_update_) labels (s,latest) ∧
    s.pc = .delta .TCP ∧ (s.prev.list .TCP).last_update_ < (s.main.list .TCP).last_update_ := by
  obtain ⟨s,latest,reached,here,size⟩ : ∃ s latest,
      Runs.runFrom (fun a sl => if later 1 sl then Runs.recorded (step documented) note_stamps a sl else none)
        (sample_daemon,fun p => ((tcp_collection [sample_rule]).list p).last_update_) (List.replicate 9 (tick 1)) =
          some (s,latest) ∧
      s.pc = .delta .TCP ∧ (s.main.list .TCP).rules_.length = (s.prev.list .TCP).rules_.length :=
    ⟨_,_,rfl,rfl,rfl⟩
  have run : Runs.Run (Runs.recorded (step documented) note_stamps) (Timed documented) _ _ _ :=
    .of_runFrom (fun a member sl test => List.eq_of_mem_replicate member ▸ later_timed test) reached
  exact ⟨_,s,latest,run,here,interval_positive documented _ (by simp) 0 run here size⟩

/-- A file with the rule of the sample daemon. -/
def sample_file : Text := "TCP --dstip 10.0.0.1 --pps-th 100p".toList

/-- What a reload copies of the sample daemon, and clears, before it reads the file. -/
def sample_buffer : RulesCollection :=
  let main := sample_daemon.main
  ((((main.params 1).assign_list main .TCP 1).assign_list main .UDP 1).assign_list main .ICMP 1).clear

theorem sample_file_read : ∃ filled, RulesFileLoader.load_file documented (.content sample_file) sample_buffer = .ok filled ∧
    filled.tcp.rules_.length = 1 ∧ filled.tcp.last_update_ = 0 := by
  have lines : getlines sample_file = [sample_file] := by decide +kernel
  have tokens : tokenize documented ' ' sample_file = .ok ("TCP".toList :: sample_words) := by decide +kernel
  have rules : (RulesFileLoader.file_rules documented documented_options .TCP [sample_file]).length = 1 := by
    decide +kernel
  have cleared : sample_buffer.list .TCP = ⟨[],documented_options,0⟩ := rfl
  -- from here on the text must not be looked at again
  generalize sample_file = text at lines tokens rules ⊢
  generalize sample_buffer = buff at cleared ⊢
  have tokenized : ∀ line ∈ [text], ∃ tokens, tokenize documented ' ' line = .ok tokens :=
    fun line member => ⟨_,List.mem_singleton.mp member ▸ tokens⟩
  obtain ⟨filled,read,lists⟩ := RulesFileLoader.load_lines_spec tokenized buff
  have tcp : filled.tcp = _ := lists .TCP
  rw [cleared] at tcp
  refine ⟨filled,by rw [RulesFileLoader.load_file,lines,read],?_,by rw [tcp]⟩
  rw [tcp]
  exact rules

theorem load_filled {file : RulesFile} {buff filled : RulesCollection} {now : time_point} (running : s.pc ≠ .terminated)
    (here : s.loader = .copying .ICMP file buff)
    (read : RulesFileLoader.load_file platform file (buff.assign_list s.main .ICMP now).clear = .ok filled) :
    step platform (.load now) s = some { s with loader := .assigning .TCP filled } := by
  simp [step,running,load,here,Proto.next,read]

/-- The sample daemon where a reload has read its file, or is about to copy the last list. -/
def sample_reloading (loader : Loader) : Daemon := { sample_daemon with loader := loader }

/-- A step of the watcher is later than the stamps. -/
def ticking (a : Label) (sl : Daemon × (Proto → time_point)) : Bool :=
  match a with
  | .watch _ _ => later 1 sl
  | _ => true

theorem ticking_clocked {sl : Daemon × (Proto → time_point)} (ticks : ∀ now clock, a = .watch now clock → a = tick 1)
    (test : ticking a sl = true) : Clocked sl a := by
  cases a with
  | watch now clock =>
    rw [ticks now clock rfl] at test ⊢
    exact later_clocked test
  | _ => exact fun p stamps => stamps.elim

/-- A reload takes its copy before the first iteration and assigns the list of TCP just
    before its rates: the list gets back the time of the snapshot. -/
theorem interval_zero : ∃ labels s latest,
    Runs.Run (Runs.recorded (step documented) note_stamps) Clocked
      (sample_daemon,fun p => ((tcp_collection [sample_rule]).list p).last_update_) labels (s,latest) ∧
    s.pc = .delta .TCP ∧ (s.main.list .TCP).rules_.length = (s.prev.list .TCP).rules_.length ∧
    0 < (s.main.list .TCP).rules_.length ∧ (s.main.list .TCP).last_update_ = (s.prev.list .TCP).last_update_ := by
  obtain ⟨filled,read,size,time⟩ := sample_file_read
  generalize sample_file = text at read
  let begun : Proto → time_point := fun p => ((tcp_collection [sample_rule]).list p).last_update_
  let machine := fun a sl => if ticking a sl then Runs.recorded (step documented) note_stamps a sl else none
  obtain ⟨buff,copied,cleared⟩ : ∃ buff, Runs.runFrom machine (sample_daemon,begun)
      [.reload (.content text) 1,.load 1,.load 1] = some (sample_reloading (.copying .ICMP (.content text) buff),begun) ∧
      (buff.assign_list sample_daemon.main .ICMP 1).clear = sample_buffer := ⟨_,rfl,rfl⟩
  have taken : step documented (.load 1) (sample_reloading (.copying .ICMP (.content text) buff)) =
      some (sample_reloading (.assigning .TCP filled)) :=
    load_filled (by simp [sample_reloading,sample_daemon,start]) rfl (cleared ▸ read)
  have assigning : Runs.runFrom machine (sample_reloading (.copying .ICMP (.content text) buff),begun) [.load 1] =
      some (sample_reloading (.assigning .TCP filled),begun) := by
    simp [Runs.runFrom,machine,ticking,Runs.recorded,taken,note_stamps]
  obtain ⟨s,latest,iterated,here,main,prev⟩ : ∃ s latest,
      Runs.runFrom machine (sample_reloading (.assigning .TCP filled),begun) (List.replicate 9 (tick 1) ++ [.load 2]) =
        some (s,latest) ∧ s.pc = .delta .TCP ∧
      s.main.list .TCP = (sample_daemon.main.list .TCP).assign filled.tcp ∧
      s.prev.list .TCP = sample_daemon.main.list .TCP := ⟨_,_,rfl,rfl,rfl,rfl⟩
  have reached : Runs.runFrom machine (sample_daemon,begun) ([.reload (.content text) 1,.load 1,.load 1] ++ [.load 1] ++
      (List.replicate 9 (tick 1) ++ [.load 2])) = some (s,latest) := by
    rw [Runs.runFrom_append,Runs.runFrom_append,copied,Option.bind_some,assigning,Option.bind_some,iterated]
  refine ⟨_,s,latest,.of_runFrom (fun a member sl test => ticking_clocked (fun now clock watch => ?_) test) reached,here,
    ?_,?_,?_⟩
  · subst watch
    simpa [tick] using member
  · rw [main,prev]
    exact size
  · rw [main,RulesList.rules_assign,size]
    exact Nat.one_pos
  · rw [main,prev]
    exact time

end Daemon
end DdosDetector
