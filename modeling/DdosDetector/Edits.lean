import DdosDetector.Collection

/-!
What one console edit and the next pass over the threads do to the statistics of
the rules that stay. A successful edit changes the size of its list, so that every
thread is copied over: what the threads had counted is lost, and each copy is merged
back, which doubles the counters of main once for every thread.
-/
namespace DdosDetector

/-- Where the rules of the edited list were before: a failed edit moves none. -/
def RulesCollection.console_origin (platform : Platform) (c : RulesCollection) (p : Proto) (e : Edit (Fields p)) :
    Nat → Option Nat :=
  match e.apply platform (c.list p) with
  | .ok _ => e.origin (c.list p).rules_.length
  | .error _ => some

/-- Every rule of the edited list that was there before has, after the pass, its
    counters from before it and what the threads had counted for it. -/
def StatisticsKept (platform : Platform) (main : RulesCollection) (threads : List RulesCollection) (p : Proto)
    (e : Edit (Fields p)) (main' : RulesCollection) : Prop :=
  ∀ j i, main.console_origin platform p e j = some i → ∀ counter,
    (main'.list p).count_at counter j =
      (main.list p).count_at counter i + threads_count threads p counter i

/-- The counters of a rule outweigh its threads' counters by the factor that a pass
    over copied threads applies. -/
def Balanced (platform : Platform) (main : RulesCollection) (threads : List RulesCollection) (p : Proto)
    (e : Edit (Fields p)) : Prop :=
  ∀ j i, main.console_origin platform p e j = some i → ∀ counter,
    (2 ^ threads.length - 1) * (main.list p).count_at counter i = threads_count threads p counter i

private theorem fold_copied (threads : List RulesCollection) (main : RulesCollection) (p : Proto) (counter : Counter)
    (k : Nat) (n : UInt64) (copied : ∀ c ∈ threads, c.ne main = true) :
    threads.foldl (fun n c => n + if c.ne main then n else (c.list p).count_at counter k) n =
      2 ^ threads.length * n := by
  induction threads generalizing n with
  | nil => simp
  | cons c cs ih =>
    have head : c.ne main = true := copied c (by simp)
    rw [List.foldl_cons,ih _ (fun d member => copied d (by simp [member])),List.length_cons,head]
    simp only [↓reduceIte,UInt64.pow_succ]
    generalize (2 : UInt64) ^ cs.length = power
    grind

/-- After a successful edit every thread that was in sync differs from main. -/
private theorem edited_differs {platform : Platform} {main : RulesCollection} {p : Proto} {e : Edit (Fields p)}
    {l : RulesList (Fields p)} (applied : e.apply platform (main.list p) = .ok l) {c : RulesCollection}
    (in_sync : c.ne main = false) : c.ne (main.set_list p l) = true := by
  by_contra same
  rw [Bool.not_eq_true,RulesCollection.ne_eq_false_iff] at same
  have before := RulesList.length_of_eq ((RulesCollection.ne_eq_false_iff c main).mp in_sync p)
  have after := RulesList.length_of_eq (same p)
  rw [RulesCollection.list_set_list] at after
  exact (Edit.apply_spec applied).1 (after.symm.trans before)

/-- With threads in sync before it, an edit and the next pass keep the statistics of
    the rules that stay exactly if the edit fails or the counters are balanced. -/
theorem statistics_kept_iff (platform : Platform) (now : Nat → Proto → time_point) (main : RulesCollection)
    (threads : List RulesCollection) (p : Proto) (e : Edit (Fields p))
    (in_sync : ∀ c ∈ threads, c.ne main = false) :
    ∃ main' threads', sync_pass now (main.console platform p e) threads = .ok (main',threads') ∧
      (StatisticsKept platform main threads p e main' ↔
        (∃ error, e.apply platform (main.list p) = .error error) ∨ Balanced platform main threads p e) := by
  obtain ⟨main',threads',passed,_,_,counts⟩ := sync_pass_spec now (main.console platform p e) threads
  refine ⟨main',threads',passed,?_⟩
  cases applied : e.apply platform (main.list p) with
  | error error =>
    have unchanged : main.console platform p e = main := by simp [RulesCollection.console,applied]
    refine iff_of_true ?_ (.inl ⟨error,rfl⟩)
    intro j i from_i counter
    obtain rfl : j = i := by simpa [RulesCollection.console_origin,applied] using from_i
    rw [counts p counter j,unchanged,fold_in_sync threads main p counter j _ in_sync]
  | ok l =>
    have edited : main.console platform p e = main.set_list p l := by simp [RulesCollection.console,applied]
    have moved : main.console_origin platform p e = e.origin (main.list p).rules_.length := by
      simp [RulesCollection.console_origin,applied]
    have copied : ∀ c ∈ threads, c.ne (main.set_list p l) = true :=
      fun c member => edited_differs applied (in_sync c member)
    have doubled : ∀ j i, main.console_origin platform p e j = some i → ∀ counter,
        (main'.list p).count_at counter j = 2 ^ threads.length * (main.list p).count_at counter i := by
      intro j i from_i counter
      rw [counts p counter j,edited,fold_copied threads _ p counter j _ copied,RulesCollection.list_set_list]
      rw [RulesList.count_at,(Edit.apply_spec applied).2.2.2 j i (moved ▸ from_i),← RulesList.count_at]
    rw [StatisticsKept,Balanced]
    refine Iff.trans ?_ (or_iff_right (by simp)).symm
    refine forall₃_congr fun j i from_i => forall_congr' fun counter => ?_
    rw [doubled j i from_i counter]
    generalize (2 : UInt64) ^ threads.length = power
    constructor
    · intro equal; grind
    · intro equal; grind

/-- Five packets counted in main and one in a thread, an added rule, and a pass:
    main shows ten packets instead of six. -/
theorem statistics_doubled : ∃ main' threads',
    sync_pass (fun _ _ => 0) ((tcp_collection [{ sample_rule with count_packets := 5 }]).console documented .TCP
      (.add_rule (TcpRule.new sample_words))) [tcp_collection [{ sample_rule with count_packets := 1 }]] =
        .ok (main',threads') ∧
      ¬ StatisticsKept documented (tcp_collection [{ sample_rule with count_packets := 5 }])
        [tcp_collection [{ sample_rule with count_packets := 1 }]] .TCP (.add_rule (TcpRule.new sample_words)) main' := by
  refine ⟨_,_,rfl,?_⟩
  intro kept
  have first := kept 0 0 rfl .packets
  revert first
  decide

/-- Five packets counted in main and as many in a thread. -/
def five_packets : RulesCollection := tcp_collection [{ sample_rule with count_packets := 5 }]

theorem five_balanced (e : Edit TcpFields) : Balanced documented five_packets [five_packets] .TCP e := by
  intro j i _ counter
  have once : (2 : UInt64) ^ [five_packets].length - 1 = 1 := rfl
  rw [once]
  simp [threads_count]

/-- A rule is inserted before the rule, which keeps both counts at its new place. -/
theorem statistics_kept_insert : ∃ main' threads',
    sync_pass (fun _ _ => 0) (five_packets.console documented .TCP (.insert_rule 0 (TcpRule.new sample_words)))
      [five_packets] = .ok (main',threads') ∧
    five_packets.console_origin documented .TCP (.insert_rule 0 (TcpRule.new sample_words)) 1 = some 0 ∧
    StatisticsKept documented five_packets [five_packets] .TCP (.insert_rule 0 (TcpRule.new sample_words)) main' := by
  obtain ⟨main',threads',passed,kept⟩ := statistics_kept_iff documented (fun _ _ => 0) five_packets [five_packets] .TCP
    (.insert_rule 0 (TcpRule.new sample_words)) (by decide)
  exact ⟨main',threads',passed,rfl,kept.mpr (.inr (five_balanced _))⟩

end DdosDetector
