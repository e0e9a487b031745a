import BallotConsensus.Proofs.Exploration.Operations

/-!
# The budget that a search needs

For every search there is one number of operations that it needs.  With more
budget than that it is optimal, spends exactly that number and always finds the
same; with less it is cut short.  Up to there, more budget means no less work and
nothing worse found.

* `Reduction.search_optimal_iff`, `Reduction.search_operations_mono` — a search is
  optimal if it keeps within its budget, and more budget spends no less;
* `Run.exists_threshold` — **the threshold** of runs that differ in their budgets
  alone;
* `Reduction.search_threshold` — the threshold of every search of a round.
-/

namespace BallotConsensus

/-- **The threshold.**  Runs that differ in their budgets alone, each optimal if
it keeps within its budget, and all of which together spend no more than some
number: beyond the number that the longest of them spends, all are optimal and
alike. -/
theorem Run.exists_threshold {runs : Nat → Run} {most : Nat}
    (hoptimal : ∀ budget, (runs budget).optimal = true ↔ (runs budget).operations < budget)
    (hmono : ∀ {short long}, short ≤ long → (runs short).operations ≤ (runs long).operations)
    (hovertakes : ∀ {short long}, short ≤ long → (runs long).Overtakes (runs short))
    (hmost : ∀ budget, (runs budget).operations ≤ most) :
    ∃ n last, last.operations = n ∧ ∀ budget,
      ((runs budget).optimal = true ↔ n < budget) ∧ (n < budget → runs budget = last) := by
  have hlast : (runs (most + 1)).optimal = true :=
    (hoptimal _).mpr (Nat.lt_succ_of_le (hmost _))
  have halike : ∀ budget, (runs budget).optimal = true → runs budget = runs (most + 1) := by
    intro budget hends
    rcases Nat.le_total budget (most + 1) with hle | hle
    · exact ((hovertakes hle).optimal hends).symm
    · exact (hovertakes hle).optimal hlast
  have henough : ∀ budget, (runs budget).optimal = true ↔
      (runs (most + 1)).operations < budget := by
    intro budget
    constructor
    · intro hends
      rw [← halike budget hends]
      exact (hoptimal budget).mp hends
    · intro hbudget
      rw [hoptimal]
      rcases Nat.le_total budget (most + 1) with hle | hle
      · exact Nat.lt_of_le_of_lt (hmono hle) hbudget
      · exact Nat.lt_of_le_of_lt (hmost budget) hle
  exact ⟨_, runs (most + 1), rfl, fun budget =>
    ⟨henough budget, fun hbudget => halike budget ((henough budget).mpr hbudget)⟩⟩

namespace Reduction

variable {r : Reduction} {subject : Subject} {seed : Seed} {bound : Worth}

/-- A search is optimal if it keeps within its budget. -/
theorem search_optimal_iff {budget : Nat} : (r.search subject budget seed bound).optimal = true ↔
    (r.search subject budget seed bound).operations < budget := by
  refine search_cases (motive := fun runs => ∀ budget,
    (runs budget).optimal = true ↔ (runs budget).operations < budget) seed bound ?_ ?_ budget
  · exact fun _ => decide_eq_true_iff
  · exact fun _ _ _ _ _ _ _ _ _ _ => decide_eq_true_iff

/-- **More budget spends no less.** -/
theorem search_operations_mono {short long : Nat} (hbudget : short ≤ long) :
    (r.search subject short seed bound).operations ≤
      (r.search subject long seed bound).operations := by
  refine search_cases (motive := fun runs => (runs short).operations ≤ (runs long).operations)
    seed bound ?_ ?_
  · exact Nat.le_refl _
  · intro Entry Node b entries node p read _ _ _ _
    rcases explore_budget (b := b) hbudget r.total entries node p with hsame | ⟨-, hbehind⟩
    · exact Nat.le_of_eq (congrArg (·.2.operations) hsame)
    · exact hbehind.operations_le

variable {votes : List WeightedBallot} {total : Nat}

/-- **The threshold of a search.**  There is a number of operations such that a
search is optimal exactly with more budget than that, and then it always finds the
same and spends exactly that number.  With any two budgets, the larger one spends
no less and finds nothing worse. -/
theorem search_threshold (fees : List Nat) (hweight : (votes.map (·.weight)).sum ≤ total)
    (subject : Subject) (seed : Seed) (bound : Worth) :
    (∃ n found, ∀ budget,
      (((ofRound votes fees total).search subject budget seed bound).optimal = true ↔
        n < budget) ∧
      (n < budget →
        ((ofRound votes fees total).search subject budget seed bound).found = found ∧
        ((ofRound votes fees total).search subject budget seed bound).operations = n)) ∧
    (∀ budget, ((ofRound votes fees total).search subject budget seed bound).overweight = none) ∧
    ∀ short long, short ≤ long →
      ((ofRound votes fees total).search subject short seed bound).operations ≤
        ((ofRound votes fees total).search subject long seed bound).operations ∧
      ∀ a, ((ofRound votes fees total).search subject short seed bound).found = some a →
        ∃ b, ((ofRound votes fees total).search subject long seed bound).found = some b ∧
          a.worth ≤ b.worth := by
  have hlight := weight_ofRound_le fees hweight
  generalize ofRound votes fees total = r at *
  have hovertakes : ∀ {short long}, short ≤ long →
      (r.search subject long seed bound).Overtakes (r.search subject short seed bound) :=
    fun hbudget => search_overtakes hlight hbudget subject seed bound
  refine ⟨?_, fun budget => (search_answers hlight subject budget seed bound).overweight, ?_⟩
  · obtain ⟨n, last, hn, hthreshold⟩ := Run.exists_threshold (fun _ => search_optimal_iff)
      search_operations_mono hovertakes
      fun budget => search_operations_le_pow r subject budget seed bound
    refine ⟨n, last.found, fun budget => ⟨(hthreshold budget).1, fun hbudget => ?_⟩⟩
    rw [(hthreshold budget).2 hbudget]
    exact ⟨rfl, hn⟩
  · intro short long hbudget
    exact ⟨search_operations_mono hbudget, (hovertakes hbudget).found⟩

/-- A search by voters needs twenty-three operations.  With nine it does not end and
spends thirteen, but it finds something. -/
theorem search_threshold_of_cycle :
    (Agreement.cycleVotes.map (·.weight)).sum ≤ 3 ∧
      (∀ budget, (cycle.search .voters budget (.ofNumber 7) .zero).optimal = true ↔
        23 < budget) ∧
      (cycle.search .voters 9 (.ofNumber 7) .zero).operations = 13 ∧
      ∃ a b, (cycle.search .voters 9 (.ofNumber 7) .zero).found = some a ∧
        (∀ budget, 23 < budget →
          (cycle.search .voters budget (.ofNumber 7) .zero).found = some b) ∧
        a.worth ≤ b.worth := by
  have hweight : (Agreement.cycleVotes.map (·.weight)).sum ≤ 3 := by decide
  have hlong : (cycle.search .voters 24 (.ofNumber 7) .zero).optimal = true ∧
      (cycle.search .voters 24 (.ofNumber 7) .zero).operations = 23 := by decide +kernel
  have hshort : (cycle.search .voters 9 (.ofNumber 7) .zero).found.isSome = true ∧
      (cycle.search .voters 9 (.ofNumber 7) .zero).operations = 13 := by decide +kernel
  obtain ⟨⟨n, found, hthreshold⟩, -, hmono⟩ :=
    search_threshold [1, 1, 1] hweight .voters (.ofNumber 7) .zero
  obtain ⟨hfound, hn⟩ := (hthreshold 24).2 ((hthreshold 24).1.mp hlong.1)
  obtain rfl : n = 23 := hn.symm.trans hlong.2
  obtain ⟨a, ha⟩ := Option.isSome_iff_exists.mp hshort.1
  obtain ⟨b, hb, hle⟩ := (hmono 9 24 (by decide)).2 a ha
  refine ⟨hweight, fun budget => (hthreshold budget).1, hshort.2, a, b, ha, ?_, hle⟩
  intro budget hbudget
  exact ((hthreshold budget).2 hbudget).1.trans (hfound.symm.trans hb)

end Reduction

end BallotConsensus
