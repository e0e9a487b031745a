import BallotConsensus.Proofs.Agreement

/-!
# What a larger budget changes

A larger budget never makes a single search find less.  It can still lower the
worth of an agreement, because what was found decides what it is completed
to, and because the worth that the first search reaches is the bound that the
second one starts from.

* `Agreement.reach_budget_lowers` — a round in which a larger budget lowers
  the worth: with the smaller one only the leading search finds something, which
  is completed to twice its worth; with the larger one the second search finds
  more than the leading one did, and nothing can be added to that;
* `Agreement.reach_budget` — **what a larger budget keeps.**
-/

namespace BallotConsensus

namespace Agreement

/-- What the leading search of an agreement found. -/
def leadingFound : Agreement → Option Assignment
  | .nothing _ _ => none
  | .searched _ _ resolution _ => resolution.first.found

/-- What all searches of an agreement found, before anything was added. -/
def found : Agreement → Option Assignment
  | .nothing _ _ => none
  | .searched _ _ resolution _ =>
    improve resolution.first.found (resolution.second.bind (·.found))

/-- Whether the leading search of an agreement ended within the budget. -/
def leadingOptimal : Agreement → Bool
  | .nothing _ _ => true
  | .searched _ _ resolution _ => resolution.first.optimal

/-- A heavy voter that confirms both attestations, a light one that confirms
the second and one that confirms nothing. -/
def nestedVotes : List WeightedBallot :=
  [⟨0, 5, ⟨2, 0b11, by decide, by decide⟩, by decide⟩,
    ⟨1, 1, ⟨2, 0b10, by decide, by decide⟩, Nat.one_pos⟩,
    ⟨2, 2, ⟨2, 0b00, by decide, by decide⟩, by decide⟩]

theorem nestedVotes_met : Contract.Met nestedVotes [5, 5] 8 := ⟨by decide, by decide, by decide⟩

/-- A larger budget can lower the worth. -/
theorem reach_budget_lowers :
    Contract.Met nestedVotes [5, 5] 8 ∧ 3 ≤ 5 ∧
      ∃ a b, reach nestedVotes [5, 5] 8 3 (.ofNumber 0) = .ok a ∧
        reach nestedVotes [5, 5] 8 5 (.ofNumber 0) = .ok b ∧
        a.outcome.worth = ⟨50, 50⟩ ∧ b.outcome.worth = ⟨30, 30⟩ ∧
        ¬ a.outcome.worth ≤ b.outcome.worth := by
  have hsmall : (reach nestedVotes [5, 5] 8 3 (.ofNumber 0)).toOption.map (·.outcome.worth) =
      some ⟨50, 50⟩ := by decide +kernel
  have hlarge : (reach nestedVotes [5, 5] 8 5 (.ofNumber 0)).toOption.map (·.outcome.worth) =
      some ⟨30, 30⟩ := by decide +kernel
  obtain ⟨a, ha, -⟩ := reach_stands nestedVotes_met 3 (.ofNumber 0)
  obtain ⟨b, hb, -⟩ := reach_stands nestedVotes_met 5 (.ofNumber 0)
  rw [ha] at hsmall
  rw [hb] at hlarge
  have hworth : a.outcome.worth = ⟨50, 50⟩ := Option.some.inj hsmall
  have hlower : b.outcome.worth = ⟨30, 30⟩ := Option.some.inj hlarge
  refine ⟨nestedVotes_met, by decide, a, b, ha, hb, hworth, hlower, ?_⟩
  rw [hworth, hlower]
  decide

variable {votes : List WeightedBallot} {fees : List Nat} {total : Nat}

/-- An optimal outcome is worth no less than any other that stands up to the
same round. -/
theorem worth_le_of_optimal {o best : Outcome} (ho : o.Stands votes fees total)
    (hbest : best.Stands votes fees total) (hoptimal : best.optimal = true) :
    o.worth ≤ best.worth := by
  by_cases hcarried : ∃ chosen, Carried votes fees total chosen
  · obtain ⟨chosen, hchosen, hworth⟩ := ho.exists_carried hcarried
    exact le_trans hworth (hbest.covers hoptimal chosen hchosen)
  · rw [exists_carried_iff, Nat.not_lt] at hcarried
    rw [ho.worth_eq, Outcome.worthFrom_eq_zero (ho.minority hcarried)]
    exact Worth.zero_le _

/-- **What a larger budget keeps.**  With a larger budget, an agreement is
worth no less

* than what the leading search finds with the smaller one;
* than with the smaller one, if it is optimal, or if the searches find the same
  with both budgets;
* than what all searches find with the smaller one, before anything is added
  to it, if the leading search reaches the same worth with both budgets.

If the leading search ends within the smaller budget, nothing changes. -/
theorem reach_budget (hmet : Contract.Met votes fees total) {short long : Nat}
    (hbudget : short ≤ long) (seed : Seed) :
    ∃ a b, reach votes fees total short seed = .ok a ∧
      reach votes fees total long seed = .ok b ∧
      foundWorth a.leadingFound ≤ b.outcome.worth ∧
      (b.outcome.optimal = true → a.outcome.worth ≤ b.outcome.worth) ∧
      (a.found = b.found → a.outcome.worth ≤ b.outcome.worth) ∧
      (foundWorth a.leadingFound = foundWorth b.leadingFound →
        foundWorth a.found ≤ b.outcome.worth) ∧
      (a.leadingOptimal = true → b = a) := by
  by_cases h : votes = [] ∨ fees = []
  · refine ⟨_, _, reach_nothing hmet h short seed, reach_nothing hmet h long seed,
      Worth.zero_le _, ?_, ?_, ?_, fun _ => rfl⟩
    · exact fun _ => le_refl _
    · exact fun _ => le_refl _
    · exact fun _ => Worth.zero_le _
  · rw [not_or] at h
    have hweight := hmet.reduction_weight_le
    have hshort := reach_searched hmet h.1 h.2 short seed
    have hlong := reach_searched hmet h.1 h.2 long seed
    obtain ⟨a, ha, hastands⟩ := reach_stands hmet short seed
    obtain ⟨b, hb, hbstands⟩ := reach_stands hmet long seed
    obtain rfl := Except.ok.inj (ha.symm.trans hshort)
    obtain rfl := Except.ok.inj (hb.symm.trans hlong)
    generalize Reduction.ofRound votes fees total = r at *
    have hfound := Reduction.foundWorth_le_resolution hweight long seed
    refine ⟨_, _, ha, hb, ?_, worth_le_of_optimal hastands hbstands, ?_, ?_, ?_⟩
    · have hle := (Reduction.leading_overtakes hweight hbudget seed).foundWorth_le
      have hsearched := Reduction.foundWorth_leading_le r long seed
      simp only [leadingFound, Reduction.resolution_first]
      exact le_trans hle (le_trans hsearched hfound)
    · intro hsame
      simp only [found, ← Reduction.searched_found] at hsame
      by_cases hlast : (r.resolution long seed).optimal = true
      · exact worth_le_of_optimal hastands hbstands hlast
      · exact Reduction.resolution_worth_le_of_found_eq hweight hsame (by simpa using hlast)
    · intro hsame
      simp only [leadingFound, Reduction.resolution_first] at hsame
      simp only [found, ← Reduction.searched_found]
      exact le_trans (Reduction.foundWorth_searched_le hweight hbudget hsame) hfound
    · intro hends
      simp only [leadingOptimal, Reduction.resolution_first] at hends
      rw [Reduction.resolution_eq_of_leading_optimal hweight hbudget hends]

/-- From three to five, the leading search finds the same, and the outcome is worth no
less than that.  From five to eight, all searches find the same.  With ten, the outcome
is optimal, and with fifteen, the leading search ends. -/
theorem reach_budget_of_nested :
    Contract.Met nestedVotes [5, 5] 8 ∧ 3 ≤ 5 ∧ 5 ≤ 8 ∧ 8 ≤ 10 ∧ 15 ≤ 20 ∧
      (∃ a b, reach nestedVotes [5, 5] 8 3 (.ofNumber 0) = .ok a ∧
        reach nestedVotes [5, 5] 8 5 (.ofNumber 0) = .ok b ∧
        foundWorth a.leadingFound = ⟨25, 25⟩ ∧ foundWorth b.leadingFound = ⟨25, 25⟩ ∧
        foundWorth a.found = ⟨25, 25⟩ ∧ b.outcome.worth = ⟨30, 30⟩ ∧
        foundWorth a.leadingFound ≤ b.outcome.worth ∧ foundWorth a.found ≤ b.outcome.worth) ∧
      (∃ a b, reach nestedVotes [5, 5] 8 5 (.ofNumber 0) = .ok a ∧
        reach nestedVotes [5, 5] 8 8 (.ofNumber 0) = .ok b ∧
        a.found = b.found ∧ a.outcome.worth ≤ b.outcome.worth) ∧
      (∃ a b, reach nestedVotes [5, 5] 8 8 (.ofNumber 0) = .ok a ∧
        reach nestedVotes [5, 5] 8 10 (.ofNumber 0) = .ok b ∧
        b.outcome.optimal = true ∧ a.outcome.worth ≤ b.outcome.worth) ∧
      ∃ a b, reach nestedVotes [5, 5] 8 15 (.ofNumber 0) = .ok a ∧
        reach nestedVotes [5, 5] 8 20 (.ofNumber 0) = .ok b ∧
        a.leadingOptimal = true ∧ b = a := by
  have hthree : (reach nestedVotes [5, 5] 8 3 (.ofNumber 0)).toOption.map
      (fun a => (foundWorth a.leadingFound, foundWorth a.found)) =
        some (⟨25, 25⟩, ⟨25, 25⟩) := by decide +kernel
  have hfive : (reach nestedVotes [5, 5] 8 5 (.ofNumber 0)).toOption.map
      (fun b => (foundWorth b.leadingFound, b.outcome.worth)) =
        some (⟨25, 25⟩, ⟨30, 30⟩) := by decide +kernel
  have hsame : (reach nestedVotes [5, 5] 8 5 (.ofNumber 0)).toOption.map (·.found) =
      (reach nestedVotes [5, 5] 8 8 (.ofNumber 0)).toOption.map (·.found) := by decide +kernel
  have hten : (reach nestedVotes [5, 5] 8 10 (.ofNumber 0)).toOption.map
      (·.outcome.optimal) = some true := by decide +kernel
  have hfifteen : (reach nestedVotes [5, 5] 8 15 (.ofNumber 0)).toOption.map
      (·.leadingOptimal) = some true := by decide +kernel
  refine ⟨nestedVotes_met, by decide, by decide, by decide, by decide, ?_, ?_, ?_, ?_⟩
  · obtain ⟨a, b, ha, hb, hleading, -, -, hfound, -⟩ :=
      reach_budget nestedVotes_met (show 3 ≤ 5 by decide) (.ofNumber 0)
    rw [ha] at hthree
    rw [hb] at hfive
    obtain ⟨hfirst, hall⟩ := Prod.mk.inj (Option.some.inj hthree)
    obtain ⟨hfirst', hworth⟩ := Prod.mk.inj (Option.some.inj hfive)
    exact ⟨a, b, ha, hb, hfirst, hfirst', hall, hworth, hleading,
      hfound (hfirst.trans hfirst'.symm)⟩
  · obtain ⟨a, b, ha, hb, -, -, hsearched, -, -⟩ :=
      reach_budget nestedVotes_met (show 5 ≤ 8 by decide) (.ofNumber 0)
    rw [ha, hb] at hsame
    have hfound : a.found = b.found := Option.some.inj hsame
    exact ⟨a, b, ha, hb, hfound, hsearched hfound⟩
  · obtain ⟨a, b, ha, hb, -, hbest, -, -, -⟩ :=
      reach_budget nestedVotes_met (show 8 ≤ 10 by decide) (.ofNumber 0)
    rw [hb] at hten
    have hoptimal : b.outcome.optimal = true := Option.some.inj hten
    exact ⟨a, b, ha, hb, hoptimal, hbest hoptimal⟩
  · obtain ⟨a, b, ha, hb, -, -, -, -, hends⟩ :=
      reach_budget nestedVotes_met (show 15 ≤ 20 by decide) (.ofNumber 0)
    rw [ha] at hfifteen
    have hoptimal : a.leadingOptimal = true := Option.some.inj hfifteen
    exact ⟨a, b, ha, hb, hoptimal, hends hoptimal⟩

end Agreement

end BallotConsensus
