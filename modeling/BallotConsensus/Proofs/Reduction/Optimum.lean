import BallotConsensus.Proofs.Exploration.Optimum

/-!
# Reducing a round keeps its optimum

A **pact** of a round is any majority of its voters together with any
attestations that all of them confirm.  A pact need not be closed: voters that
would confirm all of it may stay out, and attestations that all of it confirms
may be left away.  A reduction can express far fewer assignments than its round
has pacts.  It knows neither pacts without the settled participants, nor pacts
with a part of a group, nor pacts without a settled inclusion.  Still, none of
these is worth more than what is left.

Three sets of worths are compared: what pacts are worth, what sets of
attestations are worth with everybody behind them (`attainable`), and what the
assignments of the reduction are worth (`Reduction.achievable`).  Each of them
is dominated by the next, and the last is part of the first.

* `Pact`, `pactWorths` — the reference, said of the votes and fees alone;
* `Pact.carried`, `Pact.worth_le` — a pact is no better than everybody who
  confirms its attestations;
* `Reduction.Represents.achievable_subset` — assignments stand for pacts;
* `Reduction.ofRound_optimum` — **the greatest worth is the same** on both
  sides, and it exists on both sides or on neither.
-/

namespace BallotConsensus

variable {votes : List WeightedBallot} {fees : List Nat} {total : Nat}

/-- The weight of a set of voters, given by their positions. -/
def weightOver (votes : List WeightedBallot) (voters : Finset Nat) : Nat :=
  ∑ v ∈ voters, weightAt votes v

/-- **A pact**: voters of a round that all confirm some of its attestations, and
that weigh more than half of the total weight. -/
structure Pact (votes : List WeightedBallot) (fees : List Nat) (total : Nat)
    (voters chosen : Finset Nat) : Prop where
  voters_subset : voters ⊆ Finset.range votes.length
  chosen_subset : chosen ⊆ Finset.range fees.length
  confirms : ∀ v ∈ voters, ∀ a ∈ chosen, ConfirmsAt votes v a
  majority : total < 2 * weightOver votes voters

/-- What the pacts of a round are worth. -/
def pactWorths (votes : List WeightedBallot) (fees : List Nat) (total : Nat) : Set Worth :=
  {worth | ∃ voters chosen, Pact votes fees total voters chosen ∧
    Worth.of (feesOver fees chosen) (weightOver votes voters) total = worth}

/-- Voters that all confirm a set weigh no more than its backing. -/
theorem weightOver_le_backing {voters chosen : Finset Nat}
    (hsubset : voters ⊆ Finset.range votes.length)
    (hconfirms : ∀ v ∈ voters, ∀ a ∈ chosen, ConfirmsAt votes v a) :
    weightOver votes voters ≤ backing votes chosen := by
  let flags := Flags.ofPositions votes.length voters.toList
  have hsum : weightOver votes voters = ((Flags.select votes flags).map (·.weight)).sum := by
    rw [Flags.map_select, Flags.sum_select_ofPositions (by simp) voters.nodup_toList
      fun v hv => Finset.mem_range.mp (hsubset (Finset.mem_toList.mp hv))]
    exact (Finset.sum_map_toList voters (weightAt votes)).symm
  rw [hsum]
  refine select_le_backing fun v hv a ha => hconfirms v ?_ a ha
  exact Finset.mem_toList.mp (Flags.getElem?_ofPositions.mp hv).2

namespace Pact

variable {voters chosen : Finset Nat}

/-- A majority confirms the attestations of a pact. -/
theorem carried (h : Pact votes fees total voters chosen) : Carried votes fees total chosen where
  subset := h.chosen_subset
  majority := by
    have hle := weightOver_le_backing h.voters_subset h.confirms
    have := h.majority
    omega

/-- Whoever stays out of a pact that it confirms adds nothing to its worth by
doing so. -/
theorem worth_le (h : Pact votes fees total voters chosen) :
    Worth.of (feesOver fees chosen) (weightOver votes voters) total ≤
      worthOver votes fees total chosen :=
  Worth.of_mono (Nat.le_refl _) (weightOver_le_backing h.voters_subset h.confirms) total

end Pact

namespace Reduction

namespace Represents

variable {r : Reduction} {a : Assignment}

/-- **A fitting assignment with a majority stands for a pact** of the round, the
one that it expands to. -/
theorem pact_of_fits (h : r.Represents votes fees) (ha : a.Fits r)
    (hhalf : r.half < r.weightOf a.participants) :
    Pact votes fees r.total (r.positionsOf a.participants).toFinset
        (r.inclusionsOf a.included).toFinset ∧
      Worth.of (feesOver fees (r.inclusionsOf a.included).toFinset)
        (weightOver votes (r.positionsOf a.participants).toFinset) r.total = r.worthOf a := by
  have hweight : weightOver votes (r.positionsOf a.participants).toFinset =
      r.weightOf a.participants := by
    rw [weightOver, List.sum_toFinset _ h.positionsOf_nodup, h.sum_positionsOf]
  have hfees : feesOver fees (r.inclusionsOf a.included).toFinset = r.feesOf a.included := by
    rw [feesOver, List.sum_toFinset _ h.inclusionsOf_nodup, h.sum_inclusionsOf]
  refine ⟨⟨?_, ?_, ?_, ?_⟩, ?_⟩
  · intro v hv
    exact Finset.mem_range.mpr (h.lt_of_mem_positionsOf (List.mem_toFinset.mp hv))
  · intro x hx
    exact Finset.mem_range.mpr (h.lt_of_mem_inclusionsOf (List.mem_toFinset.mp hx))
  · intro v hv x hx
    exact h.expand_confirms ha.backed (List.mem_toFinset.mp hv) (List.mem_toFinset.mp hx)
  · rw [hweight]
    unfold half at hhalf
    omega
  · rw [hweight, hfees]
    rfl

theorem achievable_subset (h : r.Represents votes fees) :
    r.achievable ⊆ pactWorths votes fees r.total := by
  intro worth hworth
  obtain ⟨a, ha, hhalf, rfl⟩ := hworth
  obtain ⟨hpact, hworth⟩ := h.pact_of_fits ha hhalf
  exact ⟨_, _, hpact, hworth⟩

/-- The reduction achieves no less than any set that a majority confirms. -/
theorem exists_achievable (h : r.Represents votes fees) {chosen : Finset Nat}
    (hcarried : Carried votes fees r.total chosen) :
    ∃ worth ∈ r.achievable, worthOver votes fees r.total chosen ≤ worth := by
  obtain ⟨a, ha, hhalf, hle⟩ := h.exists_covering hcarried
  exact ⟨a.worth, ⟨a, ha, hhalf, ha.worth_eq.symm⟩, hle⟩

/-- What is best among sets of attestations is best among pacts and best among
assignments: each of the three dominates the next. -/
theorem isGreatest_of_attainable (h : r.Represents votes fees) {best : Worth}
    (hbest : IsGreatest (attainable votes fees r.total) best) :
    IsGreatest (pactWorths votes fees r.total) best ∧ IsGreatest r.achievable best := by
  have hpacts : best ∈ upperBounds (pactWorths votes fees r.total) := by
    intro worth hworth
    obtain ⟨voters, chosen, hpact, rfl⟩ := hworth
    exact le_trans hpact.worth_le (hbest.2 ⟨chosen, hpact.carried, rfl⟩)
  have hachieved : best ∈ r.achievable := by
    obtain ⟨chosen, hcarried, hworth⟩ := hbest.1
    obtain ⟨worth, hmem, hle⟩ := h.exists_achievable hcarried
    have hge : worth ≤ best := hpacts (h.achievable_subset hmem)
    rw [hworth] at hle
    exact le_antisymm hge hle ▸ hmem
  exact ⟨⟨h.achievable_subset hachieved, hpacts⟩, hachieved,
    fun worth hworth => hpacts (h.achievable_subset hworth)⟩

end Represents

/-- **Reducing a round keeps its optimum.**  The round has a pact iff its
reduction has a fitting assignment with a majority, and then both have the same
greatest worth. -/
theorem ofRound_optimum (votes : List WeightedBallot) (fees : List Nat) (total : Nat) :
    ((pactWorths votes fees total).Nonempty ↔ (ofRound votes fees total).achievable.Nonempty) ∧
      ((pactWorths votes fees total).Nonempty →
        ∃ best, IsGreatest (pactWorths votes fees total) best ∧
          IsGreatest (ofRound votes fees total).achievable best) := by
  have h : (ofRound votes fees total).Represents votes fees := ofRound_represents votes fees total
  have hbest : (pactWorths votes fees total).Nonempty →
      ∃ best, IsGreatest (pactWorths votes fees total) best ∧
        IsGreatest (ofRound votes fees total).achievable best := by
    intro hpacts
    obtain ⟨_, voters, chosen, hpact, -⟩ := hpacts
    obtain ⟨best, hbest⟩ := exists_isGreatest_attainable ⟨chosen, hpact.carried⟩
    exact ⟨best, h.isGreatest_of_attainable hbest⟩
  refine ⟨⟨fun hpacts => ?_, fun hachievable => hachievable.mono h.achievable_subset⟩, hbest⟩
  obtain ⟨best, -, hachieved⟩ := hbest hpacts
  exact ⟨best, hachieved.1⟩

/-- Of the three voters of which any two have one attestation in common, the
first two have a pact on theirs, and no pact is worth more. -/
theorem ofRound_optimum_of_cycle :
    Pact Agreement.cycleVotes [1, 1, 1] 3 {0, 1} {0} ∧
      (pactWorths Agreement.cycleVotes [1, 1, 1] 3).Nonempty ∧
      IsGreatest (pactWorths Agreement.cycleVotes [1, 1, 1] 3) ⟨2, 2⟩ ∧
      IsGreatest cycle.achievable ⟨2, 2⟩ := by
  have hpact : Pact Agreement.cycleVotes [1, 1, 1] 3 {0, 1} {0} := by
    refine ⟨by decide, by decide, ?_, by decide⟩
    intro v hv a ha vote hvote
    obtain rfl := Finset.mem_singleton.mp ha
    rcases Finset.mem_insert.mp hv with rfl | hv
    · obtain rfl := Option.some.inj hvote
      decide
    · obtain rfl := Finset.mem_singleton.mp hv
      obtain rfl := Option.some.inj hvote
      decide
  have hworth : (⟨2, 2⟩ : Worth) ∈ pactWorths Agreement.cycleVotes [1, 1, 1] 3 :=
    ⟨_, _, hpact, by decide⟩
  obtain ⟨best, hbest, hachieved⟩ :=
    (ofRound_optimum Agreement.cycleVotes [1, 1, 1] 3).2 ⟨_, hworth⟩
  obtain rfl := isGreatest_achievable_cycle.unique hachieved
  exact ⟨hpact, ⟨_, hworth⟩, hbest, hachieved⟩

end Reduction

end BallotConsensus
