import Mathlib.Logic.Function.Iterate
import BallotConsensus.Proofs.Agreement
import BallotConsensus.Proofs.Exploration.Nodes
import BallotConsensus.Proofs.Random.Shuffle

/-!
# Nothing overflows

Weights are machine words of 64 bits, differences of natural numbers must not
fall below zero, and lists are read at positions.  For a round that meets its
contract none of this can go wrong, at any stage and whatever the budget and the
seed: every sum of weights stays at or below the total weight, every difference
that is computed is one, every position is inside its list, and no coalition is
found to outweigh everybody together.

Two facts carry this.  Passes over a standing move weight from the open to the
settled voters and keep the sum of both, its **mass**.  And the nodes of a search
keep covering what is left to decide (`Coalition.Running`, `Support.Running`).

* `Standing.Within` — a standing within limits, `Standing.within_iterate`: all
  standings that settling passes through are;
* `Reduction.Within` — a reduction within limits;
* `Agreement.WithinLimits` — all stages of an agreement within limits, and
  `Agreement.reach_within_limits`: **every round that meets its contract is.**
-/

namespace BallotConsensus

variable {votes : List WeightedBallot} {fees : List Nat} {total half : Nat}

/-! ## Standings -/

namespace Standing

/-- The weight of all voters, settled or open. -/
def mass (s : Standing) : Nat := s.settled.weight + (s.voters.map (·.vote.weight)).sum

/-- **A pass keeps the mass**: whoever is not open any more is settled. -/
theorem mass_pass (s : Standing) (half : Nat) : (s.pass half).mass = s.mass := by
  rw [mass, mass, pass_eq, ← ((voters_perm s half).map (·.vote.weight)).sum_eq, List.map_append,
    List.sum_append, Nat.add_assoc]

theorem mass_start (votes : List WeightedBallot) (fees : List Nat) :
    (start votes fees).mass = (votes.map (·.weight)).sum := by
  rw [mass, start_voter_weights]
  exact Nat.zero_add _

/-- Some of the voters support no attestation with more than their mass. -/
theorem support_le_mass (s : Standing) (a : Attestation) : s.support a ≤ s.mass :=
  Nat.add_le_add_left ((List.filter_sublist.map _).sum_le_sum (by simp)) _

/-- **A standing within limits.** -/
structure Within (s : Standing) (votes : List WeightedBallot) (fees : List Nat)
    (total : Nat) : Prop where
  /-- Open voters are found at their positions. -/
  voters_at : ∀ v ∈ s.voters, votes[v.position]? = some v.vote
  /-- Open attestations are found at their positions. -/
  attestations_at : ∀ a ∈ s.attestations, fees[a.position]? = some a.fee
  settled_le : s.settled.weight ≤ total
  support_le : ∀ a, s.support a ≤ total

/-- Passes reopen nothing. -/
theorem subset_iterate (s : Standing) (half n : Nat) :
    ((pass · half)^[n] s).voters ⊆ s.voters ∧
      ((pass · half)^[n] s).attestations ⊆ s.attestations := by
  induction n with
  | zero => exact ⟨List.Subset.refl _, List.Subset.refl _⟩
  | succ n ih =>
      rw [Function.iterate_succ_apply', pass_eq]
      refine ⟨fun v hv => ih.1 (mem_undecided.mp hv).1, fun a ha => ih.2 ?_⟩
      exact (mem_kept.mp (mem_contested.mp ha).1).1

theorem mass_iterate (s : Standing) (half n : Nat) : ((pass · half)^[n] s).mass = s.mass := by
  induction n with
  | zero => rfl
  | succ n ih => rw [Function.iterate_succ_apply', mass_pass, ih]

/-- **All standings that settling passes through are within limits.** -/
theorem within_iterate (fees : List Nat) (hweight : (votes.map (·.weight)).sum ≤ total)
    (half n : Nat) : ((pass · half)^[n] (start votes fees)).Within votes fees total := by
  obtain ⟨hvoters, hattestations⟩ := subset_iterate (start votes fees) half n
  have hmass := mass_iterate (start votes fees) half n
  generalize (pass · half)^[n] (start votes fees) = s at *
  rw [mass_start] at hmass
  refine ⟨fun v hv => mem_start_voters (hvoters hv),
    fun a ha => mem_start_attestations (hattestations ha), ?_, fun a => ?_⟩
  · exact Nat.le_trans (Nat.le_add_right _ _) (hmass ▸ hweight)
  · exact Nat.le_trans (s.support_le_mass a) (hmass ▸ hweight)

end Standing

/-! ## Reductions -/

namespace Reduction

/-- **A reduction within limits.** -/
structure Within (r : Reduction) (votes : List WeightedBallot) (fees : List Nat) : Prop where
  /-- All who can participate weigh no more than everybody. -/
  weight_le : r.weight ≤ r.total
  group_le : ∀ voters ∈ r.voters, voters.weight ≤ r.total
  /-- So do any participants, however they are flagged. -/
  weightOf_le : ∀ participants, r.weightOf participants ≤ r.total
  /-- Whatever is flagged, it stands for voters of the round … -/
  position_lt : ∀ participants, ∀ v ∈ r.positionsOf participants, v < votes.length
  /-- … and for attestations of the round. -/
  inclusion_lt : ∀ included, ∀ x ∈ r.inclusionsOf included, x < fees.length

theorem Represents.within {r : Reduction} (h : r.Represents votes fees)
    (hweight : r.weight ≤ r.total) : r.Within votes fees where
  weight_le := hweight
  group_le voters hvoters := by
    refine Nat.le_trans (List.le_sum_of_mem (List.mem_map_of_mem hvoters)) ?_
    exact Nat.le_trans (Nat.le_add_left _ _) hweight
  weightOf_le participants := Nat.le_trans (r.weightOf_le participants) hweight
  position_lt _ _ hv := h.lt_of_mem_positionsOf hv
  inclusion_lt _ _ hx := h.lt_of_mem_inclusionsOf hx

end Reduction

/-- Participants weigh no more than all voters. -/
theorem Outcome.weight_le (o : Outcome) (votes : List WeightedBallot) :
    o.weight votes ≤ (votes.map (·.weight)).sum := by
  rw [weight_eq]
  exact (Flags.select_sublist _ _).sum_le_sum (by simp)

/-! ## Agreements -/

namespace Agreement

open Reduction

/-- **An agreement within limits**: what could go wrong while a round is settled,
reduced, searched and expanded again, and does not. -/
structure WithinLimits (votes : List WeightedBallot) (fees : List Nat) (total budget : Nat)
    (seed : Seed) : Prop where
  /-- Every standing that settling passes through, up to the first pass that
  decides nothing and beyond. -/
  passes : ∀ n, ((Standing.pass · (total / 2))^[n] (.start votes fees)).Within votes fees total
  reduction : (ofRound votes fees total).Within votes fees
  /-- Drawing an order swaps places that there are, … -/
  swaps : ∀ (order : Array Nat) (draw : Nat), ∃ hlast hdrawn, Shuffle.insert order draw =
    (order.push order.size).swap order.size (draw % (order.size + 1)) hlast hdrawn
  /-- … and every number drawn is the position of a group. -/
  order_lt : ∀ j ∈ (ofRound votes fees total).drawnOrder seed,
    j < (ofRound votes fees total).attestations.length
  /-- All nodes of the search by attestations. -/
  attestation_nodes : ∀ rest node, (ofRound votes fees total).byAttestations.IsNode
    ((ofRound votes fees total).entriesAt ((ofRound votes fees total).drawnOrder seed))
    (ofRound votes fees total).wholeCoalition rest node →
      node.Within (ofRound votes fees total) rest
  /-- All nodes of the search by voters. -/
  voter_nodes : ∀ rest node, (ofRound votes fees total).byVoters.IsNode
    (ofRound votes fees total).voters (ofRound votes fees total).wholeSupport rest node →
      node.Within (ofRound votes fees total) rest
  /-- No search finds a coalition that outweighs everybody together. -/
  overweight : ∀ subject bound,
    ((ofRound votes fees total).search subject budget seed bound).overweight = none
  /-- Whatever a search finds has one flag per group. -/
  found : ∀ subject bound a,
    ((ofRound votes fees total).search subject budget seed bound).found = some a →
      a.participants.length = (ofRound votes fees total).voters.length ∧
      a.included.length = (ofRound votes fees total).attestations.length
  /-- The ceiling on the weight, computed in twice the width, is a word again. -/
  ceiling : 2 * total + 2 < 2 ^ 128 ∧ weightCeiling total < 2 ^ 64
  /-- So an agreement is reached, and its participants weigh no more than
  everybody. -/
  reached : ∃ agreement, reach votes fees total budget seed = .ok agreement ∧
    agreement.outcome.weight votes ≤ total

/-- **Nothing overflows**, falls below zero or is looked up in vain, in any round
that meets its contract. -/
theorem reach_within_limits (hmet : Contract.Met votes fees total) (htotal : total < 2 ^ 64)
    (budget : Nat) (seed : Seed) : WithinLimits votes fees total budget seed := by
  have hweight := hmet.reduction_weight_le
  have hanswers := search_answers hweight
  have horder := (ofRound votes fees total).drawnOrder_perm seed
  refine ⟨?_, ?_, ?_, ?_, ?_, ?_, ?_, ?_, ?_, ?_⟩
  · exact Standing.within_iterate fees hmet.weight_le _
  · exact (ofRound_represents votes fees total).within hweight
  · exact Shuffle.insert_eq_swap
  · exact fun j hj => List.mem_range.mp (horder.mem_iff.mp hj)
  · exact fun rest node => within_byAttestations hweight horder
  · exact fun rest node => within_byVoters hweight
  · exact fun subject bound => (hanswers subject budget seed bound).overweight
  · intro subject bound a hfound
    have hfits := (hanswers subject budget seed bound).fits a hfound
    exact ⟨hfits.participants_length, hfits.included_length⟩
  · have hceiling := weightCeiling_le total
    exact ⟨by omega, by omega⟩
  · obtain ⟨agreement, hreach, -⟩ := reach_stands hmet budget seed
    exact ⟨agreement, hreach, Nat.le_trans (Outcome.weight_le _ _) hmet.weight_le⟩

theorem reach_within_limits_of_cycle :
    Contract.Met cycleVotes [1, 1, 1] 3 ∧ 3 < 2 ^ 64 ∧
      WithinLimits cycleVotes [1, 1, 1] 3 0 (.ofNumber 7) :=
  ⟨cycleVotes_met, by decide, reach_within_limits cycleVotes_met (by decide) 0 (.ofNumber 7)⟩

end Agreement

end BallotConsensus
