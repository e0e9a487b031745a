import BallotConsensus.Proofs.Expansion
import BallotConsensus.Proofs.Resolution

/-!
# What every agreement guarantees

For every round that meets its contract, every budget and every seed, an
agreement is reached.  Whether or not it is optimal, its outcome **stands up**
to the votes and fees of the round: all participants confirm all inclusions,
they are a majority if the voters together are one, and the worth is the worth
of the published ballot.  An optimal outcome is the best that the round could
agree on.

* `Outcome.Stands` — what an outcome owes to its round;
* `Agreement.reach_stands` — **every outcome stands up to its round**;
* `Agreement.reach_best`, `Agreement.reach_feasible`, `Agreement.reach_worth`
  — how good, how well backed and how truly reported an outcome is.
-/

namespace BallotConsensus

variable {votes : List WeightedBallot} {fees : List Nat} {total : Nat}

/-- **An outcome that stands up to its round.** -/
structure Outcome.Stands (o : Outcome) (votes : List WeightedBallot) (fees : List Nat)
    (total : Nat) : Prop where
  participants_length : o.participants.length = votes.length
  included_length : o.included.length = fees.length
  /-- Every participant confirms every inclusion. -/
  confirms : ∀ v x : Nat, o.participants[v]? = some true → o.included[x]? = some true →
    ConfirmsAt votes v x
  worth_eq : o.worth = o.worthFrom votes fees total
  majority : fees ≠ [] → total / 2 < (votes.map (·.weight)).sum → total / 2 < o.weight votes
  minority : (votes.map (·.weight)).sum ≤ total / 2 →
    o.included = List.replicate fees.length false
  /-- If it is optimal, no majority confirms anything of more worth. -/
  covers : o.optimal = true → ∀ chosen, Carried votes fees total chosen →
    worthOver votes fees total chosen ≤ o.worth

/-- Outcomes that include nothing are worth nothing. -/
theorem Outcome.worthFrom_eq_zero {o : Outcome} {n : Nat}
    (hnone : o.included = List.replicate n false) : o.worthFrom votes fees total = .zero := by
  have hfees : o.fees fees = 0 := by
    rw [Outcome.fees_eq, hnone, Flags.sum_select]
    refine Finset.sum_eq_zero fun x _ => ?_
    simp [List.getElem?_replicate]
  rw [Outcome.worthFrom, hfees, Worth.of_no_fees]

namespace Outcome

variable {o : Outcome}

/-- The voters that participate. -/
def participantSet (o : Outcome) : Finset Nat := (Flags.positions o.participants).toFinset

/-- The attestations that are included. -/
def inclusionSet (o : Outcome) : Finset Nat := (Flags.positions o.included).toFinset

theorem mem_participantSet {v : Nat} :
    v ∈ o.participantSet ↔ o.participants[v]? = some true := by
  rw [participantSet, List.mem_toFinset, Flags.mem_positions]

theorem mem_inclusionSet {x : Nat} : x ∈ o.inclusionSet ↔ o.included[x]? = some true := by
  rw [inclusionSet, List.mem_toFinset, Flags.mem_positions]

end Outcome

namespace Outcome.Stands

variable {o : Outcome}

theorem participantSet_subset (h : o.Stands votes fees total) :
    o.participantSet ⊆ Finset.range votes.length := by
  intro v hv
  rw [Finset.mem_range, ← h.participants_length]
  exact (List.getElem?_eq_some_iff.mp (mem_participantSet.mp hv)).1

theorem inclusionSet_subset (h : o.Stands votes fees total) :
    o.inclusionSet ⊆ Finset.range fees.length := by
  intro x hx
  rw [Finset.mem_range, ← h.included_length]
  exact (List.getElem?_eq_some_iff.mp (mem_inclusionSet.mp hx)).1

theorem fees_eq_feesOver (h : o.Stands votes fees total) :
    o.fees fees = feesOver fees o.inclusionSet := by
  rw [Outcome.fees_eq]
  exact sum_select_fees h.included_length

/-- The participants of an outcome are among those who back its inclusions. -/
theorem weight_le_backing (h : o.Stands votes fees total) :
    o.weight votes ≤ backing votes o.inclusionSet := by
  rw [Outcome.weight_eq, ← Flags.map_select]
  exact select_le_backing fun v hv x hx => h.confirms v x hv (mem_inclusionSet.mp hx)

/-- **No outcome is too good.**  A majority confirms something that is worth at
least as much. -/
theorem exists_carried (h : o.Stands votes fees total)
    (hcarried : ∃ chosen, Carried votes fees total chosen) :
    ∃ chosen, Carried votes fees total chosen ∧ o.worth ≤ worthOver votes fees total chosen := by
  by_cases hfees : fees = []
  · obtain ⟨chosen, hchosen⟩ := hcarried
    refine ⟨chosen, hchosen, ?_⟩
    have hnone : o.included = List.replicate 0 false := by
      rw [List.replicate_zero, ← List.length_eq_zero_iff, h.included_length, hfees,
        List.length_nil]
    rw [h.worth_eq, Outcome.worthFrom_eq_zero hnone]
    exact Worth.zero_le _
  · have hmajority := h.majority hfees (exists_carried_iff.mp hcarried)
    refine ⟨o.inclusionSet, ⟨h.inclusionSet_subset, ?_⟩, ?_⟩
    · exact Nat.lt_of_lt_of_le hmajority h.weight_le_backing
    · rw [h.worth_eq, Outcome.worthFrom, h.fees_eq_feesOver]
      exact Worth.of_mono (Nat.le_refl _) h.weight_le_backing total

/-- **What is included has a majority.** -/
theorem lt_weight (h : o.Stands votes fees total) {x : Nat} (hx : o.included[x]? = some true) :
    total < 2 * o.weight votes := by
  have hlt : x < fees.length := h.included_length ▸ (List.getElem?_eq_some_iff.mp hx).1
  have hfees : fees ≠ [] := List.ne_nil_of_length_pos (by omega)
  by_cases hvotes : (votes.map (·.weight)).sum ≤ total / 2
  · rw [h.minority hvotes] at hx
    simp [List.getElem?_replicate] at hx
  · have := h.majority hfees (Nat.not_le.mp hvotes)
    omega

theorem isBacked (h : o.Stands votes fees total) : o.isBacked votes = true :=
  Outcome.isBacked_iff.mpr h.confirms

end Outcome.Stands

/-- Where there are no votes or no fees, agreeing on nothing is all there is. -/
theorem Outcome.nothing_stands (h : votes = [] ∨ fees = []) :
    (Outcome.nothing votes.length fees.length).Stands votes fees total := by
  refine ⟨by simp [Outcome.nothing], by simp [Outcome.nothing], ?_,
    (Outcome.worthFrom_eq_zero rfl).symm, ?_, fun _ => rfl, ?_⟩
  · intro v x hv
    simp [Outcome.nothing, List.getElem?_replicate] at hv
  · intro hfees hmajority
    rw [h.resolve_right hfees] at hmajority
    simp at hmajority
  · intro _ chosen hcarried
    have hchosen : feesOver fees chosen = 0 := by
      rcases h with hvotes | hfees
      · have := hcarried.majority
        simp [backing, hvotes] at this
      · simp [feesOver, hfees]
    rw [worthOver, hchosen, Worth.of_no_fees]
    exact Worth.zero_le _

/-- Voters that do not outweigh everybody do not once their round is reduced. -/
theorem Reduction.weight_ofRound_le (fees : List Nat)
    (hweight : (votes.map (·.weight)).sum ≤ total) :
    (ofRound votes fees total).weight ≤ (ofRound votes fees total).total := by
  rw [(ofRound_represents votes fees total).weight_eq_sum]
  exact hweight

theorem Contract.Met.reduction_weight_le (hmet : Contract.Met votes fees total) :
    (Reduction.ofRound votes fees total).weight ≤ (Reduction.ofRound votes fees total).total :=
  Reduction.weight_ofRound_le fees hmet.weight_le

/-- An assignment that fits, has a majority if the round has one and is the
best if it is called optimal, expands to an outcome that stands. -/
theorem Reduction.Represents.expand_stands {r : Reduction} (h : r.Represents votes fees)
    {a : Assignment} {optimal : Bool} (ha : a.Fits r)
    (hmajority : r.half < r.weight → r.half < r.weightOf a.participants)
    (hcovers : optimal = true → ∀ b : Assignment, b.Fits r →
      r.half < r.weightOf b.participants → b.worth ≤ a.worth) :
    (Outcome.expand votes.length fees.length r a optimal).Stands votes fees r.total := by
  refine ⟨by simp [Outcome.expand], by simp [Outcome.expand], ?_, ?_, ?_, ?_, ?_⟩
  · intro v x hv hx
    exact h.expand_confirms ha.backed (h.expand_participants.mp hv) (h.expand_included.mp hx)
  · rw [Outcome.worthFrom, h.weight_expand, h.fees_expand]
    exact ha.worth_eq
  · intro _ hvotes
    rw [h.weight_expand]
    exact hmajority (h.weight_eq_sum ▸ hvotes)
  · intro hvotes
    change Flags.ofPositions _ (r.inclusionsOf a.included) = _
    rw [h.inclusionsOf_eq_nil (h.weight_eq_sum ▸ hvotes)]
    simp [Flags.ofPositions]
  · intro hoptimal chosen hcarried
    obtain ⟨b, hb, hhalf, hle⟩ := h.exists_covering hcarried
    exact le_trans hle (hcovers hoptimal b hb hhalf)

namespace Agreement

theorem reach_nothing (hmet : Contract.Met votes fees total) (h : votes = [] ∨ fees = [])
    (budget : Nat) (seed : Seed) :
    reach votes fees total budget seed = .ok (.nothing votes.length fees.length) := by
  have hempty : (votes.isEmpty || fees.isEmpty) = true := by simpa using h
  simp only [reach, hmet.check_eq_ok, hempty, if_true]

theorem reach_searched (hmet : Contract.Met votes fees total) (hvotes : votes ≠ [])
    (hfees : fees ≠ []) (budget : Nat) (seed : Seed) :
    reach votes fees total budget seed =
      .ok (.searched votes (Reduction.ofRound votes fees total)
        ((Reduction.ofRound votes fees total).resolution budget seed)
        (.expand votes.length fees.length (Reduction.ofRound votes fees total)
          ((Reduction.ofRound votes fees total).resolution budget seed).assignment
          ((Reduction.ofRound votes fees total).resolution budget seed).optimal)) := by
  have hempty : (votes.isEmpty || fees.isEmpty) = false := by simp [hvotes, hfees]
  simp only [reach, hmet.check_eq_ok, hempty, Bool.false_eq_true, if_false,
    Reduction.resolution_overweight hmet.reduction_weight_le]

/-- Agreements are reached only about fees that fit into a ballot. -/
theorem fees_le_of_reach {budget : Nat} {seed : Seed} {agreement : Agreement}
    (h : reach votes fees total budget seed = .ok agreement) : fees.length ≤ ballotCapacity := by
  by_contra hfees
  have hcheck : Contract.check votes fees total = .error (.tooManyAttestations fees.length) :=
    if_pos (Nat.not_le.mp hfees)
  simp [reach, hcheck] at h

/-- **Every outcome stands up to its round**, whatever the budget and the
seed. -/
theorem reach_stands (hmet : Contract.Met votes fees total) (budget : Nat) (seed : Seed) :
    ∃ agreement, reach votes fees total budget seed = .ok agreement ∧
      agreement.outcome.Stands votes fees total := by
  by_cases h : votes = [] ∨ fees = []
  · exact ⟨_, reach_nothing hmet h budget seed, Outcome.nothing_stands h⟩
  · rw [not_or] at h
    have hrepresents := Reduction.ofRound_represents votes fees total
    have hweight := hmet.reduction_weight_le
    refine ⟨_, reach_searched hmet h.1 h.2 budget seed, ?_⟩
    exact hrepresents.expand_stands (Reduction.resolution_fits hweight budget seed)
      (fun hmajority => Reduction.resolution_majority hweight hmajority budget seed)
      fun hoptimal _ => Reduction.resolution_covers hweight hoptimal

/-! ## The guarantees -/

/-- Three equal voters, any two of which confirm one attestation in common. -/
def cycleVotes : List WeightedBallot :=
  [⟨0, 1, ⟨3, 0b011, by decide, by decide⟩, Nat.one_pos⟩,
    ⟨1, 1, ⟨3, 0b101, by decide, by decide⟩, Nat.one_pos⟩,
    ⟨2, 1, ⟨3, 0b110, by decide, by decide⟩, Nat.one_pos⟩]

theorem cycleVotes_met : Contract.Met cycleVotes [1, 1, 1] 3 := ⟨by decide, by decide, by decide⟩

/-- Within a budget of a hundred, the last two voters agree on what they have in common. -/
theorem outcome_of_cycleVotes {agreement : Agreement}
    (h : reach cycleVotes [1, 1, 1] 3 100 (.ofNumber 7) = .ok agreement) :
    agreement.outcome = ⟨[false, true, true], [false, false, true], ⟨2, 2⟩, true⟩ := by
  have hrun : (reach cycleVotes [1, 1, 1] 3 100 (.ofNumber 7)).toOption.map (·.outcome) =
      some ⟨[false, true, true], [false, false, true], ⟨2, 2⟩, true⟩ := by decide +kernel
  rw [h] at hrun
  exact Option.some.inj hrun

/-- **How good an outcome is.**  If a majority confirms anything, even the
empty set of attestations, there is a best worth that the round could agree
on: no outcome exceeds it and an optimal one reaches it.  Otherwise nothing is
included and the worth is zero. -/
theorem reach_best (hmet : Contract.Met votes fees total) (budget : Nat) (seed : Seed) :
    ∃ agreement, reach votes fees total budget seed = .ok agreement ∧
      ((∃ chosen, Carried votes fees total chosen) →
        ∃ best, IsGreatest (attainable votes fees total) best ∧
          agreement.outcome.worth ≤ best ∧
          (agreement.outcome.optimal = true → agreement.outcome.worth = best)) ∧
      ((¬ ∃ chosen, Carried votes fees total chosen) →
        agreement.outcome.included = List.replicate fees.length false ∧
          agreement.outcome.worth = .zero) := by
  obtain ⟨agreement, hreach, hstands⟩ := reach_stands hmet budget seed
  refine ⟨agreement, hreach, ?_, ?_⟩
  · intro hcarried
    obtain ⟨best, hbest⟩ := exists_isGreatest_attainable hcarried
    obtain ⟨chosen, hchosen, hworth⟩ := hstands.exists_carried hcarried
    have hle : agreement.outcome.worth ≤ best := le_trans hworth (hbest.2 ⟨chosen, hchosen, rfl⟩)
    refine ⟨best, hbest, hle, fun hoptimal => le_antisymm hle ?_⟩
    obtain ⟨other, hother, rfl⟩ := hbest.1
    exact hstands.covers hoptimal other hother
  · intro hnone
    rw [exists_carried_iff, Nat.not_lt] at hnone
    have hincluded := hstands.minority hnone
    exact ⟨hincluded, hstands.worth_eq.trans (Outcome.worthFrom_eq_zero hincluded)⟩

/-- Two of the three voters can agree on what they have in common, and within a budget of
a hundred they do.  With three more units of weight that do not vote, nobody is a
majority. -/
theorem reach_best_of_cycle :
    Contract.Met cycleVotes [1, 1, 1] 3 ∧ Contract.Met cycleVotes [1, 1, 1] 6 ∧
      (∃ agreement, reach cycleVotes [1, 1, 1] 3 100 (.ofNumber 7) = .ok agreement ∧
        agreement.outcome.optimal = true ∧ agreement.outcome.worth = ⟨2, 2⟩ ∧
        IsGreatest (attainable cycleVotes [1, 1, 1] 3) ⟨2, 2⟩) ∧
      ∃ agreement, reach cycleVotes [1, 1, 1] 6 100 (.ofNumber 7) = .ok agreement ∧
        agreement.outcome.included = [false, false, false] ∧
        agreement.outcome.worth = .zero := by
  have hmet : Contract.Met cycleVotes [1, 1, 1] 6 := ⟨by decide, by decide, by decide⟩
  obtain ⟨agreement, hreach, hcarried, -⟩ := reach_best cycleVotes_met 100 (.ofNumber 7)
  obtain ⟨nothing, hnothing, -, hnone⟩ := reach_best hmet 100 (.ofNumber 7)
  have houtcome := outcome_of_cycleVotes hreach
  have hoptimal : agreement.outcome.optimal = true := congrArg (·.optimal) houtcome
  have hworth : agreement.outcome.worth = ⟨2, 2⟩ := congrArg (·.worth) houtcome
  obtain ⟨best, hbest, -, hreached⟩ := hcarried (exists_carried_iff.mpr (by decide))
  obtain rfl : ⟨2, 2⟩ = best := hworth.symm.trans (hreached hoptimal)
  obtain ⟨hincluded, hzero⟩ := hnone (mt exists_carried_iff.mp (by decide))
  exact ⟨cycleVotes_met, hmet, ⟨agreement, hreach, hoptimal, hworth, hbest⟩,
    nothing, hnothing, hincluded, hzero⟩

/-- **How well an outcome is backed**, optimal or not: it has one flag per vote
and one per attestation, every participant confirms every inclusion, and the
participants are a majority if the voters together are one.  If they are not,
nothing is included. -/
theorem reach_feasible (hmet : Contract.Met votes fees total) (hfees : fees ≠ []) (budget : Nat)
    (seed : Seed) :
    ∃ agreement, reach votes fees total budget seed = .ok agreement ∧
      agreement.outcome.participants.length = votes.length ∧
      agreement.outcome.included.length = fees.length ∧
      agreement.outcome.isBacked votes = true ∧
      (∀ (v x : Nat) (vote : WeightedBallot), votes[v]? = some vote →
        agreement.outcome.participants[v]? = some true →
        agreement.outcome.included[x]? = some true → vote.confirms x = true) ∧
      (total < 2 * (votes.map (·.weight)).sum → total < 2 * agreement.outcome.weight votes) ∧
      (¬ total < 2 * (votes.map (·.weight)).sum →
        agreement.outcome.included = List.replicate fees.length false) := by
  obtain ⟨agreement, hreach, hstands⟩ := reach_stands hmet budget seed
  refine ⟨agreement, hreach, hstands.participants_length, hstands.included_length,
    hstands.isBacked, ?_, ?_, ?_⟩
  · intro v x vote hvote hv hx
    exact hstands.confirms v x hv hx vote hvote
  · intro hvotes
    have := hstands.majority hfees (by omega)
    omega
  · intro hvotes
    exact hstands.minority (by omega)

/-- With nothing to spend, all three voters participate; within a budget of a hundred, the
last two do and include what they have in common. -/
theorem reach_feasible_of_cycle :
    Contract.Met cycleVotes [1, 1, 1] 3 ∧ 3 < 2 * (cycleVotes.map (·.weight)).sum ∧
      (∃ agreement, reach cycleVotes [1, 1, 1] 3 0 (.ofNumber 7) = .ok agreement ∧
        agreement.outcome.isBacked cycleVotes = true ∧
        3 < 2 * agreement.outcome.weight cycleVotes) ∧
      ∃ agreement, reach cycleVotes [1, 1, 1] 3 100 (.ofNumber 7) = .ok agreement ∧
        agreement.outcome.participants = [false, true, true] ∧
        agreement.outcome.included = [false, false, true] ∧
        agreement.outcome.isBacked cycleVotes = true ∧
        3 < 2 * agreement.outcome.weight cycleVotes := by
  have hvotes : 3 < 2 * (cycleVotes.map (·.weight)).sum := by decide
  obtain ⟨idle, hidle, -, -, hbacked, -, hmajority, -⟩ :=
    reach_feasible cycleVotes_met (by decide) 0 (.ofNumber 7)
  obtain ⟨agreement, hreach, -, -, hbacked', -, hmajority', -⟩ :=
    reach_feasible cycleVotes_met (by decide) 100 (.ofNumber 7)
  have houtcome := outcome_of_cycleVotes hreach
  exact ⟨cycleVotes_met, hvotes, ⟨idle, hidle, hbacked, hmajority hvotes⟩,
    agreement, hreach, congrArg (·.participants) houtcome, congrArg (·.included) houtcome,
    hbacked', hmajority' hvotes⟩

/-- **The reported worth is real**: it is the worth computed from the votes and
fees of the round, and the worth of the fees of the published ballot, backed by
the weight of the participants. -/
theorem reach_worth (hmet : Contract.Met votes fees total) (budget : Nat) (seed : Seed) :
    ∃ agreement, reach votes fees total budget seed = .ok agreement ∧
      agreement.outcome.worth = agreement.outcome.worthFrom votes fees total ∧
      ∃ ballot, agreement.outcome.ballot = .ok ballot ∧
        agreement.outcome.worth =
          Worth.of (ballot.fees fees) (agreement.outcome.weight votes) total := by
  obtain ⟨agreement, hreach, hstands⟩ := reach_stands hmet budget seed
  have hlength : agreement.outcome.included.length ≤ ballotCapacity := by
    rw [hstands.included_length]
    exact hmet.fees_le
  have hballot : agreement.outcome.ballot = .ok _ := dif_pos hlength
  refine ⟨agreement, hreach, hstands.worth_eq, _, hballot, ?_⟩
  rw [Outcome.fees_ballot hballot]
  exact hstands.worth_eq

/-- One attestation with a fee of one is published, backed by two voters. -/
theorem reach_worth_of_cycle :
    Contract.Met cycleVotes [1, 1, 1] 3 ∧
      ∃ agreement, reach cycleVotes [1, 1, 1] 3 100 (.ofNumber 7) = .ok agreement ∧
        agreement.outcome.worth = agreement.outcome.worthFrom cycleVotes [1, 1, 1] 3 ∧
        agreement.outcome.weight cycleVotes = 2 ∧
        ∃ ballot, agreement.outcome.ballot = .ok ballot ∧ ballot.fees [1, 1, 1] = 1 ∧
          agreement.outcome.worth =
            Worth.of (ballot.fees [1, 1, 1]) (agreement.outcome.weight cycleVotes) 3 ∧
          agreement.outcome.worth = ⟨2, 2⟩ := by
  obtain ⟨agreement, hreach, hreal, ballot, hballot, hworth⟩ :=
    reach_worth cycleVotes_met 100 (.ofNumber 7)
  have houtcome := outcome_of_cycleVotes hreach
  have hpublished : agreement.outcome.ballot.toOption.map (·.fees [1, 1, 1]) = some 1 := by
    rw [houtcome]
    decide
  rw [hballot] at hpublished
  have hfees : ballot.fees [1, 1, 1] = 1 := Option.some.inj hpublished
  have hweight : agreement.outcome.weight cycleVotes = 2 := by
    rw [houtcome]
    decide
  exact ⟨cycleVotes_met, agreement, hreach, hreal, hweight, ballot, hballot, hfees, hworth,
    congrArg (·.worth) houtcome⟩

end Agreement

end BallotConsensus
