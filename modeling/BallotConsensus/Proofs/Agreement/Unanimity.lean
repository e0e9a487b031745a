import BallotConsensus.Proofs.Agreement

/-!
# Unanimity is honoured

Whatever all voters of a majority confirm is included before anything is
searched, and a voter that confirms everything that could be included
participates before anything is searched.  What is settled is kept by every
assignment: neither a spent budget nor a search that finds nothing nor a tie
between worths can undo it, and it does not matter whether the fees are zero.

* `Reduction.mem_included_ofRound`, `Reduction.mem_participants_ofRound` — what
  a reduction settles, said of the votes;
* `Reduction.Represents.expand_settled` — **every outcome keeps what is
  settled**;
* `Agreement.reach_unanimous` — **unanimity is honoured.**
-/

namespace BallotConsensus

variable {votes : List WeightedBallot} {fees : List Nat} {total : Nat}

namespace Reduction

/-- The decisions of a reduction are those of the first pass. -/
theorem settled_ofRound (votes : List WeightedBallot) (fees : List Nat) (total : Nat) :
    (ofRound votes fees total).settled =
      ((Standing.start votes fees).pass (total / 2)).settled := by
  rw [ofRound, Standing.settle_eq_pass]
  rfl

/-- **What everybody confirms is settled**, if everybody together is a
majority. -/
theorem mem_included_ofRound {x : Nat} (hx : x < fees.length)
    (hmajority : total < 2 * (votes.map (·.weight)).sum)
    (hall : ∀ vote ∈ votes, vote.confirms x = true) :
    x ∈ (ofRound votes fees total).settled.included := by
  have hbacking : backing votes {x} = (votes.map (·.weight)).sum := by
    rw [backing, List.filter_eq_self.mpr]
    intro vote hvote
    simp [hall vote hvote]
  rw [settled_ofRound, Standing.mem_included_start hx]
  refine ⟨by omega, fun v _ vote hvote => ?_⟩
  exact hall vote (List.mem_of_getElem? hvote)

/-- **Who confirms everything that a majority confirms is settled.** -/
theorem mem_participants_ofRound {v : Nat} {vote : WeightedBallot} (hvote : votes[v]? = some vote)
    (hall : ∀ x, x < fees.length → total < 2 * backing votes {x} → vote.confirms x = true) :
    v ∈ (ofRound votes fees total).settled.participants := by
  have hv : v < votes.length := (List.getElem?_eq_some_iff.mp hvote).1
  rw [settled_ofRound, Standing.mem_participants_start hv]
  intro x hx hmajority other hother
  obtain rfl := Option.some.inj (hvote.symm.trans hother)
  exact hall x hx (by omega)

/-- **Every outcome keeps what is settled**, whatever assignment it is expanded
from. -/
theorem Represents.expand_settled {r : Reduction} (h : r.Represents votes fees) (a : Assignment)
    (optimal : Bool) :
    (∀ x ∈ r.settled.included,
      (Outcome.expand votes.length fees.length r a optimal).included[x]? = some true) ∧
    (∀ v ∈ r.settled.participants,
      (Outcome.expand votes.length fees.length r a optimal).participants[v]? = some true) := by
  constructor
  · intro x hx
    exact h.expand_included.mpr (List.mem_append_left _ hx)
  · intro v hv
    exact h.expand_participants.mpr (List.mem_append_left _ hv)

end Reduction

namespace Agreement

/-- **Unanimity is honoured**, whatever the budget, the seed and the fees: if
the voters together are a majority, an outcome includes every attestation that
all of them confirm, and every voter participates that confirms all attestations
with a majority behind them. -/
theorem reach_unanimous (hmet : Contract.Met votes fees total) (hfees : fees ≠ [])
    (hmajority : total < 2 * (votes.map (·.weight)).sum) (budget : Nat) (seed : Seed) :
    ∃ agreement, reach votes fees total budget seed = .ok agreement ∧
      (∀ x, x < fees.length → (∀ vote ∈ votes, vote.confirms x = true) →
        agreement.outcome.included[x]? = some true) ∧
      (∀ (v : Nat) (vote : WeightedBallot), votes[v]? = some vote →
        (∀ x, x < fees.length → total < 2 * backing votes {x} → vote.confirms x = true) →
        agreement.outcome.participants[v]? = some true) := by
  have hvotes : votes ≠ [] := by
    rintro rfl
    simp at hmajority
  refine ⟨_, reach_searched hmet hvotes hfees budget seed, ?_⟩
  obtain ⟨hincluded, hparticipants⟩ :=
    (Reduction.ofRound_represents votes fees total).expand_settled
      ((Reduction.ofRound votes fees total).resolution budget seed).assignment
      ((Reduction.ofRound votes fees total).resolution budget seed).optimal
  constructor
  · intro x hx hall
    exact hincluded x (Reduction.mem_included_ofRound hx hmajority hall)
  · intro v vote hvote hall
    exact hparticipants v (Reduction.mem_participants_ofRound hvote hall)

/-- The cycle of three voters, all of whom confirm a fourth attestation besides,
and a fourth voter that confirms everything, also a fifth attestation that
nobody else confirms. -/
def crownedVotes : List WeightedBallot :=
  [⟨0, 1, ⟨5, 0b01011, by decide, by decide⟩, Nat.one_pos⟩,
    ⟨1, 1, ⟨5, 0b01101, by decide, by decide⟩, Nat.one_pos⟩,
    ⟨2, 1, ⟨5, 0b01110, by decide, by decide⟩, Nat.one_pos⟩,
    ⟨3, 1, ⟨5, 0b11111, by decide, by decide⟩, Nat.one_pos⟩]

/-- The fourth attestation has no fee and the budget is spent at once. -/
theorem reach_unanimous_of_crowned :
    Contract.Met crownedVotes [1, 1, 1, 0, 1] 5 ∧ 5 < 2 * (crownedVotes.map (·.weight)).sum ∧
      (∀ vote ∈ crownedVotes, vote.confirms 3 = true) ∧
      ∃ agreement, reach crownedVotes [1, 1, 1, 0, 1] 5 0 (.ofNumber 7) = .ok agreement ∧
        agreement.outcome.included[3]? = some true ∧
        agreement.outcome.participants[3]? = some true := by
  have hmet : Contract.Met crownedVotes [1, 1, 1, 0, 1] 5 := ⟨by decide, by decide, by decide⟩
  have hmajority : 5 < 2 * (crownedVotes.map (·.weight)).sum := by decide
  have hall : ∀ vote ∈ crownedVotes, vote.confirms 3 = true := by decide
  have heverything : ∀ x, x < 5 → 5 < 2 * backing crownedVotes {x} →
      (⟨3, 1, ⟨5, 0b11111, by decide, by decide⟩, Nat.one_pos⟩ : WeightedBallot).confirms x =
        true := by
    decide
  obtain ⟨agreement, hreach, hincluded, hparticipants⟩ :=
    reach_unanimous hmet (by decide) hmajority 0 (.ofNumber 7)
  exact ⟨hmet, hmajority, hall, agreement, hreach, hincluded 3 (by decide) hall,
    hparticipants 3 _ rfl heverything⟩

end Agreement

end BallotConsensus
