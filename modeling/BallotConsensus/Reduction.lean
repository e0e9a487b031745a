import BallotConsensus.Worth

/-!
# Reduced rounds

Most of a round can be decided without search.  What remains is a
`Reduction`: groups of voters that are indistinguishable, groups of
attestations that are indistinguishable, and the decisions taken already.

* `VoterGroup`, `AttestationGroup` — the entries that are still open;
* `Settled` — the decisions taken, with the weight and the fees they
  guarantee;
* `Reduction.weight`, `Reduction.fees` — what is guaranteed and what is
  still open, together;
* `Reduction.worth` — the worth of a fee sum and a weight in this round.
-/

namespace BallotConsensus

/-- Voters that confirm the same open attestations. -/
structure VoterGroup where
  /-- Positions of the voters in the round, ascending. -/
  members : List Nat
  weight : Nat
  /-- Binary digit `j` is set iff the voters confirm attestation group `j`. -/
  confirmed : Nat
deriving DecidableEq, Repr

/-- Whether the voters of a group confirm an attestation group. -/
def VoterGroup.confirms (voters : VoterGroup) (attestations : Nat) : Bool :=
  voters.confirmed.testBit attestations

/-- Attestations that are confirmed by the same open voters. -/
structure AttestationGroup where
  /-- The attestations, ascending. -/
  members : List Nat
  fee : Nat
  /-- Binary digit `i` is set iff voter group `i` confirms the
  attestations. -/
  support : Nat
deriving DecidableEq, Repr

/-- What is decided without search. -/
structure Settled where
  /-- Weight of the voters that participate in any case. -/
  weight : Nat
  /-- Fees of the attestations that are included in any case. -/
  fees : Nat
  /-- Positions of the voters that participate in any case. -/
  participants : List Nat
  /-- Attestations that are included in any case. -/
  included : List Nat
  /-- Attestations that cannot be included. -/
  excluded : List Nat
deriving DecidableEq, Repr

/-- Nothing is decided yet. -/
def Settled.nothing : Settled := ⟨0, 0, [], [], []⟩

/-- A round reduced to what has to be searched. -/
structure Reduction where
  voters : List VoterGroup
  attestations : List AttestationGroup
  settled : Settled
  /-- Weight of all voters of the round, whether they voted or not. -/
  total : Nat
deriving DecidableEq, Repr

namespace Reduction

/-- Half of the total weight.  A coalition needs strictly more. -/
def half (r : Reduction) : Nat := r.total / 2

/-- Weight of all voters that can still participate. -/
def weight (r : Reduction) : Nat := r.settled.weight + (r.voters.map (·.weight)).sum

/-- Fees of all attestations that can still be included. -/
def fees (r : Reduction) : Nat := r.settled.fees + (r.attestations.map (·.fee)).sum

/-- The worth of a fee sum and a weight in this round. -/
def worth (r : Reduction) (fees weight : Nat) : Worth := Worth.of fees weight r.total

end Reduction

end BallotConsensus
