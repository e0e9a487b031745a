import BallotConsensus.Assignment
import BallotConsensus.Ballot

/-!
# Outcomes

An **outcome** is an agreement in terms of the round's own voters and
attestations: one flag each.  It is expanded from an assignment on the
reduced round: every voter and attestation takes the decision of the group
it belongs to, or the decision that was settled before the search.

* `Outcome.expand` — the outcome of an assignment;
* `Outcome.nothing` — nobody participates, nothing is included;
* `Outcome.worthFrom` — the worth computed from the votes themselves;
* `Outcome.isBacked` — every participant confirms every inclusion.
-/

namespace BallotConsensus

/-- An agreement of a round. -/
structure Outcome where
  /-- One flag per vote. -/
  participants : List Bool
  /-- One flag per attestation. -/
  included : List Bool
  worth : Worth
  /-- Whether everything was searched within the budget. -/
  optimal : Bool
deriving DecidableEq, Repr

namespace Outcome

/-- Nobody participates and nothing is included. -/
def nothing (votes attestations : Nat) : Outcome where
  participants := List.replicate votes false
  included := List.replicate attestations false
  worth := .zero
  optimal := true

/-- The members of the flagged groups. -/
def membersOf (groups : List (List Nat)) (flags : List Bool) : List Nat :=
  (groups.zip flags).flatMap fun (members, flag) => if flag then members else []

/-- The outcome that an assignment stands for in a round with the given
numbers of votes and attestations. -/
def expand (votes attestations : Nat) (r : Reduction) (a : Assignment) (optimal : Bool) :
    Outcome where
  participants := Flags.ofPositions votes
    (r.settled.participants ++ membersOf (r.voters.map (·.members)) a.participants)
  included := Flags.ofPositions attestations
    (r.settled.included ++ membersOf (r.attestations.map (·.members)) a.included)
  worth := a.worth
  optimal

/-- The included attestations as a ballot. -/
def ballot (o : Outcome) : Except BallotError Ballot := Ballot.ofFlags o.included

/-- The participating votes. -/
def participating (o : Outcome) (votes : List WeightedBallot) : List WeightedBallot :=
  (votes.zip o.participants).filterMap fun (vote, participates) =>
    if participates then some vote else none

/-- The names of the participating voters. -/
def voters (o : Outcome) (votes : List WeightedBallot) : List Nat :=
  (o.participating votes).map (·.voter)

/-- The weight of the participating voters. -/
def weight (o : Outcome) (votes : List WeightedBallot) : Nat :=
  ((o.participating votes).map (·.weight)).sum

/-- The fees of the included attestations. -/
def fees (o : Outcome) (fees : List Nat) : Nat :=
  ((fees.zip o.included).map fun (fee, isIncluded) => if isIncluded then fee else 0).sum

/-- The worth computed from the votes and fees of the round, without its
reduction. -/
def worthFrom (o : Outcome) (votes : List WeightedBallot) (fees : List Nat) (total : Nat) :
    Worth :=
  Worth.of (o.fees fees) (o.weight votes) total

/-- Whether every participating voter confirms every included
attestation. -/
def isBacked (o : Outcome) (votes : List WeightedBallot) : Bool :=
  (o.participating votes).all fun vote => vote.confirmsAll (Flags.positions o.included)

/-- Marks which attestations of a round are agreed upon.  Marks beyond the
attestations of the outcome stay as they are. -/
def applyTo (o : Outcome) (marks : List Bool) : List Bool :=
  o.included.take marks.length ++ marks.drop o.included.length

end Outcome

end BallotConsensus
