import BallotConsensus.Ballot

/-!
# The contract of a round

Before anything is computed, the votes of a round are checked against its
fees and its total weight: the fees fit into a ballot, every ballot covers
exactly the attestations that have fees, and the voters do not weigh more
than everybody together.

* `Contract.check` — the check;
* `ContractError` — its three ways to fail, with their wording.
-/

namespace BallotConsensus

/-- The largest weight that is ever reported. -/
def largestWeight : Nat := 2 ^ 64 - 1

/-- How votes, fees and total weight can fail to belong together. -/
inductive ContractError where
  | tooManyAttestations (attestations : Nat)
  | lengthMismatch (voter length expected : Nat)
  | weightExceedsTotal (reported total : Nat)
deriving DecidableEq, Repr

/-- The wording of a contract error. -/
def ContractError.message : ContractError → String
  | .tooManyAttestations attestations => (BallotError.tooLong attestations).message
  | .lengthMismatch voter length expected =>
      s!"bit vote of voter {voter} has length {length} but the round has {expected} fees"
  | .weightExceedsTotal reported total =>
      s!"reported weight {reported} exceeds the total weight {total}"

namespace Contract

/-- The weight of all voters as it is reported: a sum beyond the largest
weight is reported as the largest weight. -/
def reportedWeight (votes : List WeightedBallot) : Nat :=
  min largestWeight (votes.map (·.weight)).sum

/-- Checks votes and fees against each other and against the total weight.
Too many fees are reported first, then the first ballot of a wrong length,
then the weight. -/
def check (votes : List WeightedBallot) (fees : List Nat) (total : Nat) :
    Except ContractError Unit :=
  if ballotCapacity < fees.length then
    .error (.tooManyAttestations fees.length)
  else match votes.find? fun vote => vote.ballot.length != fees.length with
    | some vote => .error (.lengthMismatch vote.voter vote.ballot.length fees.length)
    | none =>
      if total < reportedWeight votes then
        .error (.weightExceedsTotal (reportedWeight votes) total)
      else
        .ok ()

end Contract

end BallotConsensus
