import BallotConsensus.Agreement
import BallotConsensus.Ballot.Payload

/-!
# Collecting the ballots of a round

A **collector** is opened for one voting round with the weights of the
signing policy.  It receives messages, refuses those that are not a ballot
of the round by a voter of positive weight, and holds the latest ballot of
each voter, in the order of the signing policy.

* `Collector.open?` — a collector for a signing policy;
* `Collector.receive` — one message;
* `Collector.counted` — the held ballots that cover the round's
  attestations;
* `Collector.agree` — the agreement on them.
-/

namespace BallotConsensus

/-- A ballot as a voter submits it. -/
structure Submission where
  /-- Position of the sender in the signing policy. -/
  sender : Nat
  round : Nat
  payload : String
deriving DecidableEq, Repr

/-- Why a message is refused. -/
inductive Refusal where
  | wrongRound (expected actual : Nat)
  | unknownVoter (sender : Nat)
  | payload (error : PayloadError)
  | wrongCheck (expected actual : Nat)
  | zeroWeight (voter : Nat)
deriving DecidableEq

/-- The wording for a voter without weight. -/
def zeroWeightMessage (voter : Nat) : String := s!"voter {voter} has zero weight"

/-- The wording of a refusal. -/
def Refusal.message : Refusal → String
  | .wrongRound expected actual => s!"bit vote for round {actual} submitted to round {expected}"
  | .unknownVoter sender => s!"voter {sender} is not part of the signing policy"
  | .payload error => error.message
  | .wrongCheck expected actual =>
      s!"round check {actual} does not match the expected {expected}"
  | .zeroWeight voter => zeroWeightMessage voter

/-- The wording for a signing policy whose weights are too large. -/
def totalOverflowMessage : String :=
  "total weight of the signing policy does not fit into 64 bits"

/-- The ballots collected for one voting round. -/
structure Collector where
  round : Nat
  /-- Weight of every eligible voter, by position. -/
  weights : List Nat
  /-- The latest ballot of each voter, ascending by position. -/
  held : List WeightedBallot

namespace Collector

/-- A collector without ballots.  The weights must not exceed the largest
weight in total. -/
def open? (round : Nat) (weights : List Nat) : Option Collector :=
  if weights.sum ≤ largestWeight then some { round, weights, held := [] } else none

/-- Weight of every eligible voter together, whether it voted or not. -/
def total (c : Collector) : Nat := c.weights.sum

/-- Puts a ballot in its place, over an earlier one of the same voter. -/
def place (vote : WeightedBallot) : List WeightedBallot → List WeightedBallot
  | [] => [vote]
  | other :: held =>
    if vote.voter < other.voter then vote :: other :: held
    else if vote.voter = other.voter then vote :: held
    else other :: place vote held

/-- The ballot in a message, if the round accepts it.  Whether it does
hangs on the message alone, not on what is held. -/
def examine (c : Collector) (m : Submission) : Except Refusal WeightedBallot :=
  if m.round ≠ c.round then .error (.wrongRound c.round m.round)
  else match c.weights[m.sender]? with
    | none => .error (.unknownVoter m.sender)
    | some weight =>
      match Ballot.ofPayload m.payload with
      | .error error => .error (.payload error)
      | .ok (ballot, check) =>
        if check ≠ checkByte c.round then .error (.wrongCheck (checkByte c.round) check)
        else match WeightedBallot.of? m.sender weight ballot with
          | some vote => .ok vote
          | none => .error (.zeroWeight m.sender)

/-- Receives a message.  A later ballot of a voter replaces the earlier
one. -/
def receive (c : Collector) (m : Submission) : Except Refusal Collector :=
  (c.examine m).map fun vote => { c with held := place vote c.held }

/-- Whether a held ballot covers a number of attestations. -/
def covers (attestations : Nat) (vote : WeightedBallot) : Bool :=
  vote.ballot.length == attestations

/-- The held ballots that cover exactly the round's attestations. -/
def counted (c : Collector) (attestations : Nat) : List WeightedBallot :=
  c.held.filter (covers attestations)

/-- The agreement on the counted ballots, from the seed of the round. -/
def agree (c : Collector) (fees : List Nat) (budget : Nat) : Except AgreementError Agreement :=
  Agreement.reach (c.counted fees.length) fees c.total budget (Seed.ofRound c.round)

end Collector

end BallotConsensus
