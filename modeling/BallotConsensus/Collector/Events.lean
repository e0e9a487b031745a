import BallotConsensus.Agreement.Events
import BallotConsensus.Collector

/-!
# The events of a collector

What a collector tells: that a ballot replaces an earlier one, which held
ballots are not counted, and how the agreement on the others was reached.

* `Collector.receiveEvents` — on receiving a message;
* `Collector.agreeEvents` — on agreeing.
-/

namespace BallotConsensus.Collector

/-- Whether a ballot of a voter is held. -/
def holds (c : Collector) (voter : Nat) : Bool := c.held.any (·.voter == voter)

/-- The event that tells that a message replaces an earlier ballot. -/
def receiveEvents (c : Collector) (m : Submission) : List Log.Event :=
  match c.examine m with
  | .ok vote =>
    if c.holds vote.voter then [{
      level := .debug
      target := "bitvotes::round"
      message := "replaced bit vote"
      fields := [("round", toString c.round), ("voter", toString vote.voter)] }]
    else []
  | .error _ => []

/-- The events that tell which ballots are left out. -/
def countingEvents (c : Collector) (attestations : Nat) : List Log.Event :=
  (c.held.filter fun vote => !covers attestations vote).map fun vote => {
    level := .warn
    target := "bitvotes::round"
    message := "ignoring bit vote of wrong length"
    fields := [
      ("round", toString c.round),
      ("voter", toString vote.voter),
      ("length", toString vote.ballot.length),
      ("expected", toString attestations)] }

/-- The events that tell of the counting and of the agreement. -/
def agreeEvents (c : Collector) (fees : List Nat) (result : Except AgreementError Agreement) :
    List Log.Event :=
  c.countingEvents fees.length ++
    match result with
    | .ok agreement => agreement.events
    | .error _ => []

end BallotConsensus.Collector
