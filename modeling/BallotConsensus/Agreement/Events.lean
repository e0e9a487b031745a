import BallotConsensus.Agreement
import BallotConsensus.Log.Event

/-!
# The events of an agreement

What the nodes tell about reaching an agreement: how the round was reduced,
how each search ended, and what was agreed.

* `Agreement.events` — all of it, in order.
-/

namespace BallotConsensus

/-- How events show a worth. -/
def Worth.shown (w : Worth) : String :=
  s!"Value \x7b capped: {w.capped}, uncapped: {w.uncapped} \x7d"

/-- How events show a worth that may be missing. -/
def Worth.shownOption : Option Worth → String
  | some w => "Some(" ++ w.shown ++ ")"
  | none => "None"

/-- The event that tells how a round was reduced. -/
def Reduction.event (r : Reduction) : Log.Event where
  level := .debug
  target := "bitvotes::preprocess"
  message := "preprocessed bit votes"
  fields := [
    ("aggregated_votes", toString r.voters.length),
    ("aggregated_fees", toString r.attestations.length),
    ("guaranteed_weight", toString r.settled.weight),
    ("included", toString r.settled.included.length),
    ("excluded", toString r.settled.excluded.length),
    ("removed_ones", toString r.settled.participants.length)]

/-- How events name what a search decides. -/
def Subject.name : Subject → String
  | .attestations => "Attestations"
  | .voters => "Voters"

/-- The event that tells how a search ended. -/
def Run.event (run : Run) : Log.Event where
  level := .debug
  target := "bitvotes::search"
  message := "branch and bound finished"
  fields := [
    ("strategy", run.subject.name),
    ("operations", toString run.operations),
    ("optimal", toString run.optimal),
    ("value", Worth.shownOption (run.found.map (·.worth)))]

/-- The event that tells an outcome. -/
def Outcome.event (o : Outcome) (votes : List WeightedBallot) : Log.Event where
  level := .info
  target := "bitvotes::ensemble"
  message := "computed consensus bit vote"
  fields := [
    ("voters", toString votes.length),
    ("attestations", toString o.included.length),
    ("participants", toString (Flags.count o.participants)),
    ("included", toString (Flags.count o.included)),
    ("weight", toString (o.weight votes)),
    ("value", o.worth.shown),
    ("optimal", toString o.optimal)]

/-- The events that tell how an outcome was reached. -/
def Agreement.events : Agreement → List Log.Event
  | .nothing votes fees => [{
      level := .debug
      target := "bitvotes::ensemble"
      message := "nothing to agree on"
      fields := [("votes", toString votes), ("fees", toString fees)] }]
  | .searched votes reduction resolution outcome =>
    reduction.event :: resolution.runs.map (·.event) ++ [outcome.event votes]

end BallotConsensus
