import BallotConsensus.Collector.Events
import BallotConsensus.Json

/-!
# Reports: what a node publishes for a round

A **round description** holds everything that a round is decided from: its
number, the weights of the signing policy, the fees of the attestations and
the messages in the order of their arrival.  The **report** is what a node
would sign and publish for it.

* `Report.ofRound` — the report of a described round, with its events;
* `Report.toJson` — the report as it is printed.
-/

namespace BallotConsensus

/-- Everything that a round is decided from. -/
structure RoundDescription where
  round : Nat
  /-- Weight of every voter of the signing policy, by position. -/
  weights : List Nat
  /-- Fee of every attestation. -/
  fees : List Nat
  /-- The messages, in the order of their arrival. -/
  messages : List Submission
deriving DecidableEq

/-- What a node would sign and publish for a round. -/
structure Report where
  round : Nat
  /-- The payload of the agreed ballot. -/
  payload : String
  /-- Positions of the participating voters in the signing policy. -/
  voters : List Nat
  /-- Number of messages that were refused. -/
  refused : Nat
  outcome : Outcome
deriving DecidableEq

/-- Why a round has no report. -/
inductive ReportError where
  /-- The weights of the signing policy are too large in total. -/
  | signingPolicy
  /-- The collected ballots allow no agreement. -/
  | agreement (error : AgreementError)
  /-- The outcome does not fit into a ballot. -/
  | ballot (error : BallotError)
deriving DecidableEq

/-- The wording of a report error. -/
def ReportError.message : ReportError → String
  | .signingPolicy => "invalid signing policy: " ++ totalOverflowMessage
  | .agreement error => "invalid round: " ++ error.message
  | .ballot error => error.message

/-- A collector that counts the messages it refused. -/
structure Reception where
  collector : Collector
  refused : Nat
  /-- The events so far, the latest first. -/
  events : List Log.Event

namespace Reception

/-- The event that tells of a refused message. -/
def refusalEvent (m : Submission) (refusal : Refusal) : Log.Event where
  level := .warn
  target := "bitvote_consensus::run"
  message := "rejected bit vote"
  fields := [("err", refusal.message), ("from", toString m.sender)]

/-- Receives the next message or counts it as refused. -/
def next (r : Reception) (m : Submission) : Reception :=
  match r.collector.receive m with
  | .ok collector =>
    { r with collector, events := (r.collector.receiveEvents m).reverse ++ r.events }
  | .error refusal =>
    { r with refused := r.refused + 1, events := refusalEvent m refusal :: r.events }

/-- Receives all messages of a round. -/
def ofMessages (collector : Collector) (messages : List Submission) : Reception :=
  messages.foldl next { collector, refused := 0, events := [] }

end Reception

namespace Report

/-- The report on an agreement over the counted ballots. -/
def ofAgreement (r : Reception) (counted : List WeightedBallot) (agreement : Agreement) :
    Except ReportError Report :=
  let outcome := agreement.outcome
  match outcome.ballot with
  | .error error => .error (.ballot error)
  | .ok ballot => .ok {
      round := r.collector.round
      payload := ballot.payload r.collector.round
      voters := outcome.voters counted
      refused := r.refused
      outcome }

/-- **The report of a round** and the events on the way to it. -/
def ofRound (d : RoundDescription) (budget : Nat) :
    Except ReportError Report × List Log.Event :=
  match Collector.open? d.round d.weights with
  | none => (.error .signingPolicy, [])
  | some collector =>
    let r := Reception.ofMessages collector d.messages
    let result := r.collector.agree d.fees budget
    let events := r.events.reverse ++ r.collector.agreeEvents d.fees result
    match result with
    | .error error => (.error (.agreement error), events)
    | .ok agreement =>
      (ofAgreement r (r.collector.counted d.fees.length) agreement, events)

/-- The report as it is printed.  Worths are written as strings, since they
can exceed what readers of JSON take for a number. -/
def toJson (report : Report) : Json :=
  .record [
    ("roundId", .ofNat report.round),
    ("bitVote", .ofString report.payload),
    ("participatingVoters", .array (report.voters.map .ofNat)),
    ("rejected", .ofNat report.refused),
    ("consensus", .record [
      ("participants", .array (report.outcome.participants.map .bool)),
      ("solution", .array (report.outcome.included.map .bool)),
      ("value", .record [
        ("capped", .ofString (toString report.outcome.worth.capped)),
        ("uncapped", .ofString (toString report.outcome.worth.uncapped))]),
      ("optimal", .bool report.outcome.optimal)])]

end Report

end BallotConsensus
