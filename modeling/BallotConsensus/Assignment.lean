import BallotConsensus.Flags
import BallotConsensus.Reduction

/-!
# Assignments

An **assignment** decides everything that a reduction leaves open: which
voter groups participate and which attestation groups are included, one flag
each.  It also carries the worth under which it was found.

* `Reduction.worthOf` — the worth of an assignment, computed from its flags;
* `Reduction.fullTurnout` — all voters, no open attestation;
* `Assignment.saturate` — adds whatever fits;
* `Assignment.Backed` — every participant confirms every inclusion.
-/

namespace BallotConsensus

/-- Decisions on all open entries of a reduction. -/
structure Assignment where
  /-- One flag per voter group. -/
  participants : List Bool
  /-- One flag per attestation group. -/
  included : List Bool
  worth : Worth
deriving DecidableEq, Repr

namespace Reduction

/-- Weight of the flagged voter groups and of the voters that participate in
any case. -/
def weightOf (r : Reduction) (participants : List Bool) : Nat :=
  r.settled.weight
    + (((r.voters.zip participants).filter (·.2)).map (·.1.weight)).sum

/-- Fees of the flagged attestation groups and of the attestations that are
included in any case. -/
def feesOf (r : Reduction) (included : List Bool) : Nat :=
  r.settled.fees
    + (((r.attestations.zip included).filter (·.2)).map (·.1.fee)).sum

/-- The worth of an assignment, computed from its flags alone. -/
def worthOf (r : Reduction) (a : Assignment) : Worth :=
  r.worth (r.feesOf a.included) (r.weightOf a.participants)

/-- Whether every flagged voter group confirms an attestation group. -/
def confirmedByAll (r : Reduction) (participants : List Bool) (attestations : Nat) : Bool :=
  (r.voters.zip participants).all fun (voters, participates) =>
    !participates || voters.confirms attestations

/-- Whether a voter group confirms every flagged attestation group. -/
def confirmsAll (included : List Bool) (voters : VoterGroup) : Bool :=
  included.zipIdx.all fun (isIncluded, attestations) =>
    !isIncluded || voters.confirms attestations

/-- All voters participate, no open attestation is included. -/
def fullTurnout (r : Reduction) : Assignment where
  participants := r.voters.map fun _ => true
  included := r.attestations.map fun _ => false
  worth := r.worth r.settled.fees r.weight

end Reduction

namespace Assignment

/-- Every participant confirms every inclusion. -/
def Backed (a : Assignment) (r : Reduction) : Prop :=
  ∀ j, a.included[j]? = some true → r.confirmedByAll a.participants j = true

/-- Adds whatever fits: first every attestation group that all participants
confirm, then every voter group that confirms all inclusions.  Nothing is
taken away, so the worth does not sink. -/
def saturate (a : Assignment) (r : Reduction) : Assignment :=
  let included := a.included.zipIdx.map fun (isIncluded, j) =>
    isIncluded || r.confirmedByAll a.participants j
  let participants := (a.participants.zip r.voters).map fun (participates, voters) =>
    participates || Reduction.confirmsAll included voters
  let extended := { a with participants, included }
  { extended with worth := r.worthOf extended }

/-- Replaces both flag lists, cut or filled up with unset flags to the sizes
of the reduction.  The worth stays as it was. -/
def withFlags (a : Assignment) (r : Reduction) (participants included : List Bool) :
    Assignment :=
  let fit (count : Nat) (flags : List Bool) :=
    flags.take count ++ List.replicate (count - flags.length) false
  { a with
    participants := fit r.voters.length participants
    included := fit r.attestations.length included }

end Assignment

end BallotConsensus
