import BallotConsensus.Ballot
import BallotConsensus.Reduction

/-!
# Settling what needs no search

Some decisions follow from the votes at once.  One **pass** over the open
voters and attestations

1. excludes the attestations whose supporters weigh no more than half of the
   total weight;
2. lets the voters that confirm all remaining attestations participate;
3. includes the attestations that all remaining voters confirm.

Each of these can make room for another, so passes are repeated for as long
as they decide something.

A voter that confirms none of the remaining attestations stays open: it
confirms whatever is included, so it still backs the agreement on that
alone, and it keeps step 3 from including what it does not confirm.

* `Standing.pass` — one pass;
* `Standing.settle` — all of them.
-/

namespace BallotConsensus

/-- A voter of the round, with its position among the votes. -/
structure Voter where
  vote : WeightedBallot
  position : Nat

/-- An attestation of the round, with its fee. -/
structure Attestation where
  fee : Nat
  position : Nat

/-- Whether a voter confirms an attestation. -/
def Voter.confirms (voter : Voter) (attestation : Attestation) : Bool :=
  voter.vote.confirms attestation.position

/-- The open voters and attestations, and the decisions taken so far. -/
structure Standing where
  voters : List Voter
  attestations : List Attestation
  settled : Settled

namespace Standing

/-- Everything is open at first. -/
def start (votes : List WeightedBallot) (fees : List Nat) : Standing where
  voters := votes.zipIdx.map fun (vote, position) => { vote, position }
  attestations := fees.zipIdx.map fun (fee, position) => { fee, position }
  settled := .nothing

/-- Weight of the voters that could back an attestation: those that
participate in any case and the open ones that confirm it. -/
def support (s : Standing) (attestation : Attestation) : Nat :=
  s.settled.weight
    + ((s.voters.filter (·.confirms attestation)).map (·.vote.weight)).sum

/-- One pass over everything that is open. -/
def pass (s : Standing) (half : Nat) : Standing :=
  let (kept, excluded) := s.attestations.partition fun a => decide (half < s.support a)
  let (certain, voters) := s.voters.partition fun v => kept.all v.confirms
  let (included, attestations) := kept.partition fun a => voters.all (·.confirms a)
  { voters, attestations
    settled := {
      weight := s.settled.weight + (certain.map (·.vote.weight)).sum
      fees := s.settled.fees + (included.map (·.fee)).sum
      participants := s.settled.participants ++ certain.map (·.position)
      included := s.settled.included ++ included.map (·.position)
      excluded := s.settled.excluded ++ excluded.map (·.position) } }

/-- The number of open voters and attestations. -/
def openCount (s : Standing) : Nat := s.voters.length + s.attestations.length

/-- Repeats passes until one of them decides nothing. -/
def settle (s : Standing) (half : Nat) : Standing :=
  let next := s.pass half
  if next.openCount < s.openCount then next.settle half else s
termination_by s.openCount

end Standing

end BallotConsensus
