import BallotConsensus.Assignment
import BallotConsensus.Exploration
import BallotConsensus.Random.Shuffle

/-!
# The two ways to search a reduction

A reduction can be searched by deciding its attestation groups or by
deciding its voter groups.

*By attestations*, a node carries the coalition of voter groups that confirm
everything included so far.  Leaving out a group lowers the fees, including
it shrinks the coalition.  The groups are decided in a drawn order.

*By voters*, a node carries the attestation groups that all participants so
far confirm.  Leaving out a group lowers the weight, letting it participate
drops what it does not confirm.  The groups are decided in their own order.

* `byAttestations`, `byVoters` — the two branchings;
* `Subject.fewerFirst` — the one with fewer entries goes first;
* `Reduction.search` — a whole search, from a seed, with a bound and a
  budget.
-/

namespace BallotConsensus

/-- What a search decides. -/
inductive Subject where
  | attestations
  | voters
deriving DecidableEq, Repr

/-- A partial choice of attestations. -/
structure Coalition where
  /-- The voter groups that confirm all inclusions. -/
  voters : List VoterGroup
  /-- Their weight, with what is settled. -/
  weight : Nat
  /-- The fees of everything not left out, with what is settled. -/
  fees : Nat

/-- A partial choice of voters. -/
structure Support where
  /-- The attestation groups that all participants confirm, with their
  positions. -/
  attestations : List (AttestationGroup × Nat)
  /-- The weight of everybody not left out, with what is settled. -/
  weight : Nat
  /-- The fees of the confirmed groups, with what is settled. -/
  fees : Nat

namespace Reduction

/-- Deciding attestation groups, each given with its position. -/
def byAttestations (r : Reduction) : Branching (AttestationGroup × Nat) Coalition where
  fees := (·.fees)
  weight := (·.weight)
  charge coalition := coalition.voters.length
  decide coalition entry included :=
    if included then
      let voters := coalition.voters.filter (·.confirms entry.2)
      let weight := r.settled.weight + (voters.map (·.weight)).sum
      if weight ≤ r.half then none else some { coalition with voters, weight }
    else
      some { coalition with fees := coalition.fees - entry.1.fee }

/-- Deciding voter groups. -/
def byVoters (r : Reduction) : Branching VoterGroup Support where
  fees := (·.fees)
  weight := (·.weight)
  charge support := support.attestations.length
  decide support voters participates :=
    if participates then
      let (kept, dropped) := support.attestations.partition fun entry => voters.confirms entry.2
      some { support with
        attestations := kept
        fees := support.fees - (dropped.map (·.1.fee)).sum }
    else
      let weight := support.weight - voters.weight
      if weight ≤ r.half then none else some { support with weight }

/-- Nothing is left out yet. -/
def wholeCoalition (r : Reduction) : Coalition where
  voters := r.voters
  weight := r.weight
  fees := r.fees

/-- Nobody is left out yet. -/
def wholeSupport (r : Reduction) : Support where
  attestations := r.attestations.zipIdx
  weight := r.weight
  fees := r.fees

/-- The listed attestation groups, each with its position. -/
def entriesAt (r : Reduction) (order : List Nat) : List (AttestationGroup × Nat) :=
  let entries := r.attestations.zipIdx.toArray
  order.filterMap (entries[·]?)

/-- The assignment that decisions on the attestation groups stand for: it
includes the groups decided for, and all voters that confirm them
participate. -/
def assignmentOfInclusions (r : Reduction) (order : List Nat) (leaf : Leaf) : Assignment :=
  let chosen := (order.zip leaf.decisions).filterMap fun (position, taken) =>
    if taken then some position else none
  let included := Flags.ofPositions r.attestations.length chosen
  { participants := r.voters.map (Reduction.confirmsAll included)
    included
    worth := leaf.worth }

/-- The assignment that decisions on the voter groups stand for: the groups
decided for participate, and everything that they all confirm is
included. -/
def assignmentOfParticipants (r : Reduction) (leaf : Leaf) : Assignment where
  participants := leaf.decisions
  included := r.attestations.zipIdx.map fun (_, j) => r.confirmedByAll leaf.decisions j
  worth := leaf.worth

end Reduction

/-- The result of one search. -/
structure Run where
  subject : Subject
  /-- The best assignment found.  There is none if nothing reached the bound
  or if no coalition has a majority. -/
  found : Option Assignment
  operations : Nat
  /-- Whether everything was searched within the budget. -/
  optimal : Bool
  /-- Weight of a coalition that was found to outweigh everybody
  together. -/
  overweight : Option Nat

/-- Both subjects, the one with fewer entries to decide first. -/
def Subject.fewerFirst (r : Reduction) : Subject × Subject :=
  if r.voters.length < r.attestations.length then (voters, attestations)
  else (attestations, voters)

namespace Reduction

/-- Searches for the best assignment that is worth at least `bound`,
spending at most `budget` operations.  Without a majority there is nothing
to search. -/
def search (r : Reduction) (subject : Subject) (budget : Nat) (seed : Seed) (bound : Worth) :
    Run :=
  let scope : Scope := ⟨budget, r.total⟩
  let start : Progress := ⟨bound, 0, Draws.ofSeed seed, none⟩
  let finish (found : Option Assignment) (p : Progress) : Run :=
    ⟨subject, found, p.operations, decide (p.operations < budget), p.overweight⟩
  if r.weight ≤ r.half then finish none start
  else match subject with
    | .attestations =>
      let (draws, rest) := start.draws.take r.attestations.length
      let order := Shuffle.ofDraws (draws.map (·.toNat))
      let (leaf, p) := explore r.byAttestations scope (r.entriesAt order) r.wholeCoalition
        { start with draws := rest }
      finish (leaf.map (r.assignmentOfInclusions order)) p
    | .voters =>
      let (leaf, p) := explore r.byVoters scope r.voters r.wholeSupport start
      finish (leaf.map r.assignmentOfParticipants) p

end Reduction

end BallotConsensus
