import BallotConsensus.Flags
import BallotConsensus.Reduction.Settling

/-!
# Grouping what is indistinguishable

Voters that confirm the same open attestations can only participate
together, and attestations that are confirmed by the same voters can only be
included together.  So each such group becomes one entry with the summed
weight or the summed fees.

* `groupsBy` — the groups of a list under a key, in order of their first
  members;
* `Standing.reduce` — the reduction of what is open;
* `Reduction.ofRound` — the reduction of a whole round.
-/

namespace BallotConsensus

/-- The members of a list grouped by a key.  Groups come in the order of
their first members, members in the order of the list. -/
def groupsBy {α κ : Type} [BEq κ] (key : α → κ) (members : List α) : List (κ × List α) :=
  let keyed := members.map fun member => (key member, member)
  (keyed.map (·.1)).eraseDups.map fun k =>
    (k, keyed.filterMap fun (k', member) => if k' == k then some member else none)

namespace Standing

/-- The open voters grouped by their votes on the open attestations: binary
digit `k` of a key stands for the open attestation number `k`. -/
def voterGroups (s : Standing) : List (Nat × List Voter) :=
  groupsBy (fun voter => Flags.toBits (s.attestations.map voter.confirms)) s.voters

/-- The open attestations grouped by their support: binary digit `i` of a
key stands for voter group `i`. -/
def attestationGroups (s : Standing) : List (Nat × List Attestation) :=
  let votes := s.voterGroups.map (·.1)
  (groupsBy (fun (_, k) => Flags.toBits (votes.map (·.testBit k))) s.attestations.zipIdx).map
    fun (support, members) => (support, members.map (·.1))

/-- What is left to search: the open groups beside the decisions taken. -/
def reduce (s : Standing) (total : Nat) : Reduction :=
  let attestations := s.attestationGroups
  { voters := s.voterGroups.zipIdx.map fun ((_, members), i) => {
      members := members.map (·.position)
      weight := (members.map (·.vote.weight)).sum
      confirmed := Flags.toBits (attestations.map (·.1.testBit i)) }
    attestations := attestations.map fun (support, members) => {
      members := members.map (·.position)
      fee := (members.map (·.fee)).sum
      support }
    settled := s.settled
    total }

end Standing

namespace Reduction

/-- The reduction of a round: what is settled and what has to be
searched. -/
def ofRound (votes : List WeightedBallot) (fees : List Nat) (total : Nat) : Reduction :=
  ((Standing.start votes fees).settle (total / 2)).reduce total

end Reduction

end BallotConsensus
