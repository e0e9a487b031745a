import BallotConsensus.Proofs.Exploration.Nodes
import BallotConsensus.Proofs.Exploration.Optimum

/-!
# What a search finds is closed

A search carries along one half of what it decides, the coalition or the
support, with a weight and a sum of fees that change from node to node.  The
other half is in the decisions.  At a leaf both halves have to fit together: on
every path, in whatever order the groups are decided, and wherever the budget
cuts the search off.

They do, and the half that is carried along is complete.  By attestations,
whoever confirms all inclusions participates and nobody else.  By voters, whatever
all participants confirm is included and nothing else.

* `Reduction.Closed` — nothing is missing from the half that is carried along;
* `Reduction.DecidedAtLeaf` — the assignment is decided at a leaf of the tree;
* `Reduction.search_closed` — **everything that a search finds** is a closed
  assignment with a majority.
-/

namespace BallotConsensus.Reduction

variable {r : Reduction} {subject : Subject} {budget : Nat} {seed : Seed} {bound : Worth}
  {a : Assignment}

/-- **Closed assignments**, for either subject.  By attestations, exactly those
participate who confirm all inclusions; by voters, exactly that is included which
all participants confirm. -/
def Closed (r : Reduction) (a : Assignment) : Subject → Prop
  | .attestations => a.participants = r.backersOf a.included
  | .voters => a.included = r.sharedBy a.participants

/-- An assignment is decided at a leaf of the tree that a search explores. -/
def DecidedAtLeaf (r : Reduction) (seed : Seed) (a : Assignment) : Subject → Prop
  | .attestations => ∃ last, r.byAttestations.IsNode (r.entriesAt (r.drawnOrder seed))
      r.wholeCoalition [] last ∧ last.Decides r a
  | .voters => ∃ last, r.byVoters.IsNode r.voters r.wholeSupport [] last ∧ last.Decides r a

/-- What exploring finds, within the budget or not, decisions on all entries lead
to. -/
theorem runOf_follow {Entry Node : Type} {b : Branching Entry Node} {Sound : Node → Prop}
    (hb : b.Shrinking Sound) {entries : List Entry} {node : Node} {p : Progress}
    (hnode : Sound node) (hweight : b.weight node ≤ r.total) (hp : p.overweight = none)
    {read : Leaf → Assignment}
    (hfound : (runOf subject budget read
      (explore b ⟨budget, r.total⟩ entries node p)).found = some a) :
    ∃ leaf last, b.follow node entries leaf.decisions = some last ∧ a = read leaf := by
  obtain ⟨leaf, hleaf, rfl⟩ := Option.map_eq_some_iff.mp hfound
  obtain ⟨⟨last, hfollow, -⟩, -⟩ := (explore_searched hb hnode hweight hp).found leaf hleaf
  exact ⟨leaf, last, hfollow, rfl⟩

/-- **Both halves fit together.**  What a search finds is closed, and it is decided
at a leaf with the weight and the fees that were carried there. -/
theorem search_decides (hweight : r.weight ≤ r.total)
    (hfound : (r.search subject budget seed bound).found = some a) :
    r.Closed a subject ∧ r.DecidedAtLeaf seed a subject := by
  have hmajority := majority_of_found hfound
  cases subject with
  | attestations =>
      have horder := r.drawnOrder_perm seed
      rw [search_attestations hmajority] at hfound
      obtain ⟨leaf, last, hfollow, rfl⟩ :=
        runOf_follow (byAttestations_shrinking r) (by rfl) (by exact hweight) (by rfl) hfound
      obtain ⟨-, -, rfl⟩ := (follow_wholeCoalition hmajority horder).mp hfollow
      exact ⟨rfl, _, ⟨_, _, (List.append_nil _).symm, hfollow⟩, coalitionAfter_decides horder leaf⟩
  | voters =>
      rw [search_voters hmajority] at hfound
      obtain ⟨leaf, last, hfollow, rfl⟩ :=
        runOf_follow (byVoters_shrinking r) trivial (by exact hweight) (by rfl) hfound
      obtain ⟨-, -, rfl⟩ := (follow_wholeSupport hmajority).mp hfollow
      exact ⟨rfl, _, ⟨_, _, (List.append_nil _).symm, hfollow⟩, supportAfter_decides r leaf⟩

/-- **Everything that a search finds**, whatever its subject, budget, seed and
bound: flags for all groups, with a majority, worth what the flags are worth and no
less than the bound.  It is closed, and it is what the search carried to a leaf. -/
theorem search_closed {votes : List WeightedBallot} {fees : List Nat} {total : Nat}
    (hweight : (votes.map (·.weight)).sum ≤ total)
    (hfound : ((ofRound votes fees total).search subject budget seed bound).found = some a) :
    a.participants.length = (ofRound votes fees total).voters.length ∧
      a.included.length = (ofRound votes fees total).attestations.length ∧
      (ofRound votes fees total).half < (ofRound votes fees total).weightOf a.participants ∧
      a.worth = (ofRound votes fees total).worthOf a ∧
      bound ≤ a.worth ∧
      (ofRound votes fees total).Closed a subject ∧
      (ofRound votes fees total).DecidedAtLeaf seed a subject := by
  have hlight := weight_ofRound_le fees hweight
  have hanswers := search_answers hlight subject budget seed bound
  have hfits := hanswers.fits a hfound
  exact ⟨hfits.participants_length, hfits.included_length, hanswers.majority a hfound,
    hfits.worth_eq, hanswers.bound_le a hfound, search_decides hlight hfound⟩

/-- Neither search has enough budget to end, but both find something. -/
theorem search_closed_of_cycle :
    (Agreement.cycleVotes.map (·.weight)).sum ≤ 3 ∧
      (cycle.search .attestations 14 (.ofNumber 7) ⟨1, 0⟩).optimal = false ∧
      (cycle.search .voters 9 (.ofNumber 7) .zero).optimal = false ∧
      ∃ a b, (cycle.search .attestations 14 (.ofNumber 7) ⟨1, 0⟩).found = some a ∧
        (cycle.search .voters 9 (.ofNumber 7) .zero).found = some b ∧
        cycle.half < cycle.weightOf a.participants ∧ ⟨1, 0⟩ ≤ a.worth ∧
        a.participants = cycle.backersOf a.included ∧
        b.included = cycle.sharedBy b.participants := by
  have hweight : (Agreement.cycleVotes.map (·.weight)).sum ≤ 3 := by decide
  have hattestations :
      (cycle.search .attestations 14 (.ofNumber 7) ⟨1, 0⟩).found.isSome = true := by
    decide +kernel
  have hvoters : (cycle.search .voters 9 (.ofNumber 7) .zero).found.isSome = true := by
    decide +kernel
  obtain ⟨a, ha⟩ := Option.isSome_iff_exists.mp hattestations
  obtain ⟨b, hb⟩ := Option.isSome_iff_exists.mp hvoters
  obtain ⟨-, -, hmajority, -, hreaches, hclosed, -⟩ := search_closed hweight ha
  obtain ⟨-, -, -, -, -, hshared, -⟩ := search_closed hweight hb
  exact ⟨hweight, by decide +kernel, by decide +kernel, a, b, ha, hb, hmajority, hreaches,
    hclosed, hshared⟩

end BallotConsensus.Reduction
