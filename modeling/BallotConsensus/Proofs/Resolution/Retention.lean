import BallotConsensus.Proofs.Exploration.Evaluations
import BallotConsensus.Proofs.Exploration.Optimum

/-!
# Resolutions forget nothing

Between the evaluation of a leaf and the end of a resolution there is much that
could lose it: the leaf may be given up for another one when the search comes
back from it, the second search starts from what the first one found and may find
nothing, the full turnout stands in where nothing is found, and what is not
optimal is completed.  None of this ends with less worth than that leaf had.

A search carries the greatest worth it has seen as its bound, and what it finds
is worth that bound; the better of both results is worth no less than either; and
adding whatever fits never takes away worth.

To an optimal resolution nothing is added.  It would not gain by it either:
completed, it would be a fitting assignment with a majority, and none is worth
more.  Without a majority nothing is worth anything.

* `Reduction.evaluations` — the leaves that a whole search evaluates, and
  `Reduction.search_retains`: none of them is forgotten;
* `Reduction.searches` — the searches of a resolution, each with the bound that
  it starts from;
* `Reduction.resolution_retains` — **resolutions forget nothing.**
-/

namespace BallotConsensus.Reduction

variable {r : Reduction} {subject : Subject} {budget : Nat} {seed : Seed} {bound : Worth}

/-! ## One search -/

/-- The leaves that a search of a reduction evaluates; without a majority it
evaluates none. -/
def evaluations (r : Reduction) (subject : Subject) (budget : Nat) (seed : Seed)
    (bound : Worth) : List Evaluation :=
  if r.weight ≤ r.half then []
  else match subject with
    | .attestations =>
      BallotConsensus.evaluations r.byAttestations ⟨budget, r.total⟩
        (r.entriesAt (r.drawnOrder seed)) r.wholeCoalition
        ⟨bound, 0, ((Draws.ofSeed seed).take r.attestations.length).2, none⟩
    | .voters =>
      BallotConsensus.evaluations r.byVoters ⟨budget, r.total⟩ r.voters r.wholeSupport
        ⟨bound, 0, .ofSeed seed, none⟩

theorem evaluations_no_majority (h : r.weight ≤ r.half) :
    r.evaluations subject budget seed bound = [] := if_pos h

theorem evaluations_voters (h : r.half < r.weight) :
    r.evaluations .voters budget seed bound =
      BallotConsensus.evaluations r.byVoters ⟨budget, r.total⟩ r.voters r.wholeSupport
        ⟨bound, 0, .ofSeed seed, none⟩ := if_neg (Nat.not_le.mpr h)

theorem evaluations_attestations (h : r.half < r.weight) :
    r.evaluations .attestations budget seed bound =
      BallotConsensus.evaluations r.byAttestations ⟨budget, r.total⟩
        (r.entriesAt (r.drawnOrder seed)) r.wholeCoalition
        ⟨bound, 0, ((Draws.ofSeed seed).take r.attestations.length).2, none⟩ :=
  if_neg (Nat.not_le.mpr h)

/-- **A run that forgets nothing**, next to the bound that it starts from and the
leaves that it evaluates. -/
structure Retains (bound : Worth) (log : List Evaluation) (run : Run) : Prop where
  /-- No leaf is worth more than what is found and than the bound. -/
  worth_le : ∀ e ∈ log, e.worth ≤ max bound (foundWorth run.found)
  /-- What is found is worth one of the leaves. -/
  exists_worth_eq : ∀ a, run.found = some a → ∃ e ∈ log, e.worth = a.worth

/-- An exploration carries the greatest worth it has seen as its bound, and what it
finds is worth that bound. -/
theorem runOf_retains {Entry Node : Type} {b : Branching Entry Node} {Sound : Node → Prop}
    (hb : b.Shrinking Sound) {entries : List Entry} {node : Node} {p : Progress}
    (hnode : Sound node) (hweight : b.weight node ≤ r.total) (hp : p.overweight = none)
    {read : Leaf → Assignment} (hread : ∀ leaf, (read leaf).worth = leaf.worth) :
    Retains p.bound (BallotConsensus.evaluations b ⟨budget, r.total⟩ entries node p)
      (runOf subject budget read (explore b ⟨budget, r.total⟩ entries node p)) := by
  have hrecorded : Recorded p (explore b ⟨budget, r.total⟩ entries node p)
      (BallotConsensus.evaluations b ⟨budget, r.total⟩ entries node p) :=
    explore_recorded hb hnode hweight
  have hsearched : Searched ⟨budget, r.total⟩ (b.IsLeaf ⟨budget, r.total⟩ entries node) p
      (explore b ⟨budget, r.total⟩ entries node p) :=
    explore_searched hb hnode hweight hp
  generalize explore b ⟨budget, r.total⟩ entries node p = result at *
  have hworth : ∀ leaf, result.1 = some leaf → (read leaf).worth = result.2.bound :=
    fun leaf hleaf => (hread leaf).trans (hsearched.found leaf hleaf).2
  constructor
  · intro e he
    refine le_trans (hrecorded.worth_le e he) ?_
    cases hfound : result.1 with
    | none => exact le_max_of_le_left (le_of_eq (hsearched.missed hfound))
    | some leaf =>
        rw [runOf, hfound, ← hworth leaf hfound]
        exact le_max_right _ _
  · intro a ha
    obtain ⟨leaf, hleaf, rfl⟩ := Option.map_eq_some_iff.mp ha
    rw [hworth leaf hleaf]
    exact hrecorded.exists_worth_eq (by rw [hleaf]; rfl)

/-- **No search forgets a leaf.** -/
theorem search_retains (hweight : r.weight ≤ r.total) (subject : Subject) (budget : Nat)
    (seed : Seed) (bound : Worth) :
    Retains bound (r.evaluations subject budget seed bound)
      (r.search subject budget seed bound) := by
  by_cases hmajority : r.half < r.weight
  · cases subject with
    | voters =>
        rw [evaluations_voters hmajority, search_voters hmajority]
        exact runOf_retains (byVoters_shrinking r) (p := ⟨bound, 0, .ofSeed seed, none⟩) trivial
          (by exact hweight) rfl fun _ => rfl
    | attestations =>
        rw [evaluations_attestations hmajority, search_attestations hmajority]
        exact runOf_retains (byAttestations_shrinking r)
          (p := ⟨bound, 0, ((Draws.ofSeed seed).take r.attestations.length).2, none⟩) (by rfl)
          (by exact hweight) rfl fun _ => rfl
  · have hminority := Nat.not_lt.mp hmajority
    rw [evaluations_no_majority hminority, search_no_majority hminority]
    exact ⟨by simp, by simp⟩

/-! ## One or two searches -/

/-- The searches of a resolution in order, each with the bound that it starts
from: the second one, if it takes place, starts from what the first one found. -/
def searches (r : Reduction) (budget : Nat) (seed : Seed) : List (Subject × Worth) :=
  if (r.leading budget seed).optimal then [((Subject.fewerFirst r).1, .zero)]
  else [((Subject.fewerFirst r).1, .zero),
    ((Subject.fewerFirst r).2, foundWorth (r.leading budget seed).found)]

theorem runs_eq_searches (r : Reduction) (budget : Nat) (seed : Seed) :
    (r.resolution budget seed).runs =
      (r.searches budget seed).map fun s => r.search s.1 budget seed s.2 := by
  rw [resolution_eq, searches]
  by_cases h : (r.leading budget seed).optimal = true
  · simp only [Resolution.runs, if_pos h]
    rfl
  · simp only [Resolution.runs, if_neg h]
    rfl

/-- Both what a search starts from and what it finds are among what all searches
find. -/
theorem foundWorth_searched_ge (r : Reduction) (budget : Nat) (seed : Seed)
    {s : Subject × Worth} (hs : s ∈ r.searches budget seed) :
    max s.2 (foundWorth (r.search s.1 budget seed s.2).found) ≤
      foundWorth (r.searched budget seed).found := by
  have hleading : max .zero (foundWorth (r.leading budget seed).found) ≤
      foundWorth (r.searched budget seed).found :=
    max_le (Worth.zero_le _) (foundWorth_leading_le r budget seed)
  rw [searches] at hs
  split at hs
  · obtain rfl := List.mem_singleton.mp hs
    exact hleading
  · next hopen =>
    rcases List.mem_cons.mp hs with rfl | hs
    · exact hleading
    · obtain rfl := List.mem_singleton.mp hs
      rw [searched, if_neg hopen]
      dsimp only
      rw [foundWorth_improve]
      exact le_refl _

/-! ## The resolution -/

variable {votes : List WeightedBallot} {fees : List Nat} {total : Nat} {a : Assignment}

/-- Without a majority nothing is worth anything. -/
theorem Represents.worthOf_eq_zero (h : r.Represents votes fees) (hminority : r.weight ≤ r.half)
    (a : Assignment) : r.worthOf a = .zero := by
  have hfees : r.feesOf a.included = 0 := by
    rw [← h.sum_inclusionsOf, h.inclusionsOf_eq_nil hminority]
    rfl
  rw [worthOf, worth, hfees, Worth.of_no_fees]

/-- Completing an optimal resolution would gain nothing. -/
theorem Represents.worth_saturate_resolution (h : r.Represents votes fees)
    (hweight : r.weight ≤ r.total) (hoptimal : (r.resolution budget seed).optimal = true) :
    ((r.resolution budget seed).assignment.saturate r).worth =
      (r.resolution budget seed).assignment.worth := by
  have hfits := resolution_fits hweight budget seed
  by_cases hmajority : r.half < r.weight
  · have hhalf := Nat.lt_of_lt_of_le (resolution_majority hweight hmajority budget seed)
      (Assignment.weightOf_le_saturate _ r)
    exact le_antisymm (resolution_covers hweight hoptimal hfits.saturate hhalf)
      hfits.worth_le_saturate
  · have hminority := Nat.not_lt.mp hmajority
    rw [hfits.worth_eq, hfits.saturate.worth_eq, h.worthOf_eq_zero hminority,
      h.worthOf_eq_zero hminority]

/-- **Resolutions forget nothing.**  A resolution consists of one search or two,
the second of which starts from the worth that the first one found.  Whatever
these evaluate and whatever they find, the resolution ends with an assignment
that is worth no less; and what they find is worth a leaf that they evaluate.  If
the resolution is called optimal, adding whatever fits would not change its
worth. -/
theorem resolution_retains (fees : List Nat) (hweight : (votes.map (·.weight)).sum ≤ total)
    (budget : Nat) (seed : Seed) :
    ((ofRound votes fees total).resolution budget seed).runs =
        ((ofRound votes fees total).searches budget seed).map
          (fun s => (ofRound votes fees total).search s.1 budget seed s.2) ∧
      (∀ s ∈ (ofRound votes fees total).searches budget seed,
        (∀ e ∈ (ofRound votes fees total).evaluations s.1 budget seed s.2,
          e.worth ≤ ((ofRound votes fees total).resolution budget seed).assignment.worth) ∧
        foundWorth ((ofRound votes fees total).search s.1 budget seed s.2).found ≤
          ((ofRound votes fees total).resolution budget seed).assignment.worth ∧
        ∀ a, ((ofRound votes fees total).search s.1 budget seed s.2).found = some a →
          ∃ e ∈ (ofRound votes fees total).evaluations s.1 budget seed s.2,
            e.worth = a.worth) ∧
      (((ofRound votes fees total).resolution budget seed).optimal = true →
        (((ofRound votes fees total).resolution budget seed).assignment.saturate
            (ofRound votes fees total)).worth =
          ((ofRound votes fees total).resolution budget seed).assignment.worth) := by
  have hlight := weight_ofRound_le fees hweight
  refine ⟨runs_eq_searches _ budget seed, fun s hs => ?_,
    (ofRound_represents votes fees total).worth_saturate_resolution hlight⟩
  have hkept := le_trans (foundWorth_searched_ge _ budget seed hs)
    (foundWorth_le_resolution hlight budget seed)
  have hretains := search_retains hlight s.1 budget seed s.2
  refine ⟨fun e he => ?_, le_trans (le_max_right _ _) hkept, hretains.exists_worth_eq⟩
  exact le_trans (hretains.worth_le e he) hkept

/-- With a budget of fourteen, the search by attestations evaluates three leaves,
and the search by voters one more; with a budget of a hundred, there is only the
first search. -/
theorem resolution_retains_of_cycle :
    (Agreement.cycleVotes.map (·.weight)).sum ≤ 3 ∧
      cycle.searches 14 (.ofNumber 7) = [(.attestations, .zero), (.voters, ⟨2, 2⟩)] ∧
      (cycle.evaluations .attestations 14 (.ofNumber 7) .zero).map (·.worth) =
        [⟨2, 2⟩, ⟨2, 2⟩, ⟨0, 0⟩] ∧
      cycle.evaluations .voters 14 (.ofNumber 7) ⟨2, 2⟩ = [⟨⟨2, 2⟩, ⟨2, 2⟩⟩] ∧
      ⟨2, 2⟩ ≤ (cycle.resolution 14 (.ofNumber 7)).assignment.worth ∧
      (cycle.resolution 100 (.ofNumber 7)).optimal = true ∧
      ((cycle.resolution 100 (.ofNumber 7)).assignment.saturate cycle).worth =
        (cycle.resolution 100 (.ofNumber 7)).assignment.worth := by
  have hweight : (Agreement.cycleVotes.map (·.weight)).sum ≤ 3 := by decide
  have hsearches : cycle.searches 14 (.ofNumber 7) =
      [(.attestations, .zero), (.voters, ⟨2, 2⟩)] := by decide +kernel
  have hfirst : (cycle.evaluations .attestations 14 (.ofNumber 7) .zero).map (·.worth) =
      [⟨2, 2⟩, ⟨2, 2⟩, ⟨0, 0⟩] := by decide +kernel
  have hsecond : cycle.evaluations .voters 14 (.ofNumber 7) ⟨2, 2⟩ =
      [⟨⟨2, 2⟩, ⟨2, 2⟩⟩] := by decide +kernel
  have hoptimal : (cycle.resolution 100 (.ofNumber 7)).optimal = true := by decide +kernel
  obtain ⟨-, hretained, -⟩ := resolution_retains [1, 1, 1] hweight 14 (.ofNumber 7)
  obtain ⟨-, -, hcompleted⟩ := resolution_retains [1, 1, 1] hweight 100 (.ofNumber 7)
  have hmem : (Subject.voters, (⟨2, 2⟩ : Worth)) ∈ cycle.searches 14 (.ofNumber 7) := by
    rw [hsearches]
    exact List.mem_cons_of_mem _ List.mem_cons_self
  have hleaf : (⟨⟨2, 2⟩, ⟨2, 2⟩⟩ : Evaluation) ∈
      cycle.evaluations .voters 14 (.ofNumber 7) ⟨2, 2⟩ := by
    rw [hsecond]
    exact List.mem_cons_self
  exact ⟨hweight, hsearches, hfirst, hsecond, (hretained _ hmem).1 _ hleaf, hoptimal,
    hcompleted hoptimal⟩

end BallotConsensus.Reduction
