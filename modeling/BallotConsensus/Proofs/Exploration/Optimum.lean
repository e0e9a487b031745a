import Mathlib.Order.Bounds.Basic
import BallotConsensus.Proofs.Agreement
import BallotConsensus.Proofs.Exploration.Ties

/-!
# What an optimal search finds

A search that is called optimal has answered two questions for good.  **How
much?**  It finds what is worth the most among all fitting assignments with a
majority, or nothing if even that is below the bound it starts from; so the
two ways to search a reduction agree.  **Which one?**  Of everything that is
worth the most it finds the first: by voters, the first participants in the
order of the groups, and by attestations, the first inclusions in the drawn
order.  Neither coins nor budgets nor bounds have a say in it.

* `Reduction.achievable` — the worths of all fitting assignments with a
  majority, and `Reduction.Answers.found_iff`: an optimal run finds the
  greatest of them;
* `Reduction.bestParticipants`, `Reduction.bestInclusions` — what is worth the
  most, said of participants alone and of inclusions alone;
* `Reduction.search_exact` — **how much** an optimal search finds;
* `Reduction.search_first` — **which one** it finds.
-/

namespace BallotConsensus

open Flags

namespace Reduction

variable {r : Reduction} {subject : Subject} {budget : Nat} {seed : Seed} {bound : Worth}
  {run : Run} {a : Assignment}

/-! ## How much an optimal search finds -/

/-- The worths of all fitting assignments with a majority. -/
def achievable (r : Reduction) : Set Worth :=
  {worth | ∃ a : Assignment, a.Fits r ∧ r.half < r.weightOf a.participants ∧ r.worthOf a = worth}

/-- Nothing achievable exceeds what an optimal run finds. -/
theorem Answers.isGreatest (h : r.Answers bound run) (hoptimal : run.optimal = true)
    (hfound : run.found = some a) : IsGreatest r.achievable a.worth := by
  have hfits := h.fits a hfound
  refine ⟨⟨a, hfits, h.majority a hfound, hfits.worth_eq.symm⟩, ?_⟩
  intro worth hworth
  obtain ⟨b, hb, hhalf, rfl⟩ := hworth
  rw [← hb.worth_eq]
  rcases h.covers hoptimal b hb hhalf with hlow | ⟨best, hbest, hle⟩
  · exact le_of_lt (lt_of_lt_of_le hlow (h.bound_le a hfound))
  · obtain rfl := Option.some.inj (hfound.symm.trans hbest)
    exact hle

/-- **How much an optimal run finds**: the greatest of all achievable worths,
if that reaches the bound. -/
theorem Answers.found_iff (h : r.Answers bound run) (hoptimal : run.optimal = true)
    (worth : Worth) : (∃ a, run.found = some a ∧ a.worth = worth) ↔
      IsGreatest r.achievable worth ∧ bound ≤ worth := by
  constructor
  · intro hany
    obtain ⟨a, hfound, rfl⟩ := hany
    exact ⟨h.isGreatest hoptimal hfound, h.bound_le a hfound⟩
  · intro hbest
    obtain ⟨hgreatest, hreaches⟩ := hbest
    obtain ⟨b, hb, hhalf, hworth⟩ := hgreatest.1
    rw [← hb.worth_eq] at hworth
    rcases h.covers hoptimal b hb hhalf with hlow | ⟨best, hfound, -⟩
    · rw [hworth] at hlow
      exact absurd hreaches (not_le.mpr hlow)
    · exact ⟨best, hfound, (h.isGreatest hoptimal hfound).unique hgreatest⟩

/-- Two optimal runs from the same bound find equally much. -/
theorem Answers.worth_eq {other : Run} (h : r.Answers bound run) (hother : r.Answers bound other)
    (hoptimal : run.optimal = true) (hsame : other.optimal = true) :
    run.found.map (·.worth) = other.found.map (·.worth) := by
  apply Option.ext
  intro worth
  simp only [Option.map_eq_some_iff]
  rw [h.found_iff hoptimal, hother.found_iff hsame]

/-! ## Which one it finds -/

/-- What all flagged voter groups confirm: one flag per attestation group. -/
def sharedBy (r : Reduction) (participants : List Bool) : List Bool :=
  r.attestations.zipIdx.map fun (_, j) => r.confirmedByAll participants j

/-- Who confirms all flagged attestation groups: one flag per voter group. -/
def backersOf (r : Reduction) (included : List Bool) : List Bool :=
  r.voters.map (confirmsAll included)

/-- The worth of participants with everything that they all confirm. -/
def worthOfParticipants (r : Reduction) (participants : List Bool) : Worth :=
  r.worth (r.feesOf (r.sharedBy participants)) (r.weightOf participants)

/-- The worth of inclusions with everybody who confirms all of them. -/
def worthOfInclusions (r : Reduction) (included : List Bool) : Worth :=
  r.worth (r.feesOf included) (r.weightOf (r.backersOf included))

/-- Participants with a majority. -/
def majorities (r : Reduction) : Set (List Bool) :=
  {participants | participants.length = r.voters.length ∧ r.half < r.weightOf participants}

/-- Inclusions that a majority confirms. -/
def carriedInclusions (r : Reduction) : Set (List Bool) :=
  {included | included.length = r.attestations.length ∧
    r.half < r.weightOf (r.backersOf included)}

/-- The participants with a majority that are worth the most. -/
def bestParticipants (r : Reduction) : Set (List Bool) :=
  {participants | participants ∈ r.majorities ∧
    ∀ others ∈ r.majorities, r.worthOfParticipants others ≤ r.worthOfParticipants participants}

/-- The inclusions with a majority behind them that are worth the most. -/
def bestInclusions (r : Reduction) : Set (List Bool) :=
  {included | included ∈ r.carriedInclusions ∧
    ∀ others ∈ r.carriedInclusions, r.worthOfInclusions others ≤ r.worthOfInclusions included}

/-- What an optimal exploration finds stands for the first of the best
leaves. -/
theorem runOf_first {Entry Node : Type} {b : Branching Entry Node} {Sound : Node → Prop}
    (hb : b.Shrinking Sound) {entries : List Entry} {node : Node} {p : Progress}
    (hnode : Sound node) (hweight : b.weight node ≤ r.total) (hp : p.overweight = none)
    {read : Leaf → Assignment}
    (hoptimal : (runOf subject budget read
      (explore b ⟨budget, r.total⟩ entries node p)).optimal = true)
    (hfound : (runOf subject budget read
      (explore b ⟨budget, r.total⟩ entries node p)).found = some a) :
    ∃ leaf, Leaf.First (b.IsLeaf ⟨budget, r.total⟩ entries node) leaf ∧ a = read leaf := by
  obtain ⟨leaf, hleaf, rfl⟩ := Option.map_eq_some_iff.mp hfound
  exact ⟨leaf, explore_first hb hnode hweight hp (of_decide_eq_true hoptimal) hleaf, rfl⟩

/-- Without a majority no search finds anything. -/
theorem majority_of_found (hfound : (r.search subject budget seed bound).found = some a) :
    r.half < r.weight := by
  by_contra hminority
  rw [search_no_majority (Nat.not_lt.mp hminority)] at hfound
  simp at hfound

/-- Where leaves stand for choices, the first of the best leaves stands for the
best choice that is decided first. -/
theorem exists_best_of_first {Choice : Type} {leaves : Leaf → Prop} {choices : Set Choice}
    {decisionsOf : Choice → List Bool} {worthOf : Choice → Worth}
    (hleaves : ∀ leaf, leaves leaf ↔ ∃ x ∈ choices, leaf = ⟨decisionsOf x, worthOf x⟩)
    {leaf : Leaf} (hfirst : Leaf.First leaves leaf) :
    ∃ x, leaf = ⟨decisionsOf x, worthOf x⟩ ∧
      (x ∈ choices ∧ ∀ others ∈ choices, worthOf others ≤ worthOf x) ∧
      ∀ y, (y ∈ choices ∧ ∀ others ∈ choices, worthOf others ≤ worthOf y) →
        decisionsOf x ≤ decisionsOf y := by
  have hleaf : ∀ y ∈ choices, leaves ⟨decisionsOf y, worthOf y⟩ := fun y hy =>
    (hleaves _).mpr ⟨y, hy, rfl⟩
  obtain ⟨x, hx, rfl⟩ := (hleaves leaf).mp hfirst.mem
  refine ⟨x, rfl, ⟨hx, ?_⟩, ?_⟩
  · intro y hy
    exact hfirst.worth_le _ (hleaf y hy)
  · intro y hy
    refine hfirst.decisions_le _ (hleaf y hy.1) (le_antisymm ?_ ?_)
    · exact hfirst.worth_le _ (hleaf y hy.1)
    · exact hy.2 x hx

/-- The leaves of the search by voters stand for participants with a majority. -/
theorem isLeaf_byVoters_iff {scope : Scope} (htotal : scope.total = r.total)
    (hmajority : r.half < r.weight) {leaf : Leaf} :
    r.byVoters.IsLeaf scope r.voters r.wholeSupport leaf ↔
      ∃ participants ∈ r.majorities,
        leaf = ⟨participants, r.worthOfParticipants participants⟩ := by
  rw [isLeaf_byVoters htotal hmajority]
  constructor
  · intro hleaf
    obtain ⟨hlength, hhalf, hworth⟩ := hleaf
    refine ⟨leaf.decisions, ⟨hlength, hhalf⟩, ?_⟩
    change leaf.worth = r.worthOfParticipants leaf.decisions at hworth
    rw [← hworth]
  · intro hchosen
    obtain ⟨participants, ⟨hlength, hhalf⟩, rfl⟩ := hchosen
    exact ⟨hlength, hhalf, rfl⟩

/-- Inclusions are read back from how they are decided in an order. -/
theorem included_of_inOrder {order : List Nat}
    (horder : order.Perm (List.range r.attestations.length)) {included : List Bool}
    (hlength : included.length = r.attestations.length) (worth : Worth) :
    (r.assignmentOfInclusions order ⟨inOrder order included, worth⟩).included = included := by
  rw [included_assignmentOfInclusions, ← hlength]
  exact ofPositions_inOrder (hlength ▸ horder)

/-- The leaves of the search by attestations stand for inclusions that a
majority confirms, decided in the order of the search. -/
theorem isLeaf_byAttestations_iff {scope : Scope} {order : List Nat}
    (htotal : scope.total = r.total) (hmajority : r.half < r.weight)
    (horder : order.Perm (List.range r.attestations.length)) {leaf : Leaf} :
    r.byAttestations.IsLeaf scope (r.entriesAt order) r.wholeCoalition leaf ↔
      ∃ included ∈ r.carriedInclusions,
        leaf = ⟨inOrder order included, r.worthOfInclusions included⟩ := by
  rw [isLeaf_byAttestations htotal hmajority horder]
  constructor
  · intro hleaf
    obtain ⟨hlength, hhalf, hworth⟩ := hleaf
    have hdecisions : inOrder order (r.assignmentOfInclusions order leaf).included =
        leaf.decisions := by
      rw [included_assignmentOfInclusions]
      exact inOrder_ofPositions horder hlength
    refine ⟨(r.assignmentOfInclusions order leaf).included,
      ⟨by simp [included_assignmentOfInclusions], hhalf⟩, ?_⟩
    change leaf.worth = r.worthOfInclusions (r.assignmentOfInclusions order leaf).included
      at hworth
    rw [hdecisions, ← hworth]
  · intro hchosen
    obtain ⟨included, ⟨hlength, hhalf⟩, rfl⟩ := hchosen
    have hback := included_of_inOrder horder hlength (r.worthOfInclusions included)
    refine ⟨by simp [inOrder], ?_, ?_⟩
    · change r.half < r.weightOf (r.backersOf (r.assignmentOfInclusions order _).included)
      rw [hback]
      exact hhalf
    · change _ = r.worthOfInclusions (r.assignmentOfInclusions order _).included
      rw [hback]

/-- **By voters**, an optimal search finds the first of the best participants,
with everything that they all confirm. -/
theorem search_voters_first (hweight : r.weight ≤ r.total)
    (hoptimal : (r.search .voters budget seed bound).optimal = true)
    (hfound : (r.search .voters budget seed bound).found = some a) :
    IsLeast r.bestParticipants a.participants ∧
      a = ⟨a.participants, r.sharedBy a.participants, r.worthOfParticipants a.participants⟩ := by
  have hmajority := majority_of_found hfound
  rw [search_voters hmajority] at hoptimal hfound
  obtain ⟨leaf, hfirst, rfl⟩ :=
    runOf_first (byVoters_shrinking r) trivial (by exact hweight) (by rfl) hoptimal hfound
  obtain ⟨participants, rfl, hbest, hleast⟩ :=
    exists_best_of_first (fun _ => isLeaf_byVoters_iff rfl hmajority) hfirst
  exact ⟨⟨hbest, hleast⟩, rfl⟩

/-- **By attestations**, an optimal search finds the best inclusions that come
first in the drawn order. -/
theorem search_attestations_first (hweight : r.weight ≤ r.total)
    (hoptimal : (r.search .attestations budget seed bound).optimal = true)
    (hfound : (r.search .attestations budget seed bound).found = some a) :
    a.included ∈ r.bestInclusions ∧ ∀ others ∈ r.bestInclusions,
      inOrder (r.drawnOrder seed) a.included ≤ inOrder (r.drawnOrder seed) others := by
  have hmajority := majority_of_found hfound
  have horder := r.drawnOrder_perm seed
  rw [search_attestations hmajority] at hoptimal hfound
  obtain ⟨leaf, hfirst, rfl⟩ :=
    runOf_first (byAttestations_shrinking r) (by rfl) (by exact hweight) (by rfl) hoptimal hfound
  obtain ⟨included, rfl, hbest, hleast⟩ :=
    exists_best_of_first (fun _ => isLeaf_byAttestations_iff rfl hmajority horder) hfirst
  rw [included_of_inOrder horder hbest.1.1]
  exact ⟨hbest, hleast⟩

/-! ## The searches of a round -/

variable {votes : List WeightedBallot} {fees : List Nat} {total : Nat}

/-- **How much an optimal search finds.**  If the greatest of all achievable
worths reaches the bound, it finds that; otherwise it finds nothing.  Hence
optimal searches from the same bound find equally much, whatever they decide,
what they may spend and which coins they flip. -/
theorem search_exact (hweight : (votes.map (·.weight)).sum ≤ total) (subject : Subject)
    (budget : Nat) (seed : Seed) (bound : Worth)
    (hoptimal : ((ofRound votes fees total).search subject budget seed bound).optimal = true) :
    (∀ best, IsGreatest (ofRound votes fees total).achievable best → bound ≤ best →
      ∃ a, ((ofRound votes fees total).search subject budget seed bound).found = some a ∧
        a.worth = best) ∧
    ((¬ ∃ best, IsGreatest (ofRound votes fees total).achievable best ∧ bound ≤ best) →
      ((ofRound votes fees total).search subject budget seed bound).found = none) ∧
    ∀ other budget' seed',
      ((ofRound votes fees total).search other budget' seed' bound).optimal = true →
      ((ofRound votes fees total).search other budget' seed' bound).found.map (·.worth) =
        ((ofRound votes fees total).search subject budget seed bound).found.map (·.worth) := by
  have hanswers := search_answers (weight_ofRound_le fees hweight)
  have hfound := (hanswers subject budget seed bound).found_iff hoptimal
  refine ⟨?_, ?_, ?_⟩
  · intro best hbest hreaches
    exact (hfound best).mpr ⟨hbest, hreaches⟩
  · intro hnone
    rw [Option.eq_none_iff_forall_ne_some]
    intro a ha
    exact hnone ⟨a.worth, (hfound a.worth).mp ⟨a, ha, rfl⟩⟩
  · intro other budget' seed' hsame
    exact (hanswers other budget' seed' bound).worth_eq (hanswers subject budget seed bound)
      hsame hoptimal

/-- The reduction of the three voters of which any two have one attestation in
common: nothing is settled. -/
def cycle : Reduction := ofRound Agreement.cycleVotes [1, 1, 1] 3

/-- Two of the three voters achieve the most. -/
theorem isGreatest_achievable_cycle : IsGreatest cycle.achievable ⟨2, 2⟩ := by
  have hoptimal : (cycle.search .voters 100 (.ofNumber 7) .zero).optimal = true := by
    decide +kernel
  have hfound : (cycle.search .voters 100 (.ofNumber 7) .zero).found.map (·.worth) =
      some ⟨2, 2⟩ := by decide +kernel
  have hanswers : cycle.Answers .zero (cycle.search .voters 100 (.ofNumber 7) .zero) :=
    search_answers (weight_ofRound_le [1, 1, 1] (by decide)) _ _ _ _
  obtain ⟨a, ha, hworth⟩ := Option.map_eq_some_iff.mp hfound
  exact hworth ▸ hanswers.isGreatest hoptimal ha

/-- The most that two of the three voters can achieve is what either search finds; from a
bound above that, nothing is found. -/
theorem search_exact_of_cycle :
    (Agreement.cycleVotes.map (·.weight)).sum ≤ 3 ∧
      (cycle.search .voters 100 (.ofNumber 7) .zero).optimal = true ∧
      (cycle.search .attestations 50 (.ofNumber 8) .zero).optimal = true ∧
      (cycle.search .voters 100 (.ofNumber 7) ⟨3, 0⟩).optimal = true ∧
      IsGreatest cycle.achievable ⟨2, 2⟩ ∧
      (∃ a, (cycle.search .voters 100 (.ofNumber 7) .zero).found = some a ∧ a.worth = ⟨2, 2⟩) ∧
      (cycle.search .attestations 50 (.ofNumber 8) .zero).found.map (·.worth) = some ⟨2, 2⟩ ∧
      (cycle.search .voters 100 (.ofNumber 7) ⟨3, 0⟩).found = none := by
  have hweight : (Agreement.cycleVotes.map (·.weight)).sum ≤ 3 := by decide
  have hvoters : (cycle.search .voters 100 (.ofNumber 7) .zero).optimal = true := by
    decide +kernel
  have hattestations : (cycle.search .attestations 50 (.ofNumber 8) .zero).optimal = true := by
    decide +kernel
  have habove : (cycle.search .voters 100 (.ofNumber 7) ⟨3, 0⟩).optimal = true := by
    decide +kernel
  have hfound : (cycle.search .voters 100 (.ofNumber 7) .zero).found.map (·.worth) =
      some ⟨2, 2⟩ := by decide +kernel
  obtain ⟨hreaches, -, hagree⟩ := search_exact hweight .voters 100 (.ofNumber 7) .zero hvoters
  obtain ⟨-, hmisses, -⟩ := search_exact hweight .voters 100 (.ofNumber 7) ⟨3, 0⟩ habove
  have hbest : IsGreatest cycle.achievable ⟨2, 2⟩ := isGreatest_achievable_cycle
  have hnone : ¬ ∃ best, IsGreatest cycle.achievable best ∧ (⟨3, 0⟩ : Worth) ≤ best := by
    intro hany
    obtain ⟨best, hother, hreached⟩ := hany
    obtain rfl := hother.unique hbest
    exact absurd hreached (by decide)
  exact ⟨hweight, hvoters, hattestations, habove, hbest,
    hreaches _ hbest (Worth.zero_le _),
    (hagree .attestations 50 (.ofNumber 8) hattestations).trans hfound, hmisses hnone⟩

/-- **Which one an optimal search finds.**  By voters, it finds the first of
the best participants: hence always the same assignment.  By attestations, it
finds the best inclusions that come first in the order that is drawn from the
seed. -/
theorem search_first (hweight : (votes.map (·.weight)).sum ≤ total) :
    (∀ budget seed bound a,
      ((ofRound votes fees total).search .voters budget seed bound).optimal = true →
      ((ofRound votes fees total).search .voters budget seed bound).found = some a →
      IsLeast (ofRound votes fees total).bestParticipants a.participants) ∧
    (∀ budget seed bound a,
      ((ofRound votes fees total).search .attestations budget seed bound).optimal = true →
      ((ofRound votes fees total).search .attestations budget seed bound).found = some a →
      a.included ∈ (ofRound votes fees total).bestInclusions ∧
        ∀ others ∈ (ofRound votes fees total).bestInclusions,
          inOrder ((ofRound votes fees total).drawnOrder seed) a.included ≤
            inOrder ((ofRound votes fees total).drawnOrder seed) others) ∧
    ∀ budget seed bound a budget' seed' bound' a',
      ((ofRound votes fees total).search .voters budget seed bound).optimal = true →
      ((ofRound votes fees total).search .voters budget seed bound).found = some a →
      ((ofRound votes fees total).search .voters budget' seed' bound').optimal = true →
      ((ofRound votes fees total).search .voters budget' seed' bound').found = some a' →
      a = a' := by
  have hlight := weight_ofRound_le fees hweight
  refine ⟨?_, ?_, ?_⟩
  · intro budget seed bound a hoptimal hfound
    exact (search_voters_first hlight hoptimal hfound).1
  · intro budget seed bound a hoptimal hfound
    exact search_attestations_first hlight hoptimal hfound
  · intro budget seed bound a budget' seed' bound' a' hoptimal hfound hoptimal' hfound'
    obtain ⟨hleast, ha⟩ := search_voters_first hlight hoptimal hfound
    obtain ⟨hleast', ha'⟩ := search_voters_first hlight hoptimal' hfound'
    rw [ha, ha', hleast.unique hleast']

/-- Any two of the three voters are worth the most together; the last two of
them come first.  So does the last attestation, in an order that has it at the end. -/
theorem search_first_of_cycle :
    (Agreement.cycleVotes.map (·.weight)).sum ≤ 3 ∧
      ∃ a b, (cycle.search .voters 100 (.ofNumber 7) .zero).found = some a ∧
        (cycle.search .voters 60 (.ofNumber 8) ⟨2, 2⟩).found = some a ∧
        a.participants = [false, true, true] ∧
        IsLeast cycle.bestParticipants a.participants ∧
        (cycle.search .attestations 50 (.ofNumber 7) .zero).found = some b ∧
        cycle.drawnOrder (.ofNumber 7) = [1, 0, 2] ∧ b.included = [false, false, true] ∧
        b.included ∈ cycle.bestInclusions ∧
        ∀ others ∈ cycle.bestInclusions,
          inOrder [1, 0, 2] b.included ≤ inOrder [1, 0, 2] others := by
  have hweight : (Agreement.cycleVotes.map (·.weight)).sum ≤ 3 := by decide
  obtain ⟨hvoters, hattestations, hsame⟩ := @search_first _ [1, 1, 1] _ hweight
  have hoptimal : (cycle.search .voters 100 (.ofNumber 7) .zero).optimal = true := by
    decide +kernel
  have hoptimal' : (cycle.search .voters 60 (.ofNumber 8) ⟨2, 2⟩).optimal = true := by
    decide +kernel
  have hparticipants : (cycle.search .voters 100 (.ofNumber 7) .zero).found.map (·.participants) =
      some [false, true, true] := by decide +kernel
  have hsome : (cycle.search .voters 60 (.ofNumber 8) ⟨2, 2⟩).found.isSome = true := by
    decide +kernel
  have hends : (cycle.search .attestations 50 (.ofNumber 7) .zero).optimal = true := by
    decide +kernel
  have hinclusions : (cycle.search .attestations 50 (.ofNumber 7) .zero).found.map (·.included) =
      some [false, false, true] := by decide +kernel
  have horder : cycle.drawnOrder (.ofNumber 7) = [1, 0, 2] := by decide +kernel
  obtain ⟨a, ha, hflags⟩ := Option.map_eq_some_iff.mp hparticipants
  obtain ⟨a', ha'⟩ := Option.isSome_iff_exists.mp hsome
  obtain ⟨b, hb, hincluded⟩ := Option.map_eq_some_iff.mp hinclusions
  obtain ⟨hbest, hleast⟩ := hattestations _ _ _ _ hends hb
  obtain rfl := hsame _ _ _ _ _ _ _ _ hoptimal ha hoptimal' ha'
  exact ⟨hweight, a, b, ha, ha', hflags, hvoters _ _ _ _ hoptimal ha, hb,
    horder, hincluded, hbest, horder ▸ hleast⟩

end Reduction

end BallotConsensus
