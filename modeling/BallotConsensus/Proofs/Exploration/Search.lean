import BallotConsensus.Proofs.Exploration.Dual

/-!
# What a whole search answers

A search of a reduction, over either subject, from any seed, with any budget
and any bound to start from, finds nothing but fitting assignments with a
majority that reach the bound; and if it ends within its budget, it has found
the best of them.  A larger budget never finds less, and it changes nothing
about a search that ended within the smaller one.

* `Reduction.Answers` — what a search owes, and `Reduction.search_answers`:
  **every search answers**;
* `Run.Overtakes` — a run next to one with a smaller budget, and
  `Reduction.search_overtakes`: **more budget finds no less**.
-/

namespace BallotConsensus

namespace Reduction

/-- What a search that started from a bound owes. -/
structure Answers (r : Reduction) (bound : Worth) (run : Run) : Prop where
  overweight : run.overweight = none
  fits : ∀ a, run.found = some a → a.Fits r
  majority : ∀ a, run.found = some a → r.half < r.weightOf a.participants
  bound_le : ∀ a, run.found = some a → bound ≤ a.worth
  /-- Within the budget, whatever has a majority is below the bound or worth
  no more than what was found. -/
  covers : run.optimal = true → ∀ a : Assignment, a.Fits r →
    r.half < r.weightOf a.participants →
    a.worth < bound ∨ ∃ best, run.found = some best ∧ a.worth ≤ best.worth

end Reduction

/-- A run next to one that differs from it in having a smaller budget. -/
structure Run.Overtakes (long short : Run) : Prop where
  found : ∀ a, short.found = some a → ∃ b, long.found = some b ∧ a.worth ≤ b.worth
  /-- What ended within the smaller budget ends alike. -/
  optimal : short.optimal = true → long = short

namespace Reduction

variable {r : Reduction} {subject : Subject} {budget : Nat} {seed : Seed} {bound : Worth}

/-- The run that exploring ends with, its leaf read as an assignment. -/
def runOf (subject : Subject) (budget : Nat) (read : Leaf → Assignment)
    (result : Option Leaf × Progress) : Run where
  subject
  found := result.1.map read
  operations := result.2.operations
  optimal := decide (result.2.operations < budget)
  overweight := result.2.overweight

/-- The order in which a search by attestations decides them. -/
def drawnOrder (r : Reduction) (seed : Seed) : List Nat :=
  Shuffle.ofDraws (((Draws.ofSeed seed).take r.attestations.length).1.map (·.toNat))

theorem drawnOrder_perm (r : Reduction) (seed : Seed) :
    (r.drawnOrder seed).Perm (List.range r.attestations.length) := by
  have h := Shuffle.perm_range
    (((Draws.ofSeed seed).take r.attestations.length).1.map (·.toNat))
  rwa [List.length_map, Draws.length_take] at h

theorem search_no_majority (h : r.weight ≤ r.half) :
    r.search subject budget seed bound = ⟨subject, none, 0, decide (0 < budget), none⟩ := by
  simp only [search, if_pos h]

theorem search_voters (h : r.half < r.weight) :
    r.search .voters budget seed bound = runOf .voters budget r.assignmentOfParticipants
      (explore r.byVoters ⟨budget, r.total⟩ r.voters r.wholeSupport
        ⟨bound, 0, .ofSeed seed, none⟩) := by
  simp only [search, if_neg (Nat.not_le.mpr h)]
  rfl

theorem search_attestations (h : r.half < r.weight) :
    r.search .attestations budget seed bound =
      runOf .attestations budget (r.assignmentOfInclusions (r.drawnOrder seed))
        (explore r.byAttestations ⟨budget, r.total⟩ (r.entriesAt (r.drawnOrder seed))
          r.wholeCoalition
          ⟨bound, 0, ((Draws.ofSeed seed).take r.attestations.length).2, none⟩) := by
  simp only [search, if_neg (Nat.not_le.mpr h)]
  rfl

/-- A contract met among leaves that stand for assignments is met among the
assignments. -/
theorem Reading.answers {leaves : Leaf → Prop} {read : Leaf → Assignment}
    (hread : r.Reading leaves read) {p : Progress} {result : Option Leaf × Progress}
    (h : Searched ⟨budget, r.total⟩ leaves p result) :
    r.Answers p.bound (runOf subject budget read result) where
  overweight := h.overweight
  fits a ha := by
    obtain ⟨leaf, hleaf, rfl⟩ := Option.map_eq_some_iff.mp ha
    exact hread.fits leaf (h.found leaf hleaf).1
  majority a ha := by
    obtain ⟨leaf, hleaf, rfl⟩ := Option.map_eq_some_iff.mp ha
    exact hread.majority leaf (h.found leaf hleaf).1
  bound_le a ha := by
    obtain ⟨leaf, hleaf, rfl⟩ := Option.map_eq_some_iff.mp ha
    rw [hread.worth_eq, (h.found leaf hleaf).2]
    exact h.advances.bound_le
  covers hin a ha hhalf := by
    obtain ⟨leaf, hleaf, hworth⟩ := hread.reaches a ha hhalf
    rcases h.covered (of_decide_eq_true hin) leaf hleaf with hlow | ⟨hsome, hle⟩
    · exact Or.inl (lt_of_le_of_lt hworth hlow)
    · obtain ⟨best, hbest⟩ := Option.isSome_iff_exists.mp hsome
      refine Or.inr ⟨read best, Option.map_eq_some_iff.mpr ⟨best, hbest, rfl⟩, ?_⟩
      rw [hread.worth_eq, (h.found best hbest).2]
      exact le_trans hworth hle

/-- **Every search answers**, whatever its subject, seed, budget and bound. -/
theorem search_answers (hweight : r.weight ≤ r.total) (subject : Subject) (budget : Nat)
    (seed : Seed) (bound : Worth) :
    r.Answers bound (r.search subject budget seed bound) := by
  by_cases hmajority : r.half < r.weight
  · cases subject with
    | voters =>
        rw [search_voters hmajority]
        exact (reading_voters rfl hmajority).answers (p := ⟨bound, 0, .ofSeed seed, none⟩)
          (explore_searched (byVoters_shrinking r) trivial hweight rfl)
    | attestations =>
        rw [search_attestations hmajority]
        exact (reading_attestations rfl hmajority (r.drawnOrder_perm seed)).answers
          (p := ⟨bound, 0, ((Draws.ofSeed seed).take r.attestations.length).2, none⟩)
          (explore_searched (byAttestations_shrinking r) rfl hweight rfl)
  · rw [search_no_majority (Nat.not_lt.mp hmajority)]
    refine ⟨rfl, by simp, by simp, by simp, ?_⟩
    intro _ a _ hhalf
    exact absurd (Nat.lt_of_lt_of_le hhalf (r.weightOf_le _)) hmajority

/-- Two explorations that differ in their budgets alone, read as runs. -/
theorem runOf_overtakes {Entry Node : Type} {b : Branching Entry Node} {Sound : Node → Prop}
    (hb : b.Shrinking Sound) {short long : Nat} (hbudget : short ≤ long)
    {entries : List Entry} {node : Node} {p : Progress} (hnode : Sound node)
    (hweight : b.weight node ≤ r.total) (hp : p.overweight = none)
    {read : Leaf → Assignment} (hread : ∀ leaf, (read leaf).worth = leaf.worth) :
    (runOf subject long read (explore b ⟨long, r.total⟩ entries node p)).Overtakes
      (runOf subject short read (explore b ⟨short, r.total⟩ entries node p)) := by
  rcases explore_budget (b := b) hbudget r.total entries node p with hsame | ⟨-, hbehind⟩
  · rw [hsame]
    refine ⟨fun a ha => ⟨a, ha, le_refl _⟩, fun hin => ?_⟩
    have hlong := Nat.lt_of_lt_of_le (of_decide_eq_true hin) hbudget
    simp only [runOf, Run.mk.injEq, true_and, and_true]
    exact (decide_eq_true hlong).trans hin.symm
  · have hsearched : ∀ budget, Searched ⟨budget, r.total⟩
        (b.IsLeaf ⟨budget, r.total⟩ entries node) p
        (explore b ⟨budget, r.total⟩ entries node p) := fun _ =>
      explore_searched hb hnode hweight hp
    constructor
    · intro a ha
      obtain ⟨leaf, hleaf, rfl⟩ := Option.map_eq_some_iff.mp ha
      obtain ⟨other, hother⟩ := Option.isSome_iff_exists.mp (hbehind.found (by simp [hleaf]))
      refine ⟨read other, Option.map_eq_some_iff.mpr ⟨other, hother, rfl⟩, ?_⟩
      have hworth := ((hsearched short).found leaf hleaf).2
      have hlonger := ((hsearched long).found other hother).2
      rw [hread, hread, hworth, hlonger]
      exact hbehind.bound_le
    · intro hin
      exact absurd (of_decide_eq_true hin) (Nat.not_lt.mpr hbehind.spent)

/-- **More budget finds no less.** -/
theorem search_overtakes (hweight : r.weight ≤ r.total) {short long : Nat}
    (hbudget : short ≤ long) (subject : Subject) (seed : Seed) (bound : Worth) :
    (r.search subject long seed bound).Overtakes (r.search subject short seed bound) := by
  by_cases hmajority : r.half < r.weight
  · cases subject with
    | voters =>
        rw [search_voters hmajority, search_voters hmajority]
        exact runOf_overtakes (byVoters_shrinking r) hbudget trivial (by exact hweight) (by rfl)
          fun _ => rfl
    | attestations =>
        rw [search_attestations hmajority, search_attestations hmajority]
        exact runOf_overtakes (byAttestations_shrinking r) hbudget (by rfl) (by exact hweight)
          (by rfl) fun _ => rfl
  · rw [search_no_majority (Nat.not_lt.mp hmajority), search_no_majority (Nat.not_lt.mp hmajority)]
    refine ⟨by simp, fun hin => ?_⟩
    have hlong := Nat.lt_of_lt_of_le (of_decide_eq_true hin) hbudget
    simp only [Run.mk.injEq, true_and, and_true]
    exact (decide_eq_true hlong).trans hin.symm

end Reduction

end BallotConsensus
