import BallotConsensus.Agreement
import BallotConsensus.Proofs.Exploration.Search

/-!
# How the searches of a reduction end

One or two searches, a full turnout where neither finds anything, and whatever
fits added to what is not optimal: the assignment that this ends with fits the
reduction and has a majority if there is any, and if it is called optimal, no
fitting assignment with a majority is worth more.

* `Reduction.leading`, `Reduction.following` — the two searches, and
  `Reduction.searched`: both of them taken as one;
* `Reduction.Answers.followed_by` — **the second search makes up for the bound
  that it starts from**, so that `Reduction.searched_answers`;
* `Reduction.resolution_fits`, `Reduction.resolution_majority`,
  `Reduction.resolution_covers` — what a resolution ends with;
* `Reduction.foundWorth_searched_le`,
  `Reduction.resolution_eq_of_leading_optimal` — what a larger budget finds.
-/

namespace BallotConsensus

/-! ## The better of two results -/

variable {earlier later : Option Assignment} {a : Assignment}

theorem worth_le_foundWorth (h : earlier = some a) : a.worth ≤ foundWorth earlier := by
  rw [h]
  exact le_refl _

theorem improve_eq_some (h : improve earlier later = some a) :
    earlier = some a ∨ later = some a := by
  cases earlier with
  | none =>
      cases later with
      | none => simp [improve] at h
      | some y => exact Or.inr h
  | some x =>
      cases later with
      | none => exact Or.inl h
      | some y =>
          unfold improve at h
          dsimp only at h
          split at h
          · exact Or.inr h
          · exact Or.inl h

theorem improve_eq_none (h : improve earlier later = none) : earlier = none ∧ later = none := by
  cases earlier with
  | none =>
      cases later with
      | none => exact ⟨rfl, rfl⟩
      | some y => simp [improve] at h
  | some x =>
      cases later with
      | none => simp [improve] at h
      | some y =>
          unfold improve at h
          dsimp only at h
          split at h <;> simp at h

/-- The better of two results is worth no less than either. -/
theorem foundWorth_improve (earlier later : Option Assignment) :
    foundWorth (improve earlier later) = max (foundWorth earlier) (foundWorth later) := by
  cases earlier with
  | none =>
      cases later with
      | none => exact (max_self _).symm
      | some y => exact (max_eq_right (Worth.zero_le _)).symm
  | some x =>
      cases later with
      | none => exact (max_eq_left (Worth.zero_le _)).symm
      | some y =>
          unfold improve
          dsimp only
          split
          · next hlt => exact (max_eq_right (le_of_lt hlt)).symm
          · next hge => exact (max_eq_left (not_lt.mp hge)).symm

theorem Run.Overtakes.foundWorth_le {long short : Run} (h : long.Overtakes short) :
    foundWorth short.found ≤ foundWorth long.found := by
  cases hshort : short.found with
  | none => exact Worth.zero_le _
  | some a =>
      obtain ⟨b, hlong, hle⟩ := h.found a hshort
      exact le_trans hle (worth_le_foundWorth hlong)

namespace Reduction

variable {r : Reduction} {budget : Nat} {seed : Seed}

/-! ## The two searches -/

/-- The search that goes first. -/
def leading (r : Reduction) (budget : Nat) (seed : Seed) : Run :=
  r.search (Subject.fewerFirst r).1 budget seed .zero

/-- The search that goes second, if it takes place. -/
def following (r : Reduction) (budget : Nat) (seed : Seed) : Run :=
  r.search (Subject.fewerFirst r).2 budget seed (foundWorth (r.leading budget seed).found)

/-- Both searches taken as one: the second only if the first one ran out of
budget. -/
def searched (r : Reduction) (budget : Nat) (seed : Seed) : Run :=
  if (r.leading budget seed).optimal then r.leading budget seed
  else { r.following budget seed with
    found := improve (r.leading budget seed).found (r.following budget seed).found }

/-- What a resolution ends with, in terms of what was searched. -/
theorem resolution_eq (r : Reduction) (budget : Nat) (seed : Seed) :
    r.resolution budget seed =
      { first := r.leading budget seed
        second := if (r.leading budget seed).optimal then none else r.following budget seed
        assignment :=
          if (r.searched budget seed).optimal
          then (r.searched budget seed).found.getD r.fullTurnout
          else ((r.searched budget seed).found.getD r.fullTurnout).saturate r
        optimal := (r.searched budget seed).optimal } := by
  by_cases h : (r.leading budget seed).optimal = true
  · simp only [searched, h, if_true]
    simp only [leading] at h ⊢
    simp only [resolution, h, if_true]
  · simp only [searched, h]
    simp only [following, leading] at h ⊢
    simp only [resolution, h]
    rfl

/-- **The second search makes up for the bound it starts from.**  What it
leaves out because of the bound is worth less than what the first one found. -/
theorem Answers.followed_by {first second : Run} (h₁ : r.Answers .zero first)
    (h₂ : r.Answers (foundWorth first.found) second) :
    r.Answers .zero { second with found := improve first.found second.found } where
  overweight := h₂.overweight
  fits a ha := (improve_eq_some ha).elim (h₁.fits a) (h₂.fits a)
  majority a ha := (improve_eq_some ha).elim (h₁.majority a) (h₂.majority a)
  bound_le _ _ := Worth.zero_le _
  covers hin a ha hhalf := by
    have hfound : a.worth ≤ foundWorth (improve first.found second.found) := by
      rw [foundWorth_improve]
      rcases h₂.covers hin a ha hhalf with hlow | ⟨best, hbest, hle⟩
      · exact le_max_of_le_left (le_of_lt hlow)
      · exact le_max_of_le_right (le_trans hle (worth_le_foundWorth hbest))
    refine Or.inr ?_
    cases himprove : improve first.found second.found with
    | some best =>
        rw [himprove] at hfound
        exact ⟨best, rfl, hfound⟩
    | none =>
        obtain ⟨hfirst, hsecond⟩ := improve_eq_none himprove
        rcases h₂.covers hin a ha hhalf with hlow | ⟨best, hbest, -⟩
        · rw [hfirst] at hlow
          exact absurd hlow (not_lt.mpr (Worth.zero_le _))
        · simp [hsecond] at hbest

theorem leading_answers (hweight : r.weight ≤ r.total) (budget : Nat) (seed : Seed) :
    r.Answers .zero (r.leading budget seed) :=
  search_answers hweight _ _ _ _

theorem following_answers (hweight : r.weight ≤ r.total) (budget : Nat) (seed : Seed) :
    r.Answers (foundWorth (r.leading budget seed).found) (r.following budget seed) :=
  search_answers hweight _ _ _ _

theorem resolution_first (r : Reduction) (budget : Nat) (seed : Seed) :
    (r.resolution budget seed).first = r.leading budget seed := by
  rw [resolution_eq]

/-- What both searches found, read off a resolution. -/
theorem searched_found (r : Reduction) (budget : Nat) (seed : Seed) :
    (r.searched budget seed).found =
      improve (r.resolution budget seed).first.found
        ((r.resolution budget seed).second.bind (·.found)) := by
  rw [resolution_eq]
  by_cases h : (r.leading budget seed).optimal = true
  · simp only [searched, if_pos h, Option.bind_none]
    cases (r.leading budget seed).found <;> rfl
  · simp only [searched, if_neg h]
    rfl

/-- **Both searches answer as one.** -/
theorem searched_answers (hweight : r.weight ≤ r.total) (budget : Nat) (seed : Seed) :
    r.Answers .zero (r.searched budget seed) := by
  unfold searched
  split
  · exact leading_answers hweight budget seed
  · exact (leading_answers hweight budget seed).followed_by (following_answers hweight budget seed)

/-! ## The resolution -/

/-- Nobody is found to outweigh everybody together. -/
theorem resolution_overweight (hweight : r.weight ≤ r.total) (budget : Nat) (seed : Seed) :
    (r.resolution budget seed).runs.findSome? (·.overweight) = none := by
  rw [resolution_eq, List.findSome?_eq_none_iff]
  intro run hrun
  simp only [Resolution.runs, List.mem_cons, Option.mem_toList] at hrun
  rcases hrun with rfl | hsecond
  · exact (leading_answers hweight budget seed).overweight
  · rw [Option.ite_none_left_eq_some] at hsecond
    obtain rfl := Option.some.inj hsecond.2
    exact (following_answers hweight budget seed).overweight

/-- What was found, or the full turnout: what is completed to the end of a
resolution. -/
theorem fits_found (hweight : r.weight ≤ r.total) (budget : Nat) (seed : Seed) :
    ((r.searched budget seed).found.getD r.fullTurnout).Fits r := by
  cases hfound : (r.searched budget seed).found with
  | none => exact Assignment.fits_fullTurnout r
  | some a => exact (searched_answers hweight budget seed).fits a hfound

/-- **A resolution ends with an assignment that fits.** -/
theorem resolution_fits (hweight : r.weight ≤ r.total) (budget : Nat) (seed : Seed) :
    (r.resolution budget seed).assignment.Fits r := by
  rw [resolution_eq]
  dsimp only
  split
  · exact fits_found hweight budget seed
  · exact (fits_found hweight budget seed).saturate

/-- **A resolution ends with a majority** if all voters together are one. -/
theorem resolution_majority (hweight : r.weight ≤ r.total) (hmajority : r.half < r.weight)
    (budget : Nat) (seed : Seed) :
    r.half < r.weightOf (r.resolution budget seed).assignment.participants := by
  have hfound : r.half < r.weightOf
      ((r.searched budget seed).found.getD r.fullTurnout).participants := by
    cases hfound : (r.searched budget seed).found with
    | none =>
        rw [Option.getD_none, Assignment.weightOf_fullTurnout]
        exact hmajority
    | some a => exact (searched_answers hweight budget seed).majority a hfound
  rw [resolution_eq]
  dsimp only
  split
  · exact hfound
  · exact Nat.lt_of_lt_of_le hfound (Assignment.weightOf_le_saturate _ r)

/-- What a resolution ends with is worth no less than what was found. -/
theorem foundWorth_le_resolution (hweight : r.weight ≤ r.total) (budget : Nat) (seed : Seed) :
    foundWorth (r.searched budget seed).found ≤ (r.resolution budget seed).assignment.worth := by
  have hfound : foundWorth (r.searched budget seed).found ≤
      ((r.searched budget seed).found.getD r.fullTurnout).worth := by
    cases (r.searched budget seed).found with
    | none => exact Worth.zero_le _
    | some a => exact le_refl _
  rw [resolution_eq]
  dsimp only
  split
  · exact hfound
  · exact le_trans hfound (fits_found hweight budget seed).worth_le_saturate

/-- **An optimal resolution is the best**: no fitting assignment with a
majority is worth more. -/
theorem resolution_covers (hweight : r.weight ≤ r.total)
    (hoptimal : (r.resolution budget seed).optimal = true) {a : Assignment} (ha : a.Fits r)
    (hhalf : r.half < r.weightOf a.participants) :
    a.worth ≤ (r.resolution budget seed).assignment.worth := by
  refine le_trans ?_ (foundWorth_le_resolution hweight budget seed)
  rw [resolution_eq] at hoptimal
  rcases (searched_answers hweight budget seed).covers hoptimal a ha hhalf with
    hlow | ⟨best, hbest, hle⟩
  · exact absurd hlow (not_lt.mpr (Worth.zero_le _))
  · exact le_trans hle (worth_le_foundWorth hbest)

/-! ## Budgets -/

variable {short long : Nat}

theorem leading_overtakes (hweight : r.weight ≤ r.total) (hbudget : short ≤ long) (seed : Seed) :
    (r.leading long seed).Overtakes (r.leading short seed) :=
  search_overtakes hweight hbudget _ _ _

/-- The second search starts alike only if the first one reached the same
worth. -/
theorem following_overtakes (hweight : r.weight ≤ r.total) (hbudget : short ≤ long)
    (hsame : foundWorth (r.leading short seed).found = foundWorth (r.leading long seed).found) :
    (r.following long seed).Overtakes (r.following short seed) := by
  unfold following
  rw [hsame]
  exact search_overtakes hweight hbudget _ _ _

theorem foundWorth_leading_le (r : Reduction) (budget : Nat) (seed : Seed) :
    foundWorth (r.leading budget seed).found ≤ foundWorth (r.searched budget seed).found := by
  unfold searched
  split
  · exact le_refl _
  · dsimp only
    rw [foundWorth_improve]
    exact le_max_left _ _

/-- **What a larger budget finds** is worth no less, as long as it leaves the
worth alone that the first search reaches. -/
theorem foundWorth_searched_le (hweight : r.weight ≤ r.total) (hbudget : short ≤ long)
    (hsame : foundWorth (r.leading short seed).found = foundWorth (r.leading long seed).found) :
    foundWorth (r.searched short seed).found ≤ foundWorth (r.searched long seed).found := by
  by_cases hlong : (r.leading long seed).optimal = true
  · have hanswers : r.Answers .zero (r.leading long seed) := leading_answers hweight long seed
    have hsearched : r.searched long seed = r.leading long seed := if_pos hlong
    rw [hsearched]
    cases hfound : (r.searched short seed).found with
    | none => exact Worth.zero_le _
    | some a =>
        have hshort := searched_answers hweight short seed
        rcases hanswers.covers hlong a (hshort.fits a hfound) (hshort.majority a hfound) with
          hlow | ⟨best, hbest, hle⟩
        · exact absurd hlow (not_lt.mpr (Worth.zero_le _))
        · exact le_trans hle (worth_le_foundWorth hbest)
  · have hshort : (r.leading short seed).optimal ≠ true := fun h =>
      hlong ((leading_overtakes hweight hbudget seed).optimal h ▸ h)
    unfold searched
    rw [if_neg hshort, if_neg hlong]
    dsimp only
    rw [foundWorth_improve, foundWorth_improve]
    exact max_le_max (le_of_eq hsame)
      (following_overtakes hweight hbudget hsame).foundWorth_le

/-- Where the searches find the same, completing it loses nothing. -/
theorem resolution_worth_le_of_found_eq (hweight : r.weight ≤ r.total)
    (hfound : (r.searched short seed).found = (r.searched long seed).found)
    (hlong : (r.resolution long seed).optimal = false) :
    (r.resolution short seed).assignment.worth ≤ (r.resolution long seed).assignment.worth := by
  have hopen : (r.searched long seed).optimal ≠ true := by
    rw [resolution_eq] at hlong
    simpa using hlong
  rw [resolution_eq, resolution_eq, if_neg hopen, hfound]
  dsimp only
  split
  · exact (fits_found hweight long seed).worth_le_saturate
  · exact le_refl _

/-- A larger budget changes nothing about what ended with the first search. -/
theorem resolution_eq_of_leading_optimal (hweight : r.weight ≤ r.total) (hbudget : short ≤ long)
    (hoptimal : (r.leading short seed).optimal = true) :
    r.resolution long seed = r.resolution short seed := by
  have hsame : r.leading long seed = r.leading short seed :=
    (leading_overtakes hweight hbudget seed).optimal hoptimal
  simp only [resolution_eq, searched, hsame, hoptimal, if_true]

end Reduction

end BallotConsensus
