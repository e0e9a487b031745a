import BallotConsensus.Proofs.Round

/-!
# What the check of a round lets through

The fees and the lengths of the ballots are checked for what they are.  The weight
is not: it is counted in words, and a sum that no word can hold is counted as the
largest one.  That is still more than any smaller total weight.  But if the total
weight is itself the largest word, nothing that is counted exceeds it, and the
check lets through whatever the voters weigh.

* `Contract.reportedWeight_eq_foldl` — the reported weight, counted voter by
  voter;
* `Contract.Refuses`, `Contract.check_eq_error_iff` — **what the check refuses**,
  and which error comes first;
* `Contract.check_eq_ok_iff` — **what the check accepts**;
* `Contract.check_accepts_overweight` — voters that outweigh everybody and pass.
-/

namespace BallotConsensus.Contract

variable {votes : List WeightedBallot} {fees : List Nat} {total : Nat}

/-! ## The reported weight -/

/-- Counting stops at the largest weight, wherever it starts. -/
theorem foldl_capped (weights : List Nat) {start : Nat} (hstart : start ≤ largestWeight) :
    weights.foldl (fun sum weight => min largestWeight (sum + weight)) start =
      min largestWeight (start + weights.sum) := by
  induction weights generalizing start with
  | nil => simp [hstart]
  | cons weight weights ih =>
      rw [List.foldl_cons, ih (Nat.min_le_left _ _), List.sum_cons]
      omega

/-- The reported weight is counted voter by voter, and never beyond the largest
weight. -/
theorem reportedWeight_eq_foldl (votes : List WeightedBallot) :
    reportedWeight votes =
      (votes.map (·.weight)).foldl (fun sum weight => min largestWeight (sum + weight)) 0 := by
  rw [foldl_capped _ (Nat.zero_le _), Nat.zero_add, reportedWeight]

theorem lt_reportedWeight_iff :
    total < reportedWeight votes ↔ total < largestWeight ∧ total < (votes.map (·.weight)).sum := by
  rw [reportedWeight]
  omega

/-! ## What is refused and what is accepted -/

/-- **Why a round is refused**: the first of the three tests that it fails. -/
inductive Refuses (votes : List WeightedBallot) (fees : List Nat) (total : Nat) :
    ContractError → Prop
  | tooManyAttestations : ballotCapacity < fees.length →
      Refuses votes fees total (.tooManyAttestations fees.length)
  | lengthMismatch {before after : List WeightedBallot} {vote : WeightedBallot} :
      fees.length ≤ ballotCapacity → votes = before ++ vote :: after →
      (∀ earlier ∈ before, earlier.ballot.length = fees.length) →
      vote.ballot.length ≠ fees.length →
      Refuses votes fees total (.lengthMismatch vote.voter vote.ballot.length fees.length)
  | weightExceedsTotal : fees.length ≤ ballotCapacity →
      (∀ vote ∈ votes, vote.ballot.length = fees.length) →
      total < (votes.map (·.weight)).sum → total < largestWeight →
      Refuses votes fees total (.weightExceedsTotal (reportedWeight votes) total)

/-- **What a round passes the check with.** -/
structure Passes (votes : List WeightedBallot) (fees : List Nat) (total : Nat) : Prop where
  fees_le : fees.length ≤ ballotCapacity
  length_eq : ∀ vote ∈ votes, vote.ballot.length = fees.length
  /-- The voters weigh no more than everybody, or everybody weighs as much as can
  be counted. -/
  weight_le : (votes.map (·.weight)).sum ≤ total ∨ largestWeight ≤ total

/-- No ballot of another length is found among ballots of the right one. -/
theorem find?_eq_none_iff : (votes.find? fun vote => vote.ballot.length != fees.length) = none ↔
    ∀ vote ∈ votes, vote.ballot.length = fees.length := by
  simp [List.find?_eq_none]

theorem check_of_refuses {error : ContractError} (h : Refuses votes fees total error) :
    check votes fees total = .error error := by
  cases h with
  | tooManyAttestations hfees => exact if_pos hfees
  | @lengthMismatch before after vote hfees hvotes hearlier hvote =>
      have hfind : (votes.find? fun vote => vote.ballot.length != fees.length) = some vote := by
        rw [List.find?_eq_some_iff_append]
        exact ⟨by simpa using hvote, before, after, hvotes, by simpa using hearlier⟩
      rw [check, if_neg (Nat.not_lt.mpr hfees), hfind]
  | weightExceedsTotal hfees hlengths hweight htotal =>
      rw [check, if_neg (Nat.not_lt.mpr hfees), find?_eq_none_iff.mpr hlengths]
      exact if_pos (lt_reportedWeight_iff.mpr ⟨htotal, hweight⟩)

theorem Passes.check_eq_ok (h : Passes votes fees total) : check votes fees total = .ok () := by
  rw [check, if_neg (Nat.not_lt.mpr h.fees_le), find?_eq_none_iff.mpr h.length_eq]
  refine if_neg fun hreported => ?_
  obtain ⟨htotal, hweight⟩ := lt_reportedWeight_iff.mp hreported
  rcases h.weight_le with hle | hle
  · exact absurd hle (Nat.not_le.mpr hweight)
  · exact absurd hle (Nat.not_le.mpr htotal)

/-- The three tests leave nothing over. -/
theorem passes_or_refuses (votes : List WeightedBallot) (fees : List Nat) (total : Nat) :
    Passes votes fees total ∨ ∃ error, Refuses votes fees total error := by
  rcases Nat.lt_or_ge ballotCapacity fees.length with hfees | hfees
  · exact Or.inr ⟨_, .tooManyAttestations hfees⟩
  · cases hfind : votes.find? fun vote => vote.ballot.length != fees.length with
    | some vote =>
        rw [List.find?_eq_some_iff_append] at hfind
        obtain ⟨hvote, before, after, hvotes, hearlier⟩ := hfind
        exact Or.inr ⟨_, .lengthMismatch hfees hvotes (by simpa using hearlier)
          (by simpa using hvote)⟩
    | none =>
        have hlengths := find?_eq_none_iff.mp hfind
        by_cases hweight : (votes.map (·.weight)).sum ≤ total ∨ largestWeight ≤ total
        · exact Or.inl ⟨hfees, hlengths, hweight⟩
        · rw [not_or, Nat.not_le, Nat.not_le] at hweight
          exact Or.inr ⟨_, .weightExceedsTotal hfees hlengths hweight.1 hweight.2⟩

/-- **What the check refuses.** -/
theorem check_eq_error_iff {error : ContractError} :
    check votes fees total = .error error ↔ Refuses votes fees total error := by
  refine ⟨fun hcheck => ?_, check_of_refuses⟩
  rcases passes_or_refuses votes fees total with hpasses | ⟨other, hother⟩
  · rw [hpasses.check_eq_ok] at hcheck
    cases hcheck
  · rw [check_of_refuses hother] at hcheck
    cases hcheck
    exact hother

/-- **What the check accepts.**  A round passes exactly if its fees fit into a
ballot, all ballots have their length, and the voters weigh no more than everybody
or the total weight is as large as a weight can be. -/
theorem check_eq_ok_iff : check votes fees total = .ok () ↔
    fees.length ≤ ballotCapacity ∧ (∀ vote ∈ votes, vote.ballot.length = fees.length) ∧
      ((votes.map (·.weight)).sum ≤ total ∨ largestWeight ≤ total) := by
  constructor
  · intro hcheck
    rcases passes_or_refuses votes fees total with hpasses | ⟨error, herror⟩
    · exact ⟨hpasses.fees_le, hpasses.length_eq, hpasses.weight_le⟩
    · rw [check_of_refuses herror] at hcheck
      cases hcheck
  · intro hpasses
    obtain ⟨hfees, hlengths, hweight⟩ := hpasses
    exact Passes.check_eq_ok ⟨hfees, hlengths, hweight⟩

/-- Two voters that weigh more together than can be counted. -/
def heavyVotes : List WeightedBallot :=
  [⟨0, largestWeight, ⟨1, 1, by decide, by decide⟩, by decide⟩,
    ⟨1, 1, ⟨1, 1, by decide, by decide⟩, Nat.one_pos⟩]

/-- Voters that outweigh everybody pass if the total weight is the largest one:
the check does not accept exactly the rounds that meet the contract. -/
theorem check_accepts_overweight :
    (∀ vote ∈ heavyVotes, vote.weight ≤ largestWeight) ∧
      check heavyVotes [1] largestWeight = .ok () ∧
      largestWeight < (heavyVotes.map (·.weight)).sum ∧
      ¬ (check heavyVotes [1] largestWeight = .ok () ↔ Met heavyVotes [1] largestWeight) := by
  have hcheck : check heavyVotes [1] largestWeight = .ok () := by decide
  have hweight : largestWeight < (heavyVotes.map (·.weight)).sum := by decide
  refine ⟨by decide, hcheck, hweight, fun hiff => ?_⟩
  exact absurd (hiff.mp hcheck).weight_le (Nat.not_le.mpr hweight)

end BallotConsensus.Contract
