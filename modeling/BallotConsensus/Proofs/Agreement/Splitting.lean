import BallotConsensus.Proofs.Agreement.Budget
import BallotConsensus.Proofs.Reduction.Finer

/-!
# Splitting gains nothing

A voter that sends its ballot several times over, with its weight shared out
among the copies, has the influence it had before, and so has an attestation
whose fee is shared out among copies that the same voters confirm.  The outcome
of such a round is the outcome of the round as it was: every copy gets the flag
of its original, and worth and optimality stay.  This holds for every budget and
every seed, so also where the search is broken off: the searches of both rounds
take the same decisions.

* `Splits` — amounts shared out among parts;
* `Reduction.ofRound_finer` — a round told in finer parts reduces alike;
* `Agreement.reach_finer` — and its outcome is the same, told in finer parts;
* `Agreement.reach_split` — **splitting gains nothing.**
-/

namespace BallotConsensus

variable {votes votes' : List WeightedBallot} {fees fees' : List Nat} {total : Nat}
  {voterOf attestationOf : List Nat}

/-! ## Amounts in parts -/

/-- **Amounts shared out.**  Entry `v` of `origin` is the position of the amount
that part `v` belongs to. -/
structure Splits (origin parts wholes : List Nat) : Prop where
  length_eq : origin.length = parts.length
  /-- Every amount has parts, and the first of them stand in the order of the
  amounts. -/
  firsts : origin.eraseDups = List.range wholes.length
  /-- The parts of an amount add up to it. -/
  sums : ∀ x < wholes.length,
    (Flags.select parts (origin.map (· == x))).sum = wholes.getD x 0

/-- Every amount is a part of itself. -/
theorem Splits.refl (amounts : List Nat) :
    Splits (List.range amounts.length) amounts amounts where
  length_eq := List.length_range
  firsts := eraseDups_of_nodup List.nodup_range
  sums := by
    intro x hx
    have hshare := Flags.sum_select_once List.nodup_range (List.mem_range.mpr hx) (amounts.getD · 0)
    rwa [Flags.map_getD_range rfl] at hshare

/-- **A part can hand over a share** to a new part that stands anywhere behind
it.  Done over and over, from amounts that are parts of themselves, this splits
any of them into any number of parts. -/
theorem Splits.share {o₁ o₂ o₃ p₁ p₂ p₃ wholes : List Nat} {x rest share : Nat}
    (h : Splits (o₁ ++ x :: o₂ ++ o₃) (p₁ ++ (rest + share) :: p₂ ++ p₃) wholes)
    (h₁ : o₁.length = p₁.length) (h₂ : o₂.length = p₂.length) :
    Splits (o₁ ++ x :: o₂ ++ x :: o₃) (p₁ ++ rest :: p₂ ++ share :: p₃) wholes where
  length_eq := by
    have := h.length_eq
    simp only [List.length_append, List.length_cons] at this ⊢
    omega
  firsts := by
    have hseen : (x :: o₃).removeAll (o₁ ++ x :: o₂) = o₃.removeAll (o₁ ++ x :: o₂) := by
      simp [List.removeAll]
    rw [List.eraseDups_append, hseen, ← List.eraseDups_append]
    exact h.firsts
  sums := by
    intro y hy
    have hsum := h.sums y hy
    simp only [List.map_append, List.map_cons, Flags.select_append, Flags.select_cons, h₁, h₂,
      List.length_append, List.length_map, List.length_cons] at hsum ⊢
    rw [← hsum]
    cases x == y with
    | false => simp only [Bool.false_eq_true, if_false]
    | true =>
        simp only [if_true, List.sum_append, List.sum_cons]
        omega

/-- Entries that are listed by position are split as their amounts are. -/
theorem Splits.toParts {α : Type} {position amount : α → Nat} {origin : List Nat}
    {parts wholes : List α} {m n : Nat}
    (h : Splits origin (parts.map amount) (wholes.map amount))
    (hparts : parts.map position = List.range m) (hwholes : wholes.map position = List.range n) :
    Parts position amount origin parts wholes := by
  have hm : origin.length = m := by
    rw [h.length_eq, List.length_map, ← List.length_map position, hparts, List.length_range]
  have hn : wholes.length = n := by
    rw [← List.length_map position, hwholes, List.length_range]
  refine .of_origin (by rw [hparts, hm]) ?_ fun x hx => ?_
  · rw [h.firsts, hwholes, List.length_map, hn]
  · obtain ⟨i, hi, rfl⟩ := List.mem_iff_getElem.mp hx
    have hposition : position wholes[i] = i := by
      have := congrArg (·[i]?) hwholes
      simpa [hi, ← hn] using this
    rw [hposition, h.sums i (by simpa using hi)]
    simp [hi]

namespace Splits

variable {origin parts wholes : List Nat}

theorem lt_of_mem (h : Splits origin parts wholes) {x : Nat} (hx : x ∈ origin) :
    x < wholes.length := by
  rw [← List.mem_eraseDups, h.firsts] at hx
  exact List.mem_range.mp hx

/-- Only nothing is split into nothing. -/
theorem eq_nil_iff (h : Splits origin parts wholes) : parts = [] ↔ wholes = [] := by
  rw [← List.length_eq_zero_iff, ← h.length_eq, List.length_eq_zero_iff]
  constructor
  · intro horigin
    have := h.firsts
    rw [horigin, List.eraseDups_nil] at this
    exact List.length_eq_zero_iff.mp (List.range_eq_nil.mp this.symm)
  · intro hwholes
    rw [List.eq_nil_iff_forall_not_mem]
    intro x hx
    have := h.lt_of_mem hx
    simp [hwholes] at this

end Splits

/-! ## Rounds in parts -/

/-- Voters of a round are split as their weights are. -/
theorem Splits.voterParts (h : Splits voterOf (votes'.map (·.weight)) (votes.map (·.weight)))
    (fees fees' : List Nat) :
    Parts Voter.position (·.vote.weight) voterOf (Standing.start votes' fees').voters
      (Standing.start votes fees).voters := by
  refine Splits.toParts ?_ (Standing.start_voter_positions votes' fees')
    (Standing.start_voter_positions votes fees)
  rwa [Standing.start_voter_weights, Standing.start_voter_weights]

/-- Attestations of a round are split as their fees are. -/
theorem Splits.attestationParts (h : Splits attestationOf fees' fees)
    (votes votes' : List WeightedBallot) :
    Parts Attestation.position Attestation.fee attestationOf
      (Standing.start votes' fees').attestations (Standing.start votes fees).attestations := by
  refine Splits.toParts ?_ (Standing.start_attestation_positions votes' fees')
    (Standing.start_attestation_positions votes fees)
  rwa [Standing.start_attestation_fees, Standing.start_attestation_fees]

/-- **A round told in finer parts reduces alike.**  Attestations without a
majority need not have parts. -/
theorem Reduction.ofRound_finer (keep : Attestation → Bool)
    (hkeep : ∀ a ∈ (Standing.start votes fees).kept (total / 2), keep a = true)
    (hvoters : Parts Voter.position (·.vote.weight) voterOf
      (Standing.start votes' fees').voters (Standing.start votes fees).voters)
    (hattestations : Parts Attestation.position Attestation.fee attestationOf
      (Standing.start votes' fees').attestations
      ((Standing.start votes fees).attestations.filter keep))
    (hconfirms : ∀ v < votes'.length, ∀ x < fees'.length,
      (ConfirmsAt votes' v x ↔
        ConfirmsAt votes (voterOf.getD v 0) (attestationOf.getD x 0))) :
    (ofRound votes' fees' total).Finer (ofRound votes fees total) voterOf attestationOf := by
  have hstart : (Standing.start votes' fees').Finer
      { Standing.start votes fees with
        attestations := (Standing.start votes fees).attestations.filter keep }
      voterOf attestationOf := by
    refine ⟨hvoters, hattestations, ?_, rfl, rfl, .nil _, .nil _⟩
    intro a' ha' a _ hsame v' hv' v hv heq
    have hvoter : v ∈ (Standing.start votes fees).voters := hv
    have hv'lt := (List.getElem?_eq_some_iff.mp (Standing.mem_start_voters hv')).1
    have ha'lt := (List.getElem?_eq_some_iff.mp (Standing.mem_start_attestations ha')).1
    rw [Bool.eq_iff_iff, ← Standing.confirmsAt_of_mem hv' a', ← Standing.confirmsAt_of_mem hvoter a,
      ← heq, ← hsame]
    exact hconfirms _ hv'lt _ ha'lt
  obtain ⟨excluded, hpass⟩ := Standing.pass_filter hkeep
  have hfiner := hstart.pass (total / 2)
  rw [hpass] at hfiner
  have hdropped : ((Standing.start votes' fees').pass (total / 2)).Finer
      ((Standing.start votes fees).pass (total / 2)) voterOf attestationOf :=
    ⟨hfiner.voters, hfiner.attestations, hfiner.confirms, hfiner.settled_weight,
      hfiner.settled_fees, hfiner.participants, hfiner.included⟩
  rw [ofRound, ofRound, Standing.settle_eq_pass, Standing.settle_eq_pass]
  exact hdropped.reduce total

/-- An outcome told in finer parts: every part has the flag of its whole. -/
def Outcome.inParts (o : Outcome) (voterOf attestationOf : List Nat) : Outcome :=
  { o with
    participants := Flags.inOrder voterOf o.participants
    included := Flags.inOrder attestationOf o.included }

namespace Reduction.Finer

variable {fine coarse : Reduction}

/-- The searches of a reduction in finer parts are the same. -/
theorem resolution_eq (h : fine.Finer coarse voterOf attestationOf) (budget : Nat) (seed : Seed) :
    fine.resolution budget seed = coarse.resolution budget seed := by
  rw [← resolution_unnamed, h.unnamed_eq, resolution_unnamed]

/-- An assignment stands for the same outcome, told in finer parts. -/
theorem expand_eq (h : fine.Finer coarse voterOf attestationOf) {voters attestations : Nat}
    (hvoters : ∀ v ∈ voterOf, v < voters) (hattestations : ∀ x ∈ attestationOf, x < attestations)
    (a : Assignment) (optimal : Bool) :
    Outcome.expand voterOf.length attestationOf.length fine a optimal =
      (Outcome.expand voters attestations coarse a optimal).inParts voterOf attestationOf := by
  have hparticipants := h.participants.append (Traces.membersOf h.voters a.participants)
  have hincluded := h.included.append (Traces.membersOf h.attestations a.included)
  simp only [Outcome.expand, Outcome.inParts, hparticipants.ofPositions_eq hvoters,
    hincluded.ofPositions_eq hattestations]

end Reduction.Finer

namespace Agreement

/-- **The outcome of a round told in finer parts** is the outcome of the round,
told in finer parts. -/
theorem reach_finer (hmet : Contract.Met votes fees total)
    (hmet' : Contract.Met votes' fees' total) (hvotes : votes' = [] ↔ votes = [])
    (hfees : fees' = [] ↔ fees = []) (hvoterCount : voterOf.length = votes'.length)
    (hattestationCount : attestationOf.length = fees'.length)
    (hvoterOf : ∀ v ∈ voterOf, v < votes.length)
    (hattestationOf : ∀ x ∈ attestationOf, x < fees.length)
    (h : (Reduction.ofRound votes' fees' total).Finer (Reduction.ofRound votes fees total)
      voterOf attestationOf) (budget : Nat) (seed : Seed) :
    ∃ before after, reach votes fees total budget seed = .ok before ∧
      reach votes' fees' total budget seed = .ok after ∧
      after.outcome = before.outcome.inParts voterOf attestationOf := by
  by_cases hempty : votes = [] ∨ fees = []
  · have hempty' : votes' = [] ∨ fees' = [] := hempty.imp hvotes.mpr hfees.mpr
    refine ⟨_, _, reach_nothing hmet hempty budget seed, reach_nothing hmet' hempty' budget seed, ?_⟩
    simp [outcome, Outcome.nothing, Outcome.inParts, Flags.inOrder_replicate_false, hvoterCount,
      hattestationCount]
  · rw [not_or] at hempty
    refine ⟨_, _, reach_searched hmet hempty.1 hempty.2 budget seed,
      reach_searched hmet' (mt hvotes.mp hempty.1) (mt hfees.mp hempty.2) budget seed, ?_⟩
    simp only [outcome, h.resolution_eq, ← hvoterCount, ← hattestationCount]
    exact h.expand_eq hvoterOf hattestationOf _ _

/-- **Splitting gains nothing.**  Voters may share their weight out among any
number of copies that vote alike, and attestations their fee among copies that
the same voters confirm; the first copy stands in the place of its original, the
others anywhere behind.  Whatever the budget and the seed, every copy of a voter
participates if its original did, every copy of an attestation is included if its
original was, and worth and optimality are the same. -/
theorem reach_split (hmet : Contract.Met votes fees total)
    (hvoters : Splits voterOf (votes'.map (·.weight)) (votes.map (·.weight)))
    (hattestations : Splits attestationOf fees' fees)
    (hfees : fees'.length ≤ ballotCapacity)
    (hballots : ∀ vote ∈ votes', vote.ballot.length = fees'.length)
    (hconfirms : ∀ v < votes'.length, ∀ x < fees'.length,
      (ConfirmsAt votes' v x ↔
        ConfirmsAt votes (voterOf.getD v 0) (attestationOf.getD x 0)))
    (budget : Nat) (seed : Seed) :
    ∃ before after, reach votes fees total budget seed = .ok before ∧
      reach votes' fees' total budget seed = .ok after ∧
      after.outcome.participants = Flags.inOrder voterOf before.outcome.participants ∧
      after.outcome.included = Flags.inOrder attestationOf before.outcome.included ∧
      after.outcome.worth = before.outcome.worth ∧
      after.outcome.optimal = before.outcome.optimal := by
  have hvoterParts := hvoters.voterParts fees fees'
  have hattestationParts := hattestations.attestationParts votes votes'
  have hmet' : Contract.Met votes' fees' total := by
    refine ⟨hfees, hballots, ?_⟩
    have hsum := hvoterParts.sum_eq
    rw [Standing.start_voter_weights, Standing.start_voter_weights] at hsum
    exact hsum ▸ hmet.weight_le
  have hfiner : (Reduction.ofRound votes' fees' total).Finer (Reduction.ofRound votes fees total)
      voterOf attestationOf := by
    refine Reduction.ofRound_finer (fun _ => true) (fun _ _ => rfl) hvoterParts ?_ hconfirms
    rwa [List.filter_true]
  have hvotes : votes' = [] ↔ votes = [] := by simpa using hvoters.eq_nil_iff
  obtain ⟨before, after, hbefore, hafter, houtcome⟩ := reach_finer hmet hmet' hvotes
    hattestations.eq_nil_iff (by simpa using hvoters.length_eq) hattestations.length_eq
    (fun v hv => by simpa using hvoters.lt_of_mem hv) (fun x hx => hattestations.lt_of_mem hx)
    hfiner budget seed
  refine ⟨before, after, hbefore, hafter, ?_⟩
  rw [houtcome]
  exact ⟨rfl, rfl, rfl, rfl⟩

/-- The voters of `nestedVotes` in parts: three of the first, one of the second
and two of the third, with two copies of either attestation. -/
def splitNestedVotes : List WeightedBallot :=
  [⟨0, 1, ⟨4, 0b1111, by decide, by decide⟩, Nat.one_pos⟩,
    ⟨1, 1, ⟨4, 0b0110, by decide, by decide⟩, Nat.one_pos⟩,
    ⟨2, 2, ⟨4, 0b1111, by decide, by decide⟩, Nat.two_pos⟩,
    ⟨3, 1, ⟨4, 0b0000, by decide, by decide⟩, Nat.one_pos⟩,
    ⟨4, 2, ⟨4, 0b1111, by decide, by decide⟩, Nat.two_pos⟩,
    ⟨5, 1, ⟨4, 0b0000, by decide, by decide⟩, Nat.one_pos⟩]

theorem reach_split_of_nested :
    Contract.Met nestedVotes [5, 5] 8 ∧
      ∃ before after, reach nestedVotes [5, 5] 8 3 (.ofNumber 0) = .ok before ∧
        reach splitNestedVotes [2, 5, 0, 3] 8 3 (.ofNumber 0) = .ok after ∧
        after.outcome.participants =
          Flags.inOrder [0, 1, 0, 2, 0, 2] before.outcome.participants ∧
        after.outcome.included = Flags.inOrder [0, 1, 1, 0] before.outcome.included ∧
        after.outcome.worth = before.outcome.worth ∧
        after.outcome.optimal = before.outcome.optimal := by
  have hvoters : Splits [0, 1, 0, 2, 0, 2] (splitNestedVotes.map (·.weight))
      (nestedVotes.map (·.weight)) := ⟨rfl, by decide, by decide⟩
  have hfirst : Splits [0, 1, 0] [2, 5, 3] [5, 5] :=
    @Splits.share [] [1] [] [] [5] [] _ 0 2 3 (.refl [5, 5]) rfl rfl
  have hattestations : Splits [0, 1, 1, 0] [2, 5, 0, 3] [5, 5] :=
    @Splits.share [0] [] [0] [2] [] [3] _ 1 5 0 hfirst rfl rfl
  obtain ⟨before, after, hreach⟩ :=
    reach_split nestedVotes_met hvoters hattestations (by decide) (by decide) (by decide) 3
      (.ofNumber 0)
  exact ⟨nestedVotes_met, before, after, hreach⟩

end Agreement

end BallotConsensus
