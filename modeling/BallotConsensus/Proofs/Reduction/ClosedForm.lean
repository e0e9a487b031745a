import Mathlib.Data.List.Sort
import Mathlib.Logic.Function.Iterate
import BallotConsensus.Proofs.Reduction.Representation

/-!
# What settling settles

Settling repeats passes over a round, but its result can be read off the votes
at once.  Excluded is what no majority confirms.  Whoever confirms everything
else participates, and whatever else is confirmed by everybody is included.
All other voters and attestations stay open, and neither stay open without the
other: an undecided voter has something that it does not confirm, and what is
contested has somebody that does not confirm it.

A pass makes its lists by filtering, so they keep the order of the positions
and never have to be sorted.

* `Standing.Balanced` — the result of settling, said of the votes alone;
* `Standing.balanced_pass` — one pass over a round has that result;
* `Standing.settle_start_balanced` — **settling a round ends after one pass,
  in closed form.**
-/

namespace BallotConsensus

/-- Positions that are listed in order are known by which ones they are. -/
theorem eq_filter_range {positions : List Nat} {n : Nat}
    (hsub : positions.Sublist (List.range n)) {p : Nat → Bool}
    (h : ∀ i, i < n → (i ∈ positions ↔ p i = true)) : positions = (List.range n).filter p := by
  refine (List.pairwise_lt_range.sublist hsub).eq_of_mem_iff
    (List.pairwise_lt_range.filter _) fun i => ?_
  rw [List.mem_filter, List.mem_range]
  constructor
  · intro hi
    have hlt := List.mem_range.mp (hsub.subset hi)
    exact ⟨hlt, (h i hlt).mp hi⟩
  · intro hi
    exact (h i hi.1).mpr hi.2

/-- Of two lists that share out all positions, one holds what the other does
not. -/
theorem mem_iff_not_mem_of_shared {first second : List Nat} {n i : Nat}
    (h : (first ++ second).Perm (List.range n)) (hi : i < n) : i ∈ second ↔ i ∉ first := by
  have hdisjoint := List.disjoint_of_nodup_append (h.nodup_iff.mpr List.nodup_range)
  have hmem := List.mem_append.mp (h.mem_iff.mpr (List.mem_range.mpr hi))
  exact ⟨fun hsecond hfirst => hdisjoint hfirst hsecond, fun hfirst => hmem.resolve_left hfirst⟩

variable {votes : List WeightedBallot} {fees : List Nat} {half : Nat}

namespace Standing

/-- **What settling a round has to end with.** -/
structure Balanced (s : Standing) (votes : List WeightedBallot) (fees : List Nat)
    (half : Nat) : Prop where
  /-- Excluded is what no majority confirms. -/
  excluded_eq : s.settled.excluded =
    (List.range fees.length).filter fun a => decide (backing votes {a} ≤ half)
  /-- Whoever confirms everything else participates. -/
  participants_eq : s.settled.participants = (List.range votes.length).filter fun v =>
    decide (∀ a, a < fees.length → a ∉ s.settled.excluded → ConfirmsAt votes v a)
  /-- Whatever else everybody confirms is included. -/
  included_eq : s.settled.included = (List.range fees.length).filter fun a =>
    decide (a ∉ s.settled.excluded ∧ ∀ v, v < votes.length → ConfirmsAt votes v a)
  weight_eq : s.settled.weight = (s.settled.participants.map (weightAt votes)).sum
  fees_eq : s.settled.fees = (s.settled.included.map (fees.getD · 0)).sum
  /-- All other voters stay open, with their votes … -/
  voters_eq : s.voters.map (·.position) =
    (List.range votes.length).filter fun v => decide (v ∉ s.settled.participants)
  votes_at : ∀ v ∈ s.voters, votes[v.position]? = some v.vote
  /-- … and so do all other attestations, with their fees. -/
  attestations_eq : s.attestations.map (·.position) = (List.range fees.length).filter fun a =>
    decide (a ∉ s.settled.included ∧ a ∉ s.settled.excluded)
  fees_at : ∀ a ∈ s.attestations, fees[a.position]? = some a.fee
  /-- Nobody stays open without something open, nor the other way round. -/
  open_together : s.voters = [] ↔ s.attestations = []

/-- Voters that pass a test stay in order. -/
theorem voter_positions_sublist (p : Voter → Bool) :
    (((start votes fees).voters.filter p).map (·.position)).Sublist (List.range votes.length) :=
  start_voter_positions votes fees ▸ List.filter_sublist.map _

/-- Attestations that pass a test stay in order. -/
theorem attestation_positions_sublist (p : Attestation → Bool) :
    (((start votes fees).attestations.filter p).map (·.position)).Sublist
      (List.range fees.length) :=
  start_attestation_positions votes fees ▸ List.filter_sublist.map _

/-- After a pass, nobody stays open without something open, nor the other way
round. -/
theorem open_together_pass (s : Standing) (half : Nat) :
    (s.pass half).voters = [] ↔ (s.pass half).attestations = [] := by
  simp only [List.eq_nil_iff_forall_not_mem]
  constructor
  · intro hnobody a ha
    obtain ⟨v, hv, -⟩ := exists_unconfirming_pass ha
    exact hnobody v hv
  · intro hnothing v hv
    obtain ⟨a, ha, -⟩ := exists_unconfirmed_pass hv
    exact hnothing a ha

/-- **One pass over a round settles what there is to settle.** -/
theorem balanced_pass (votes : List WeightedBallot) (fees : List Nat) (half : Nat) :
    ((start votes fees).pass half).Balanced votes fees half where
  excluded_eq := by
    refine eq_filter_range ?_ fun a ha => (mem_excluded_start ha).trans (by simp)
    rw [settled_start]
    exact attestation_positions_sublist _
  participants_eq := by
    refine eq_filter_range ?_ fun v hv => (mem_participants_start hv).trans ?_
    · rw [settled_start]
      exact voter_positions_sublist _
    · rw [decide_eq_true_eq]
      refine forall₂_congr fun a ha => ?_
      rw [mem_excluded_start ha, Nat.not_le]
  included_eq := by
    refine eq_filter_range ?_ fun a ha => (mem_included_start ha).trans ?_
    · rw [settled_start]
      exact (List.filter_sublist.map _).trans (attestation_positions_sublist _)
    · rw [decide_eq_true_eq, mem_excluded_start ha, Nat.not_le]
  weight_eq := settled_weight_start
  fees_eq := settled_fees_start
  voters_eq := by
    refine eq_filter_range ?_ fun v hv => ?_
    · rw [pass_eq]
      exact voter_positions_sublist _
    · rw [decide_eq_true_eq]
      exact mem_iff_not_mem_of_shared voter_positions_perm hv
  votes_at v hv := mem_start_voters (mem_start_of_undecided hv)
  attestations_eq := by
    refine eq_filter_range ?_ fun a ha => ?_
    · rw [pass_eq]
      exact (List.filter_sublist.map _).trans (attestation_positions_sublist _)
    · have hperm := @attestation_positions_perm votes fees half
      rw [decide_eq_true_eq, ← not_or, ← List.mem_append]
      refine mem_iff_not_mem_of_shared (List.Perm.trans ?_ hperm) ha
      rw [List.append_assoc, List.append_assoc]
      exact List.perm_append_comm.append_left _
  fees_at a ha := mem_start_attestations (mem_start_of_contested ha)
  open_together := open_together_pass _ half

/-- A second pass changes nothing. -/
theorem pass_pass (s : Standing) (half : Nat) : (s.pass half).pass half = s.pass half := by
  refine pass_eq_self ?_
  rw [openCount, openCount, pass_eq (s.pass half), undecided_pass, contested_pass]

/-- Nor does any later one. -/
theorem iterate_pass (s : Standing) (half n : Nat) :
    (pass · half)^[n + 1] s = s.pass half := by
  induction n with
  | zero => rfl
  | succ n ih => rw [Function.iterate_succ_apply', ih, pass_pass]

/-- The positions that a standing lists: who participates, what is included and
excluded, and what is open. -/
def positionLists (s : Standing) : List (List Nat) :=
  [s.settled.participants, s.settled.included, s.settled.excluded,
    s.voters.map (·.position), s.attestations.map (·.position)]

/-- **No list has to be sorted.** -/
theorem Balanced.ascending {s : Standing} (h : s.Balanced votes fees half) :
    ∀ positions ∈ s.positionLists, positions.Pairwise (· < ·) := by
  have hfilter : ∀ (n : Nat) (p : Nat → Bool), ((List.range n).filter p).Pairwise (· < ·) :=
    fun n p => List.pairwise_lt_range.filter p
  intro positions hpositions
  simp only [positionLists, List.mem_cons, List.not_mem_nil, or_false] at hpositions
  rcases hpositions with rfl | rfl | rfl | rfl | rfl
  · exact h.participants_eq ▸ hfilter _ _
  · exact h.included_eq ▸ hfilter _ _
  · exact h.excluded_eq ▸ hfilter _ _
  · exact h.voters_eq ▸ hfilter _ _
  · exact h.attestations_eq ▸ hfilter _ _

/-- **Settling a round, in closed form.**  Its result can be read off the votes,
lists all positions in order, and is reached by one pass and kept by all passes
after it. -/
theorem settle_start_balanced (votes : List WeightedBallot) (fees : List Nat) (total : Nat) :
    ((start votes fees).settle (total / 2)).Balanced votes fees (total / 2) ∧
      (∀ positions ∈ ((start votes fees).settle (total / 2)).positionLists,
        positions.Pairwise (· < ·)) ∧
      ∀ n, (pass · (total / 2))^[n + 1] (start votes fees) =
        (start votes fees).settle (total / 2) := by
  rw [settle_eq_pass]
  have hbalanced := balanced_pass votes fees (total / 2)
  exact ⟨hbalanced, hbalanced.ascending, iterate_pass _ _⟩

end Standing

end BallotConsensus
