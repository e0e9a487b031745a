import Mathlib.Algebra.Order.BigOperators.Group.Finset
import Mathlib.Data.Set.Finite.Lemmas
import Mathlib.Order.Bounds.Defs
import BallotConsensus.Contract
import BallotConsensus.Proofs.Flags
import BallotConsensus.Proofs.Worth

/-!
# What a round could agree on

The reference against which every computed outcome is measured, said of the
votes and fees of a round and of nothing else.  A round can agree on any set
of attestations whose **backing**, the voters that confirm all of it, weighs
more than half of the total weight; such a set is worth its fees times its
backing.

* `Contract.Met` — the rounds that the computation is made for, and
  `Contract.Met.check_eq_ok`: all of them pass the check;
* `backing`, `feesOver`, `Carried`, `worthOver` — sets of attestations;
* `attainable` — the worths of everything a round could agree on, and
  `exists_isGreatest_attainable`: one of them is the greatest.
-/

namespace BallotConsensus

/-- **The contract of a round.**  There are not too many fees, every ballot
covers exactly the attestations that have fees, and the voters together do
not weigh more than everybody. -/
structure Contract.Met (votes : List WeightedBallot) (fees : List Nat) (total : Nat) : Prop where
  fees_le : fees.length ≤ ballotCapacity
  length_eq : ∀ vote ∈ votes, vote.ballot.length = fees.length
  weight_le : (votes.map (·.weight)).sum ≤ total

theorem Contract.Met.check_eq_ok {votes : List WeightedBallot} {fees : List Nat} {total : Nat}
    (h : Contract.Met votes fees total) : Contract.check votes fees total = .ok () := by
  have hlength : (votes.find? fun vote => vote.ballot.length != fees.length) = none := by
    rw [List.find?_eq_none]
    intro vote hvote
    simp [h.length_eq vote hvote]
  have hreported : ¬ total < Contract.reportedWeight votes := by
    have := h.weight_le
    unfold Contract.reportedWeight
    omega
  rw [Contract.check, if_neg (Nat.not_lt.mpr h.fees_le), hlength]
  exact if_neg hreported

/-- The weight of all voters that confirm every attestation of a set. -/
def backing (votes : List WeightedBallot) (chosen : Finset Nat) : Nat :=
  ((votes.filter fun vote => decide (∀ a ∈ chosen, vote.confirms a = true)).map (·.weight)).sum

/-- The fees of a set of attestations. -/
def feesOver (fees : List Nat) (chosen : Finset Nat) : Nat := ∑ a ∈ chosen, fees.getD a 0

/-- A set of attestations of a round that a majority confirms. -/
structure Carried (votes : List WeightedBallot) (fees : List Nat) (total : Nat)
    (chosen : Finset Nat) : Prop where
  subset : chosen ⊆ Finset.range fees.length
  majority : total / 2 < backing votes chosen

/-- The worth of a set of attestations, backed by all who confirm it. -/
def worthOver (votes : List WeightedBallot) (fees : List Nat) (total : Nat)
    (chosen : Finset Nat) : Worth :=
  Worth.of (feesOver fees chosen) (backing votes chosen) total

/-- The worths of everything that a round could agree on. -/
def attainable (votes : List WeightedBallot) (fees : List Nat) (total : Nat) : Set Worth :=
  {w | ∃ chosen, Carried votes fees total chosen ∧ worthOver votes fees total chosen = w}

variable {votes : List WeightedBallot} {fees : List Nat} {total : Nat}

/-- The weight of the voter at a position. -/
def weightAt (votes : List WeightedBallot) (position : Nat) : Nat :=
  (votes.map (·.weight)).getD position 0

/-- Whether the voter at a position confirms an attestation. -/
def ConfirmsAt (votes : List WeightedBallot) (position attestation : Nat) : Prop :=
  ∀ vote, votes[position]? = some vote → vote.confirms attestation = true

instance (votes : List WeightedBallot) (position attestation : Nat) :
    Decidable (ConfirmsAt votes position attestation) :=
  decidable_of_iff (votes[position]?.all (·.confirms attestation) = true) (by
    rw [Option.all_eq_true]
    rfl)

theorem backing_empty (votes : List WeightedBallot) :
    backing votes ∅ = (votes.map (·.weight)).sum := by
  simp [backing]

/-- A larger set has no more backing. -/
theorem backing_anti {fewer more : Finset Nat} (h : fewer ⊆ more) :
    backing votes more ≤ backing votes fewer := by
  have hsub : (votes.filter fun vote => decide (∀ a ∈ more, vote.confirms a = true)).Sublist
      (votes.filter fun vote => decide (∀ a ∈ fewer, vote.confirms a = true)) := by
    apply List.monotone_filter_right
    intro vote hvote
    simp only [decide_eq_true_eq] at hvote ⊢
    exact fun a ha => hvote a (h ha)
  exact (hsub.map _).sum_le_sum (by simp)

/-- A majority confirms some set iff all voters together are a majority. -/
theorem exists_carried_iff : (∃ chosen, Carried votes fees total chosen) ↔
    total / 2 < (votes.map (·.weight)).sum := by
  rw [← backing_empty]
  constructor
  · intro hany
    obtain ⟨chosen, hcarried⟩ := hany
    exact Nat.lt_of_lt_of_le hcarried.majority (backing_anti (Finset.empty_subset _))
  · intro hmajority
    exact ⟨∅, Finset.empty_subset _, hmajority⟩

/-- If a round can agree on anything, there is something best to agree on. -/
theorem exists_isGreatest_attainable (h : ∃ chosen, Carried votes fees total chosen) :
    ∃ best, IsGreatest (attainable votes fees total) best := by
  have hfinite : {chosen | Carried votes fees total chosen}.Finite :=
    (Finset.range fees.length).powerset.finite_toSet.subset fun _ hcarried =>
      Finset.mem_coe.mpr (Finset.mem_powerset.mpr hcarried.subset)
  obtain ⟨chosen, hcarried, hbest⟩ :=
    Set.exists_max_image _ (worthOver votes fees total) hfinite h
  refine ⟨_, ⟨chosen, hcarried, rfl⟩, ?_⟩
  intro worth hworth
  obtain ⟨other, hother, rfl⟩ := hworth
  exact hbest other hother

/-- Flagged voters that confirm a set weigh no more than its backing. -/
theorem select_le_backing {flags : List Bool} {chosen : Finset Nat}
    (h : ∀ i, flags[i]? = some true → ∀ a ∈ chosen, ConfirmsAt votes i a) :
    ((Flags.select votes flags).map (·.weight)).sum ≤ backing votes chosen := by
  rw [backing, ← Flags.select_map]
  apply Flags.sum_select_le
  intro i hi hflag
  have hvote := List.getElem?_eq_getElem hi
  rw [List.getElem?_map, hvote, Option.map_some, Option.some.injEq, decide_eq_true_eq]
  exact fun a ha => h i hflag a ha _ hvote

/-- Flags that cover all voters confirming a set weigh no less than its
backing. -/
theorem backing_le_select {flags : List Bool} {chosen : Finset Nat}
    (h : ∀ i, i < votes.length → (∀ a ∈ chosen, ConfirmsAt votes i a) → flags[i]? = some true) :
    backing votes chosen ≤ ((Flags.select votes flags).map (·.weight)).sum := by
  rw [backing, ← Flags.select_map]
  apply Flags.sum_select_le
  intro i hi hflag
  have hvote := List.getElem?_eq_getElem hi
  rw [List.getElem?_map, hvote, Option.map_some, Option.some.injEq, decide_eq_true_eq] at hflag
  refine h i hi fun a ha vote hv => ?_
  rw [hvote, Option.some.injEq] at hv
  exact hv ▸ hflag a ha

/-- The fees of the flagged attestations are the fees of the set of them. -/
theorem sum_select_fees {flags : List Bool} (h : flags.length = fees.length) :
    (Flags.select fees flags).sum = feesOver fees (Flags.positions flags).toFinset := by
  have hset : (Finset.range fees.length).filter (fun i => flags[i]? = some true) =
      (Flags.positions flags).toFinset := by
    ext i
    simp only [Finset.mem_filter, Finset.mem_range, List.mem_toFinset, Flags.mem_positions,
      and_iff_right_iff_imp]
    intro hi
    rw [← h]
    exact (List.getElem?_eq_some_iff.mp hi).1
  rw [Flags.sum_select, feesOver, ← hset, Finset.sum_filter]

theorem feesOver_mono {fewer more : Finset Nat} (h : fewer ⊆ more) :
    feesOver fees fewer ≤ feesOver fees more :=
  Finset.sum_le_sum_of_subset h

end BallotConsensus
