import BallotConsensus.Proofs.Agreement.Unanimity
import BallotConsensus.Proofs.Assignment.Saturation
import BallotConsensus.Proofs.Reduction.Optimum

/-!
# Nothing fits into an outcome any more

An outcome leaves nothing over: what it does not include, some participant does
not confirm, and who does not participate does not confirm some inclusion.
There are two reasons for it.

An outcome that is not optimal has had everything added that fits.  This is
known of groups, and it carries over to their members: every group has one, and
all of them vote alike.  What no majority confirms is in no group; the
participants are a majority, so one of them does not confirm it.

To an optimal outcome nothing is added.  But with whatever still fitted, its
participants and inclusions would be a pact that is worth more: beyond the
ceiling on the weight it is still the uncapped worth that grows.  Fees of zero
would break this, and so would an outcome that includes nothing.  Such an
outcome is worth nothing, hence no majority confirms anything, and then
everybody participates without being searched for.

* `Outcome.Maximal` — nothing is left over;
* `Reduction.Represents.expand_maximal` — outcomes of maximal assignments;
* `Outcome.Stands.maximal_of_optimal` — optimal outcomes;
* `Agreement.reach_maximal` — **no outcome leaves anything over.**
-/

namespace BallotConsensus

variable {votes : List WeightedBallot} {fees : List Nat} {total : Nat}

/-- **Nothing is left over** that would fit, said of the votes of the round. -/
structure Outcome.Maximal (o : Outcome) (votes : List WeightedBallot) (fees : List Nat) :
    Prop where
  /-- What is left out, some participant does not confirm. -/
  attestations : ∀ x, x < fees.length → o.included[x]? ≠ some true →
    ∃ v : Nat, o.participants[v]? = some true ∧ ¬ ConfirmsAt votes v x
  /-- Who is left out does not confirm some inclusion. -/
  voters : ∀ v, v < votes.length → o.participants[v]? ≠ some true →
    ∃ x : Nat, o.included[x]? = some true ∧ ¬ ConfirmsAt votes v x

/-! ## What is not optimal -/

namespace Reduction

variable {r : Reduction} {a : Assignment} {budget : Nat} {seed : Seed}

/-- What is not optimal has everything added that fits. -/
theorem resolution_maximal (hweight : r.weight ≤ r.total)
    (hoptimal : (r.resolution budget seed).optimal = false) :
    (r.resolution budget seed).assignment.Maximal r := by
  rw [resolution_eq] at hoptimal ⊢
  dsimp only at hoptimal ⊢
  rw [if_neg (by simp [hoptimal])]
  have hfits := fits_found hweight budget seed
  exact Assignment.saturate_maximal hfits.participants_length hfits.included_length

namespace Represents

variable {optimal : Bool}

/-- Participants do not all confirm what is excluded: they are a majority. -/
theorem exists_not_confirmsAt_excluded (h : r.Represents votes fees)
    (hmajority : r.half < r.weightOf a.participants) {x : Nat} (hx : x < fees.length)
    (hexcluded : x ∈ r.settled.excluded) :
    ∃ v : Nat, (Outcome.expand votes.length fees.length r a optimal).participants[v]? = some true ∧
      ¬ ConfirmsAt votes v x := by
  by_contra! hall
  have hbacking : (Outcome.expand votes.length fees.length r a optimal).weight votes ≤
      backing votes {x} := by
    rw [Outcome.weight_eq, ← Flags.map_select]
    exact select_le_backing fun v hv y hy => Finset.mem_singleton.mp hy ▸ hall v hv
  rw [h.weight_expand] at hbacking
  have := (h.excluded_iff x hx).mp hexcluded
  omega

/-- **Nothing is left over among members** if nothing is among groups, no group is
empty and the participants are a majority. -/
theorem expand_maximal (h : r.Represents votes fees)
    (hvoters : ∀ voters ∈ r.voters, ∃ v, v ∈ voters.members)
    (hattestations : ∀ attestations ∈ r.attestations, ∃ x, x ∈ attestations.members)
    (hlength : a.included.length = r.attestations.length) (ha : a.Maximal r)
    (hmajority : r.half < r.weightOf a.participants) :
    (Outcome.expand votes.length fees.length r a optimal).Maximal votes fees where
  attestations x hx hout := by
    rw [ne_eq, h.expand_included] at hout
    rcases h.attestation_cases hx with hsettled | ⟨j, attestations, hj, hmem⟩ | hexcluded
    · exact absurd (List.mem_append_left _ hsettled) hout
    · have hflag : a.included[j]? ≠ some true := fun hflag =>
        hout (mem_inclusionsOf_of_group hj hflag hmem)
      have hkept := ha.attestations j (List.getElem?_eq_some_iff.mp hj).1 hflag
      rw [← Bool.not_eq_true, confirmedByAll_iff] at hkept
      push Not at hkept
      obtain ⟨voters, hselected, hrejects⟩ := hkept
      obtain ⟨i, hi, hparticipates⟩ := Flags.mem_select.mp hselected
      obtain ⟨v, hv⟩ := hvoters voters (List.mem_of_getElem? hi)
      have hmember := mem_positionsOf_of_group hi hparticipates hv
      refine ⟨v, h.expand_participants.mpr hmember, ?_⟩
      rwa [h.group_confirms voters (List.mem_of_getElem? hi) j attestations hj v hv x hmem]
    · exact h.exists_not_confirmsAt_excluded hmajority hx hexcluded
  voters v hv hout := by
    rw [ne_eq, h.expand_participants] at hout
    rcases h.voter_cases hv with hsettled | ⟨i, voters, hi, hmem⟩
    · exact absurd (List.mem_append_left _ hsettled) hout
    · have hflag : a.participants[i]? ≠ some true := fun hflag =>
        hout (mem_positionsOf_of_group hi hflag hmem)
      have hkept := ha.voters i voters hi hflag
      rw [← Bool.not_eq_true, confirmsAll_iff] at hkept
      push Not at hkept
      obtain ⟨j, hincluded, hrejects⟩ := hkept
      have hj : j < r.attestations.length :=
        hlength ▸ (List.getElem?_eq_some_iff.mp hincluded).1
      have hgroup := List.getElem?_eq_getElem hj
      obtain ⟨x, hx⟩ := hattestations _ (List.getElem_mem hj)
      have hmember := mem_inclusionsOf_of_group hgroup hincluded hx
      refine ⟨x, h.expand_included.mpr hmember, ?_⟩
      rwa [h.group_confirms voters (List.mem_of_getElem? hi) j _ hgroup v hmem x hx]

end Represents

end Reduction

/-! ## What is optimal -/

namespace Pact

variable {voters chosen : Finset Nat} {a v : Nat}

/-- A pact on one more attestation. -/
theorem insert_chosen (h : Pact votes fees total voters chosen) (ha : a < fees.length)
    (hconfirms : ∀ v ∈ voters, ConfirmsAt votes v a) :
    Pact votes fees total voters (insert a chosen) where
  voters_subset := h.voters_subset
  chosen_subset := Finset.insert_subset (Finset.mem_range.mpr ha) h.chosen_subset
  confirms v hv b hb := by
    rcases Finset.mem_insert.mp hb with rfl | hb
    · exact hconfirms v hv
    · exact h.confirms v hv b hb
  majority := h.majority

/-- A pact with one more voter. -/
theorem insert_voter (h : Pact votes fees total voters chosen) (hv : v < votes.length)
    (hout : v ∉ voters) (hconfirms : ∀ b ∈ chosen, ConfirmsAt votes v b) :
    Pact votes fees total (insert v voters) chosen where
  voters_subset := Finset.insert_subset (Finset.mem_range.mpr hv) h.voters_subset
  chosen_subset := h.chosen_subset
  confirms u hu b hb := by
    rcases Finset.mem_insert.mp hu with rfl | hu
    · exact hconfirms b hb
    · exact h.confirms u hu b hb
  majority := by
    have := h.majority
    rw [weightOver, Finset.sum_insert hout]
    change total < 2 * (_ + weightOver votes voters)
    omega

end Pact

section Positive

/-- Every voter weighs something. -/
theorem weightAt_pos {v : Nat} (hv : v < votes.length) : 0 < weightAt votes v := by
  simp only [weightAt, List.getD_eq_getElem?_getD, List.getElem?_map,
    List.getElem?_eq_getElem hv, Option.map_some, Option.getD_some]
  exact votes[v].weight_pos

variable (hfees : ∀ fee ∈ fees, 1 ≤ fee)
include hfees

theorem fee_pos {x : Nat} (hx : x < fees.length) : 0 < fees.getD x 0 := by
  rw [List.getD_eq_getElem?_getD, List.getElem?_eq_getElem hx, Option.getD_some]
  exact hfees _ (List.getElem_mem hx)

/-- Where every attestation has a fee, only nothing costs nothing. -/
theorem feesOver_pos {chosen : Finset Nat} (hsubset : chosen ⊆ Finset.range fees.length)
    (hchosen : chosen.Nonempty) : 0 < feesOver fees chosen :=
  Finset.sum_pos (fun _ hx => fee_pos hfees (Finset.mem_range.mp (hsubset hx))) hchosen

end Positive

namespace Outcome

variable {o : Outcome}

namespace Stands

theorem weight_eq_weightOver (h : o.Stands votes fees total) :
    o.weight votes = weightOver votes o.participantSet := by
  rw [Outcome.weight_eq]
  exact sum_select_fees (by rw [h.participants_length, List.length_map])

/-- The participants of an outcome have a pact on its inclusions, if they are a
majority. -/
theorem pact (h : o.Stands votes fees total) (hmajority : total < 2 * o.weight votes) :
    Pact votes fees total o.participantSet o.inclusionSet where
  voters_subset := h.participantSet_subset
  chosen_subset := h.inclusionSet_subset
  confirms v hv x hx := h.confirms v x (mem_participantSet.mp hv) (mem_inclusionSet.mp hx)
  majority := h.weight_eq_weightOver ▸ hmajority

/-- **No pact is worth more than an optimal outcome**, hence none has more of both
and a greater product. -/
theorem not_mul_lt_of_pact (h : o.Stands votes fees total) (hoptimal : o.optimal = true)
    {voters chosen : Finset Nat} (hpact : Pact votes fees total voters chosen)
    (hvoters : o.participantSet ⊆ voters) (hchosen : o.inclusionSet ⊆ chosen) :
    ¬ feesOver fees o.inclusionSet * weightOver votes o.participantSet <
      feesOver fees chosen * weightOver votes voters := by
  intro hlt
  have hmore : o.worth < Worth.of (feesOver fees chosen) (weightOver votes voters) total := by
    rw [h.worth_eq, Outcome.worthFrom, h.fees_eq_feesOver, h.weight_eq_weightOver]
    exact Worth.of_lt_of_mul_lt (feesOver_mono hchosen) (Finset.sum_le_sum_of_subset hvoters) hlt
      total
  have hle : Worth.of (feesOver fees chosen) (weightOver votes voters) total ≤ o.worth :=
    le_trans hpact.worth_le (h.covers hoptimal chosen hpact.carried)
  exact absurd hmore (not_lt.mpr hle)

variable (h : o.Stands votes fees total) (hfees : ∀ fee ∈ fees, 1 ≤ fee)
  (hoptimal : o.optimal = true)
include h hfees hoptimal

/-- Nothing is confirmed by a majority if the best that can be had includes
nothing. -/
theorem backing_le_of_inclusionSet_eq_empty (hnone : o.inclusionSet = ∅) {x : Nat}
    (hx : x < fees.length) : ¬ total < 2 * backing votes {x} := by
  intro hmajority
  have hcarried : Carried votes fees total {x} :=
    ⟨Finset.singleton_subset_iff.mpr (Finset.mem_range.mpr hx), by omega⟩
  have hzero : o.worth = .zero := by
    rw [h.worth_eq, Outcome.worthFrom, h.fees_eq_feesOver, hnone, feesOver, Finset.sum_empty,
      Worth.of_no_fees]
  have hle := h.covers hoptimal _ hcarried
  rw [hzero, ← Worth.of_no_fees 0 total, worthOver] at hle
  have hfee : 0 < feesOver fees {x} :=
    feesOver_pos hfees hcarried.subset (Finset.singleton_nonempty x)
  have hlt : Worth.of 0 0 total < Worth.of (feesOver fees {x}) (backing votes {x}) total := by
    refine Worth.of_lt_of_mul_lt (Nat.zero_le _) (Nat.zero_le _) ?_ total
    rw [Nat.zero_mul]
    exact Nat.mul_pos hfee (by omega)
  exact absurd hlt (not_lt.mpr hle)

/-- **Nothing is left over by an optimal outcome** with a majority, if every
attestation has a fee and whoever confirms everything that a majority confirms
participates. -/
theorem maximal_of_optimal (hmajority : total < 2 * o.weight votes)
    (hsettled : ∀ v, v < votes.length →
      (∀ x, x < fees.length → total < 2 * backing votes {x} → ConfirmsAt votes v x) →
      o.participants[v]? = some true) :
    o.Maximal votes fees where
  attestations x hx hout := by
    by_contra! hall
    have hpact := (h.pact hmajority).insert_chosen hx fun v hv =>
      hall v (mem_participantSet.mp hv)
    refine h.not_mul_lt_of_pact hoptimal hpact (Finset.Subset.refl _)
      (Finset.subset_insert _ _) ?_
    have hweight := (h.pact hmajority).majority
    have hfee := fee_pos hfees hx
    have hcost : feesOver fees (insert x o.inclusionSet) =
        fees.getD x 0 + feesOver fees o.inclusionSet :=
      Finset.sum_insert (mt mem_inclusionSet.mp hout)
    rw [hcost]
    exact Nat.mul_lt_mul_of_pos_right (by omega) (by omega)
  voters v hv hout := by
    by_contra! hall
    rcases Finset.eq_empty_or_nonempty o.inclusionSet with hnone | hsome
    · -- Another voter would add no worth here, but all of them are settled.
      refine hout (hsettled v hv fun x hx hbacking => ?_)
      exact absurd hbacking (h.backing_le_of_inclusionSet_eq_empty hfees hoptimal hnone hx)
    · have hfresh : v ∉ o.participantSet := mt mem_participantSet.mp hout
      have hpact := (h.pact hmajority).insert_voter hv hfresh fun x hx =>
        hall x (mem_inclusionSet.mp hx)
      refine h.not_mul_lt_of_pact hoptimal hpact (Finset.subset_insert _ _)
        (Finset.Subset.refl _) ?_
      have hcost := feesOver_pos hfees h.inclusionSet_subset hsome
      have hweight : weightOver votes (insert v o.participantSet) =
          weightAt votes v + weightOver votes o.participantSet := Finset.sum_insert hfresh
      rw [hweight]
      have hpos := weightAt_pos hv
      exact Nat.mul_lt_mul_of_pos_left (by omega) hcost

end Stands

end Outcome

namespace Agreement

/-- **No outcome leaves anything over.**  If all voters together are a majority,
every outcome that is not optimal is maximal, whatever the fees; an optimal one is
if every attestation has a fee. -/
theorem reach_maximal (hmet : Contract.Met votes fees total) (hfees : fees ≠ [])
    (hmajority : total < 2 * (votes.map (·.weight)).sum) (budget : Nat) (seed : Seed) :
    ∃ agreement, reach votes fees total budget seed = .ok agreement ∧
      (agreement.outcome.optimal = false ∨ (∀ fee ∈ fees, 1 ≤ fee) →
        agreement.outcome.Maximal votes fees) := by
  have hvotes : votes ≠ [] := by
    rintro rfl
    simp at hmajority
  have hreach := reach_searched hmet hvotes hfees budget seed
  obtain ⟨agreement, hstood, hstands⟩ := reach_stands hmet budget seed
  obtain rfl := Except.ok.inj (hstood.symm.trans hreach)
  refine ⟨_, hreach, fun hcase => ?_⟩
  have h := Reduction.ofRound_represents votes fees total
  have hweight := hmet.reduction_weight_le
  have houtweighs : (Reduction.ofRound votes fees total).half <
      (Reduction.ofRound votes fees total).weight := by
    rw [h.weight_eq_sum]
    change total / 2 < _
    omega
  by_cases hoptimal : ((Reduction.ofRound votes fees total).resolution budget seed).optimal = true
  · have hpositive : ∀ fee ∈ fees, 1 ≤ fee := by
      refine hcase.resolve_left fun hfalse => ?_
      exact absurd (hfalse.symm.trans hoptimal) (by decide)
    refine hstands.maximal_of_optimal hpositive hoptimal ?_ fun v hv hall => ?_
    · have := hstands.majority hfees (by omega)
      omega
    · refine (h.expand_settled _ _).2 v (Reduction.mem_participants_ofRound
        (List.getElem?_eq_getElem hv) fun x hx hbacking => ?_)
      exact hall x hx hbacking _ (List.getElem?_eq_getElem hv)
  · exact h.expand_maximal (fun _ => Standing.exists_voter_member)
      (fun _ => Standing.exists_attestation_member)
      (Reduction.resolution_fits hweight budget seed).included_length
      (Reduction.resolution_maximal hweight (Bool.not_eq_true _ ▸ hoptimal))
      (Reduction.resolution_majority hweight houtweighs budget seed)

/-- With a budget of zero the outcome of the cycle is not optimal, with a hundred it
is. -/
theorem reach_maximal_of_cycle :
    Contract.Met cycleVotes [1, 1, 1] 3 ∧ 3 < 2 * (cycleVotes.map (·.weight)).sum ∧
      ∃ a b, reach cycleVotes [1, 1, 1] 3 0 (.ofNumber 7) = .ok a ∧
        reach cycleVotes [1, 1, 1] 3 100 (.ofNumber 7) = .ok b ∧
        a.outcome.optimal = false ∧ a.outcome.Maximal cycleVotes [1, 1, 1] ∧
        b.outcome.optimal = true ∧ b.outcome.Maximal cycleVotes [1, 1, 1] := by
  have hmajority : 3 < 2 * (cycleVotes.map (·.weight)).sum := by decide
  have hspent : (reach cycleVotes [1, 1, 1] 3 0 (.ofNumber 7)).toOption.map (·.outcome.optimal) =
      some false := by decide +kernel
  obtain ⟨a, ha, hfirst⟩ := reach_maximal cycleVotes_met (by decide) hmajority 0 (.ofNumber 7)
  obtain ⟨b, hb, hsecond⟩ := reach_maximal cycleVotes_met (by decide) hmajority 100 (.ofNumber 7)
  rw [ha] at hspent
  have hshort : a.outcome.optimal = false := Option.some.inj hspent
  have hlong : b.outcome.optimal = true := congrArg (·.optimal) (outcome_of_cycleVotes hb)
  exact ⟨cycleVotes_met, hmajority, a, b, ha, hb, hshort, hfirst (Or.inl hshort), hlong,
    hsecond (Or.inr (by decide))⟩

end Agreement

end BallotConsensus
