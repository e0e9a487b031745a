import BallotConsensus.Assignment
import BallotConsensus.Proofs.Flags
import BallotConsensus.Proofs.Worth

/-!
# Assignments that fit a reduction

An assignment **fits** a reduction if it has one flag per group, every
participant confirms every inclusion, and the worth it carries is the worth
of its flags.  All assignments that occur in an agreement fit: this file
shows it for the full turnout and for adding whatever fits, which besides
never takes away worth.

* `Reduction.weightOf_eq`, `Reduction.feesOf_eq`, `Assignment.backed_iff` —
  assignments in terms of what their flags select;
* `Assignment.Fits` — the assignments that make sense;
* `Assignment.Backed.saturate`, `Assignment.Fits.saturate`,
  `Assignment.worthOf_le_saturate` — **adding whatever fits** keeps the backing,
  keeps an assignment fitting and keeps its worth from sinking.
-/

namespace BallotConsensus

namespace Reduction

variable {r : Reduction} {participants included : List Bool}

theorem weightOf_eq : r.weightOf participants =
    r.settled.weight + ((Flags.select r.voters participants).map (·.weight)).sum := by
  simp only [weightOf, Flags.select, List.map_map]
  rfl

theorem feesOf_eq : r.feesOf included =
    r.settled.fees + ((Flags.select r.attestations included).map (·.fee)).sum := by
  simp only [feesOf, Flags.select, List.map_map]
  rfl

theorem confirmedByAll_eq {j : Nat} : r.confirmedByAll participants j =
    (Flags.select r.voters participants).all (·.confirms j) := by
  simp only [confirmedByAll, Flags.select, List.all_map, List.all_filter, Function.comp_def]

theorem confirmedByAll_iff {j : Nat} : r.confirmedByAll participants j = true ↔
    ∀ voters ∈ Flags.select r.voters participants, voters.confirms j = true := by
  rw [confirmedByAll_eq, List.all_eq_true]

theorem confirmsAll_iff {voters : VoterGroup} : confirmsAll included voters = true ↔
    ∀ j : Nat, included[j]? = some true → voters.confirms j = true := by
  simp only [confirmsAll, List.all_eq_true, Bool.or_eq_true, Bool.not_eq_true']
  constructor
  · intro h j hj
    exact (h (true, j) (List.mk_mem_zipIdx_iff_getElem?.mpr hj)).resolve_left (by simp)
  · intro h entry hmem
    rcases entry with ⟨flag, j⟩
    cases flag
    · exact Or.inl rfl
    · exact Or.inr (h j (List.mk_mem_zipIdx_iff_getElem?.mp hmem))

/-- No participants weigh more than everybody who can participate. -/
theorem weightOf_le (r : Reduction) (participants : List Bool) :
    r.weightOf participants ≤ r.weight := by
  rw [weightOf_eq, weight]
  exact Nat.add_le_add_left
    (((Flags.select_sublist r.voters participants).map _).sum_le_sum (by simp)) _

/-- More participants confirm no more. -/
theorem confirmedByAll_anti {more : List Bool}
    (h : ∀ i, i < r.voters.length → participants[i]? = some true → more[i]? = some true) {j : Nat}
    (hmore : r.confirmedByAll more j = true) : r.confirmedByAll participants j = true := by
  rw [confirmedByAll_iff] at hmore ⊢
  exact fun voters hvoters => hmore voters ((Flags.select_sublist_select h).subset hvoters)

/-- More participants weigh no less. -/
theorem weightOf_mono {more : List Bool}
    (h : ∀ i, i < r.voters.length → participants[i]? = some true → more[i]? = some true) :
    r.weightOf participants ≤ r.weightOf more := by
  rw [weightOf_eq, weightOf_eq]
  exact Nat.add_le_add_left (Flags.sum_select_le _ h) _

/-- More inclusions cost no less. -/
theorem feesOf_mono {more : List Bool}
    (h : ∀ j, j < r.attestations.length → included[j]? = some true → more[j]? = some true) :
    r.feesOf included ≤ r.feesOf more := by
  rw [feesOf_eq, feesOf_eq]
  exact Nat.add_le_add_left (Flags.sum_select_le _ h) _

theorem worthOf_mono {a more : Assignment}
    (hparticipants : ∀ i, i < r.voters.length → a.participants[i]? = some true →
      more.participants[i]? = some true)
    (hincluded : ∀ j, j < r.attestations.length → a.included[j]? = some true →
      more.included[j]? = some true) :
    r.worthOf a ≤ r.worthOf more :=
  Worth.of_mono (feesOf_mono hincluded) (weightOf_mono hparticipants) _

end Reduction

namespace Assignment

variable {a : Assignment} {r : Reduction}

theorem backed_iff : a.Backed r ↔ ∀ j : Nat, a.included[j]? = some true →
    ∀ voters ∈ Flags.select r.voters a.participants, voters.confirms j = true := by
  simp only [Backed, Reduction.confirmedByAll_iff]

/-- **An assignment that fits** a reduction. -/
structure Fits (a : Assignment) (r : Reduction) : Prop where
  participants_length : a.participants.length = r.voters.length
  included_length : a.included.length = r.attestations.length
  backed : a.Backed r
  worth_eq : a.worth = r.worthOf a

/-- Whoever participates confirms all inclusions. -/
theorem Fits.confirmsAll_included (h : a.Fits r) {i : Nat} {voters : VoterGroup}
    (hi : r.voters[i]? = some voters) (hflag : a.participants[i]? = some true) :
    Reduction.confirmsAll a.included voters = true := by
  rw [Reduction.confirmsAll_iff]
  intro j hj
  exact backed_iff.mp h.backed j hj voters (Flags.mem_select.mpr ⟨i, hi, hflag⟩)

theorem select_fullTurnout (r : Reduction) :
    Flags.select r.voters r.fullTurnout.participants = r.voters := by
  rw [Reduction.fullTurnout, Flags.select_map]
  exact List.filter_eq_self.mpr fun _ _ => rfl

theorem weightOf_fullTurnout (r : Reduction) :
    r.weightOf r.fullTurnout.participants = r.weight := by
  rw [Reduction.weightOf_eq, select_fullTurnout]
  rfl

/-- All voters participate and nothing is included: this always fits. -/
theorem fits_fullTurnout (r : Reduction) : r.fullTurnout.Fits r where
  participants_length := List.length_map _
  included_length := List.length_map _
  backed := by
    intro j hj
    obtain ⟨group, -, hfalse⟩ : ∃ group, r.attestations[j]? = some group ∧ false = true := by
      simpa only [Reduction.fullTurnout, List.getElem?_map, Option.map_eq_some_iff] using hj
    exact absurd hfalse (by decide)
  worth_eq := by
    have hincluded : Flags.select r.attestations r.fullTurnout.included = [] := by
      rw [Reduction.fullTurnout, Flags.select_map]
      exact List.filter_eq_nil_iff.mpr (by simp)
    rw [Reduction.worthOf, weightOf_fullTurnout, Reduction.feesOf_eq, hincluded]
    rfl

/-! ## Adding whatever fits -/

theorem included_saturate {j : Nat} : (a.saturate r).included[j]? = some true ↔
    a.included[j]? = some true ∨
      j < a.included.length ∧ r.confirmedByAll a.participants j = true := by
  simp only [saturate, List.getElem?_map, List.getElem?_zipIdx, Option.map_map]
  by_cases hj : j < a.included.length
  · rw [List.getElem?_eq_getElem hj]
    simp [hj]
  · rw [List.getElem?_eq_none (Nat.not_lt.mp hj)]
    simp [hj]

theorem participants_saturate {i : Nat} {voters : VoterGroup} (hi : r.voters[i]? = some voters) :
    (a.saturate r).participants[i]? = some true ↔
      a.participants[i]? = some true ∨ i < a.participants.length ∧
        Reduction.confirmsAll (a.saturate r).included voters = true := by
  simp only [saturate, List.getElem?_map]
  by_cases hlt : i < a.participants.length
  · have hzip : (a.participants.zip r.voters)[i]? = some (a.participants[i], voters) :=
      List.getElem?_zip_eq_some.mpr ⟨List.getElem?_eq_getElem hlt, hi⟩
    rw [hzip]
    simp [hlt]
  · have hnone : a.participants[i]? = none := List.getElem?_eq_none (Nat.not_lt.mp hlt)
    have hzip : (a.participants.zip r.voters)[i]? = none :=
      List.getElem?_eq_none (by simp [List.length_zip]; omega)
    rw [hzip, hnone]
    simp [hlt]

/-- Adding whatever fits takes no participant away. -/
theorem participants_le_saturate {i : Nat} (hi : i < r.voters.length)
    (h : a.participants[i]? = some true) : (a.saturate r).participants[i]? = some true :=
  (participants_saturate (List.getElem?_eq_getElem hi)).mpr (Or.inl h)

theorem participants_length_saturate (h : a.participants.length = r.voters.length) :
    (a.saturate r).participants.length = r.voters.length := by
  simp only [Assignment.saturate, List.length_map, List.length_zip, h, Nat.min_self]

theorem included_length_saturate (a : Assignment) (r : Reduction) :
    (a.saturate r).included.length = a.included.length := by
  simp only [Assignment.saturate, List.length_map, List.length_zipIdx]

/-- Whatever is added is backed: an inclusion is only added if all
participants confirm it, and a participant only if it confirms all
inclusions. -/
theorem Backed.saturate (h : a.Backed r) : (a.saturate r).Backed r := by
  rw [backed_iff] at h ⊢
  intro j hj voters hvoters
  obtain ⟨i, hi, hflag⟩ := Flags.mem_select.mp hvoters
  rcases (participants_saturate hi).mp hflag with hbefore | ⟨-, hall⟩
  · have hmem : voters ∈ Flags.select r.voters a.participants :=
      Flags.mem_select.mpr ⟨i, hi, hbefore⟩
    rcases included_saturate.mp hj with hincluded | ⟨-, hconfirmed⟩
    · exact h j hincluded voters hmem
    · exact Reduction.confirmedByAll_iff.mp hconfirmed voters hmem
  · exact Reduction.confirmsAll_iff.mp hall j hj

theorem Fits.saturate (h : a.Fits r) : (a.saturate r).Fits r where
  participants_length := participants_length_saturate h.participants_length
  included_length := (included_length_saturate a r).trans h.included_length
  backed := h.backed.saturate
  worth_eq := rfl

theorem weightOf_le_saturate (a : Assignment) (r : Reduction) :
    r.weightOf a.participants ≤ r.weightOf (a.saturate r).participants :=
  Reduction.weightOf_mono fun _ hi h => participants_le_saturate hi h

/-- **Adding whatever fits** never takes away worth. -/
theorem worthOf_le_saturate (a : Assignment) (r : Reduction) :
    r.worthOf a ≤ r.worthOf (a.saturate r) :=
  Reduction.worthOf_mono (fun _ hi hflag => participants_le_saturate hi hflag)
    fun _ _ hflag => included_saturate.mpr (Or.inl hflag)

theorem Fits.worth_le_saturate (h : a.Fits r) : a.worth ≤ (a.saturate r).worth := by
  rw [h.worth_eq]
  exact worthOf_le_saturate a r

end Assignment

end BallotConsensus
