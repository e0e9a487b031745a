import BallotConsensus.Outcome
import BallotConsensus.Proofs.Assignment
import BallotConsensus.Proofs.Ballot.Canonical
import BallotConsensus.Proofs.Reduction.Representation

/-!
# Assignments and the outcomes they expand to

An assignment on a reduction and the outcome it expands to say the same.
Expanding an assignment counts every voter and every fee of the round exactly
once, and it keeps every participant behind every inclusion.  Conversely,
every set of attestations that a majority of the round confirms is covered by
an assignment, at no loss of worth.

* `Outcome.weight_eq`, `Outcome.fees_eq` — the sums of an outcome in terms of
  what its flags select;
* `Outcome.confirms_ballot`, `Outcome.fees_ballot` — the published ballot says
  the same as the outcome, and costs the same;
* `Reduction.Represents.sum_positionsOf`, `Reduction.Represents.sum_inclusionsOf`
  — **nothing is counted twice**, and nothing is left out;
* `Reduction.Represents.expand_confirms` — **expansion keeps the backing**;
* `Reduction.Represents.exists_covering` — **no majority is lost**: the
  reduction can express everything that the round can agree on.
-/

namespace BallotConsensus

/-! ## The sums of an outcome -/

namespace Outcome

variable {votes : List WeightedBallot} {fees : List Nat} {o : Outcome}

theorem participating_eq : o.participating votes = Flags.select votes o.participants := by
  simp only [participating, Flags.select]
  induction votes.zip o.participants with
  | nil => rfl
  | cons pair pairs ih =>
      rcases pair with ⟨vote, participates⟩
      cases participates <;> simp [ih]

theorem weight_eq :
    o.weight votes = (Flags.select (votes.map (·.weight)) o.participants).sum := by
  rw [weight, participating_eq, Flags.map_select]

theorem fees_eq : o.fees fees = (Flags.select fees o.included).sum := by
  simp only [Outcome.fees, Flags.select]
  induction fees.zip o.included with
  | nil => rfl
  | cons pair pairs ih =>
      rcases pair with ⟨fee, isIncluded⟩
      cases isIncluded <;> simp [ih]

/-- **The published ballot confirms what the outcome includes.** -/
theorem confirms_ballot {ballot : Ballot} (h : o.ballot = .ok ballot) (j : Nat) :
    ballot.confirms j = true ↔ o.included[j]? = some true :=
  Ballot.confirms_ofFlags h j

/-- **The published ballot costs what the outcome costs.** -/
theorem fees_ballot {ballot : Ballot} (h : o.ballot = .ok ballot) :
    ballot.fees fees = o.fees fees := by
  rw [Ballot.fees_eq_feesOver, feesOver, Finset.sum_filter, fees_eq, Flags.sum_select]
  exact Finset.sum_congr rfl fun j _ => if_congr (confirms_ballot h j) rfl rfl

/-- An outcome is backed iff all participants confirm all inclusions. -/
theorem isBacked_iff : o.isBacked votes = true ↔ ∀ v x : Nat, o.participants[v]? = some true →
    o.included[x]? = some true → ConfirmsAt votes v x := by
  rw [isBacked, participating_eq, List.all_eq_true]
  constructor
  · intro hall v x hv hx vote hvote
    have hvotes := hall vote (Flags.mem_select.mpr ⟨v, hvote, hv⟩)
    rw [WeightedBallot.confirmsAll, List.all_eq_true] at hvotes
    exact hvotes x (Flags.mem_positions.mpr hx)
  · intro hconfirms vote hvote
    obtain ⟨v, hv, hflag⟩ := Flags.mem_select.mp hvote
    rw [WeightedBallot.confirmsAll, List.all_eq_true]
    exact fun x hx => hconfirms v x hflag (Flags.mem_positions.mp hx) vote hv

end Outcome

/-! ## The members of flagged groups -/

theorem Outcome.membersOf_eq (groups : List (List Nat)) (flags : List Bool) :
    Outcome.membersOf groups flags = (Flags.select groups flags).flatten := by
  simp only [Outcome.membersOf, Flags.select]
  induction groups.zip flags with
  | nil => rfl
  | cons pair pairs ih =>
      rcases pair with ⟨members, flag⟩
      cases flag <;> simp [ih]

/-- A sum over the members of flagged groups is a sum over the groups. -/
theorem Outcome.sum_membersOf {γ : Type} {groups : List γ} {members : γ → List Nat}
    {sum : γ → Nat} {value : Nat → Nat} (h : ∀ g ∈ groups, sum g = ((members g).map value).sum)
    (flags : List Bool) :
    ((Outcome.membersOf (groups.map members) flags).map value).sum =
      ((Flags.select groups flags).map sum).sum := by
  rw [membersOf_eq, ← Flags.map_select, List.map_flatten, List.sum_flatten, List.map_map,
    List.map_map]
  congr 1
  exact List.map_congr_left fun g hg => (h g ((Flags.select_sublist _ _).subset hg)).symm

theorem Outcome.mem_membersOf {γ : Type} {groups : List γ} {members : γ → List Nat}
    {flags : List Bool} {x : Nat} :
    x ∈ Outcome.membersOf (groups.map members) flags ↔
      ∃ (i : Nat) (g : γ), groups[i]? = some g ∧ flags[i]? = some true ∧ x ∈ members g := by
  rw [membersOf_eq, ← Flags.map_select, List.mem_flatten]
  constructor
  · intro hmember
    obtain ⟨_, hmem, hx⟩ := hmember
    obtain ⟨g, hg, rfl⟩ := List.mem_map.mp hmem
    obtain ⟨i, hi, hflag⟩ := Flags.mem_select.mp hg
    exact ⟨i, g, hi, hflag, hx⟩
  · intro hflagged
    obtain ⟨i, g, hi, hflag, hx⟩ := hflagged
    exact ⟨members g, List.mem_map_of_mem (Flags.mem_select.mpr ⟨i, hi, hflag⟩), hx⟩

theorem Outcome.membersOf_sublist (groups : List (List Nat)) (flags : List Bool) :
    (Outcome.membersOf groups flags).Sublist groups.flatten := by
  rw [membersOf_eq]
  exact (Flags.select_sublist groups flags).flatten

namespace Reduction

/-- The positions of all voters that flags on the voter groups let
participate. -/
def positionsOf (r : Reduction) (participants : List Bool) : List Nat :=
  r.settled.participants ++ Outcome.membersOf (r.voters.map (·.members)) participants

/-- All attestations that flags on the attestation groups include. -/
def inclusionsOf (r : Reduction) (included : List Bool) : List Nat :=
  r.settled.included ++ Outcome.membersOf (r.attestations.map (·.members)) included

theorem positionsOf_sublist (r : Reduction) (participants : List Bool) :
    (r.positionsOf participants).Sublist
      (r.settled.participants ++ (r.voters.map (·.members)).flatten) :=
  (Outcome.membersOf_sublist _ _).append_left _

theorem inclusionsOf_sublist (r : Reduction) (included : List Bool) :
    (r.inclusionsOf included).Sublist
      (r.settled.included ++ (r.attestations.map (·.members)).flatten) :=
  (Outcome.membersOf_sublist _ _).append_left _

theorem mem_positionsOf_of_group {r : Reduction} {participants : List Bool} {i v : Nat}
    {voters : VoterGroup} (hi : r.voters[i]? = some voters)
    (hflag : participants[i]? = some true) (hv : v ∈ voters.members) :
    v ∈ r.positionsOf participants :=
  List.mem_append_right _ (Outcome.mem_membersOf.mpr ⟨i, voters, hi, hflag, hv⟩)

theorem mem_inclusionsOf_of_group {r : Reduction} {included : List Bool} {j x : Nat}
    {attestations : AttestationGroup} (hj : r.attestations[j]? = some attestations)
    (hflag : included[j]? = some true) (hx : x ∈ attestations.members) :
    x ∈ r.inclusionsOf included :=
  List.mem_append_right _ (Outcome.mem_membersOf.mpr ⟨j, attestations, hj, hflag, hx⟩)

/-- The assignment that includes every group with a member in a set, and lets
every group participate that confirms all of that. -/
def covering (r : Reduction) (chosen : Finset Nat) : Assignment :=
  let included := r.attestations.map fun g => g.members.any fun x => decide (x ∈ chosen)
  let participants := r.voters.map (confirmsAll included)
  { participants, included
    worth := r.worth (r.feesOf included) (r.weightOf participants) }

theorem included_covering {r : Reduction} {chosen : Finset Nat} {j : Nat} :
    (r.covering chosen).included[j]? = some true ↔
      ∃ g, r.attestations[j]? = some g ∧ ∃ x ∈ g.members, x ∈ chosen := by
  simp only [covering, List.getElem?_map, Option.map_eq_some_iff, List.any_eq_true,
    decide_eq_true_eq]

theorem covering_fits (r : Reduction) (chosen : Finset Nat) : (r.covering chosen).Fits r where
  participants_length := by simp [covering]
  included_length := by simp [covering]
  backed := by
    rw [Assignment.backed_iff]
    intro j hj voters hvoters
    change voters ∈ Flags.select r.voters (r.voters.map _) at hvoters
    rw [Flags.select_map, List.mem_filter] at hvoters
    exact confirmsAll_iff.mp hvoters.2 j hj
  worth_eq := rfl

namespace Represents

variable {r : Reduction} {votes : List WeightedBallot} {fees : List Nat}
  {participants included : List Bool} {a : Assignment} {optimal : Bool}

theorem positionsOf_nodup (h : r.Represents votes fees) : (r.positionsOf participants).Nodup := by
  have hall := h.voters_perm.nodup_iff.mpr List.nodup_range
  exact hall.sublist (positionsOf_sublist r participants)

theorem lt_of_mem_positionsOf (h : r.Represents votes fees) {v : Nat}
    (hv : v ∈ r.positionsOf participants) : v < votes.length := by
  have hall := (positionsOf_sublist r participants).subset hv
  exact List.mem_range.mp (h.voters_perm.mem_iff.mp hall)

theorem inclusionsOf_nodup (h : r.Represents votes fees) : (r.inclusionsOf included).Nodup := by
  have hall := h.attestations_perm.nodup_iff.mpr List.nodup_range
  exact (List.nodup_append.mp hall).1.sublist (inclusionsOf_sublist r included)

theorem lt_of_mem_inclusionsOf (h : r.Represents votes fees) {x : Nat}
    (hx : x ∈ r.inclusionsOf included) : x < fees.length := by
  have hall := (inclusionsOf_sublist r included).subset hx
  exact List.mem_range.mp (h.attestations_perm.mem_iff.mp (List.mem_append_left _ hall))

/-- What is excluded is never included. -/
theorem not_mem_excluded (h : r.Represents votes fees) {x : Nat}
    (hx : x ∈ r.inclusionsOf included) : x ∉ r.settled.excluded := by
  have hall := h.attestations_perm.nodup_iff.mpr List.nodup_range
  intro hexcluded
  exact List.disjoint_of_nodup_append hall ((inclusionsOf_sublist r included).subset hx)
    hexcluded

/-- **Every participant is counted once.** -/
theorem sum_positionsOf (h : r.Represents votes fees) (participants : List Bool) :
    ((r.positionsOf participants).map (weightAt votes)).sum = r.weightOf participants := by
  rw [positionsOf, List.map_append, List.sum_append, Outcome.sum_membersOf h.group_weight,
    weightOf_eq, h.settled_weight]

/-- **Every inclusion is counted once.** -/
theorem sum_inclusionsOf (h : r.Represents votes fees) (included : List Bool) :
    ((r.inclusionsOf included).map (fees.getD · 0)).sum = r.feesOf included := by
  rw [inclusionsOf, List.map_append, List.sum_append, Outcome.sum_membersOf h.group_fee,
    feesOf_eq, h.settled_fees]

theorem weight_expand (h : r.Represents votes fees) (a : Assignment) (optimal : Bool) :
    (Outcome.expand votes.length fees.length r a optimal).weight votes =
      r.weightOf a.participants := by
  rw [Outcome.weight_eq]
  change (Flags.select _ (Flags.ofPositions _ (r.positionsOf a.participants))).sum = _
  rw [Flags.sum_select_ofPositions (by simp) h.positionsOf_nodup
    fun v hv => h.lt_of_mem_positionsOf hv]
  exact h.sum_positionsOf a.participants

theorem fees_expand (h : r.Represents votes fees) (a : Assignment) (optimal : Bool) :
    (Outcome.expand votes.length fees.length r a optimal).fees fees = r.feesOf a.included := by
  rw [Outcome.fees_eq]
  change (Flags.select _ (Flags.ofPositions _ (r.inclusionsOf a.included))).sum = _
  rw [Flags.sum_select_ofPositions rfl h.inclusionsOf_nodup
    fun x hx => h.lt_of_mem_inclusionsOf hx]
  exact h.sum_inclusionsOf a.included

/-- The voters of a round weigh what its reduction leaves to participate. -/
theorem weight_eq_sum (h : r.Represents votes fees) :
    r.weight = (votes.map (·.weight)).sum := by
  have hgroups : (r.voters.map (·.weight)).sum =
      ((r.voters.map (·.members)).flatten.map (weightAt votes)).sum := by
    rw [List.map_flatten, List.sum_flatten, List.map_map, List.map_map]
    congr 1
    exact List.map_congr_left h.group_weight
  have hall : (List.range votes.length).map (weightAt votes) = votes.map (·.weight) :=
    Flags.map_getD_range (by simp)
  rw [weight, h.settled_weight, hgroups, ← hall, ← (h.voters_perm.map _).sum_eq, List.map_append,
    List.sum_append]

theorem expand_participants {v : Nat} (h : r.Represents votes fees) :
    (Outcome.expand votes.length fees.length r a optimal).participants[v]? = some true ↔
      v ∈ r.positionsOf a.participants := by
  change (Flags.ofPositions _ (r.positionsOf a.participants))[v]? = some true ↔ _
  rw [Flags.getElem?_ofPositions]
  exact ⟨And.right, fun hv => ⟨h.lt_of_mem_positionsOf hv, hv⟩⟩

theorem expand_included {x : Nat} (h : r.Represents votes fees) :
    (Outcome.expand votes.length fees.length r a optimal).included[x]? = some true ↔
      x ∈ r.inclusionsOf a.included := by
  change (Flags.ofPositions _ (r.inclusionsOf a.included))[x]? = some true ↔ _
  rw [Flags.getElem?_ofPositions]
  exact ⟨And.right, fun hx => ⟨h.lt_of_mem_inclusionsOf hx, hx⟩⟩

/-- **Expansion keeps the backing**: every participant of the outcome confirms
every attestation that it includes. -/
theorem expand_confirms (h : r.Represents votes fees) (hbacked : a.Backed r) {v x : Nat}
    (hv : v ∈ r.positionsOf a.participants) (hx : x ∈ r.inclusionsOf a.included) :
    ConfirmsAt votes v x := by
  rcases List.mem_append.mp hv with hsettled | hopen
  · exact h.participants_confirm v hsettled x (h.lt_of_mem_inclusionsOf hx)
      (h.not_mem_excluded hx)
  · rcases List.mem_append.mp hx with hincluded | hgroup
    · exact h.included_confirmed x hincluded v (h.lt_of_mem_positionsOf hv)
    · obtain ⟨i, voters, hi, hflag, hmember⟩ := Outcome.mem_membersOf.mp hopen
      obtain ⟨j, attestations, hj, hincluded, hmem⟩ := Outcome.mem_membersOf.mp hgroup
      have hconfirms : voters.confirms j = true :=
        Assignment.backed_iff.mp hbacked j hincluded voters (Flags.mem_select.mpr ⟨i, hi, hflag⟩)
      exact (h.group_confirms voters (List.mem_of_getElem? hi) j attestations hj v hmember x
        hmem).mpr hconfirms

/-- A voter of the round is settled or in a group. -/
theorem voter_cases (h : r.Represents votes fees) {v : Nat} (hv : v < votes.length) :
    v ∈ r.settled.participants ∨
      ∃ (i : Nat) (voters : VoterGroup), r.voters[i]? = some voters ∧ v ∈ voters.members := by
  have hmem := h.voters_perm.mem_iff.mpr (List.mem_range.mpr hv)
  rcases List.mem_append.mp hmem with hsettled | hopen
  · exact Or.inl hsettled
  · obtain ⟨_, hmembers, hin⟩ := List.mem_flatten.mp hopen
    obtain ⟨voters, hvoters, rfl⟩ := List.mem_map.mp hmembers
    obtain ⟨i, hi⟩ := List.mem_iff_getElem?.mp hvoters
    exact Or.inr ⟨i, voters, hi, hin⟩

/-- An attestation of the round is settled, in a group or excluded. -/
theorem attestation_cases (h : r.Represents votes fees) {x : Nat} (hx : x < fees.length) :
    x ∈ r.settled.included ∨
      (∃ (j : Nat) (g : AttestationGroup), r.attestations[j]? = some g ∧ x ∈ g.members) ∨
      x ∈ r.settled.excluded := by
  have hmem := h.attestations_perm.mem_iff.mpr (List.mem_range.mpr hx)
  rcases List.mem_append.mp hmem with hopen | hexcluded
  · rcases List.mem_append.mp hopen with hincluded | hgroup
    · exact Or.inl hincluded
    · obtain ⟨_, hmembers, hin⟩ := List.mem_flatten.mp hgroup
      obtain ⟨g, hg, rfl⟩ := List.mem_map.mp hmembers
      obtain ⟨j, hj⟩ := List.mem_iff_getElem?.mp hg
      exact Or.inr (Or.inl ⟨j, g, hj, hin⟩)
  · exact Or.inr (Or.inr hexcluded)

/-- Everything that some majority confirms is settled or in a group. -/
theorem mem_of_carried (h : r.Represents votes fees) {chosen : Finset Nat}
    (hcarried : Carried votes fees r.total chosen) {x : Nat} (hx : x ∈ chosen) :
    x ∈ r.settled.included ∨
      ∃ (j : Nat) (g : AttestationGroup), r.attestations[j]? = some g ∧ x ∈ g.members := by
  have hlt : x < fees.length := Finset.mem_range.mp (hcarried.subset hx)
  have hkept : x ∉ r.settled.excluded := by
    rw [h.excluded_iff x hlt, Nat.not_le]
    exact Nat.lt_of_lt_of_le hcarried.majority
      (backing_anti (Finset.singleton_subset_iff.mpr hx))
  rcases h.attestation_cases hlt with hincluded | hgroup | hexcluded
  · exact Or.inl hincluded
  · exact Or.inr hgroup
  · exact absurd hexcluded hkept

/-- Whoever confirms a set that a majority confirms participates in its
covering. -/
theorem backing_le_covering (h : r.Represents votes fees) (chosen : Finset Nat) :
    backing votes chosen ≤ r.weightOf (r.covering chosen).participants := by
  rw [← h.weight_expand (r.covering chosen) true, Outcome.weight_eq, ← Flags.map_select]
  refine backing_le_select fun v hv hconfirms => (h.expand_participants).mpr ?_
  rcases h.voter_cases hv with hsettled | ⟨i, voters, hi, hin⟩
  · exact List.mem_append_left _ hsettled
  · have hvoters := List.mem_of_getElem? hi
    have hall : confirmsAll (r.covering chosen).included voters = true := by
      rw [confirmsAll_iff]
      intro j hj
      obtain ⟨g, hg, x, hx, hchosen⟩ := included_covering.mp hj
      exact (h.group_confirms voters hvoters j g hg v hin x hx).mp (hconfirms x hchosen)
    refine mem_positionsOf_of_group hi ?_ hin
    change (r.voters.map (confirmsAll (r.covering chosen).included))[i]? = some true
    rw [List.getElem?_map, hi, Option.map_some, hall]

/-- The covering of a set that a majority confirms includes all of it. -/
theorem feesOver_le_covering (h : r.Represents votes fees) {chosen : Finset Nat}
    (hcarried : Carried votes fees r.total chosen) :
    feesOver fees chosen ≤ r.feesOf (r.covering chosen).included := by
  rw [← h.fees_expand (r.covering chosen) true, Outcome.fees_eq,
    sum_select_fees (by simp [Outcome.expand])]
  refine feesOver_mono fun x hx => ?_
  rw [List.mem_toFinset, Flags.mem_positions, h.expand_included]
  rcases h.mem_of_carried hcarried hx with hincluded | ⟨j, g, hj, hin⟩
  · exact List.mem_append_left _ hincluded
  · exact mem_inclusionsOf_of_group hj (included_covering.mpr ⟨g, hj, x, hin, hx⟩) hin

/-- **No majority is lost.**  Whatever a majority of the round confirms is
covered by an assignment with a majority, at no loss of worth. -/
theorem exists_covering (h : r.Represents votes fees) {chosen : Finset Nat}
    (hcarried : Carried votes fees r.total chosen) :
    ∃ a : Assignment, a.Fits r ∧ r.half < r.weightOf a.participants ∧
      worthOver votes fees r.total chosen ≤ a.worth :=
  ⟨r.covering chosen, covering_fits r chosen,
    Nat.lt_of_lt_of_le hcarried.majority (h.backing_le_covering chosen),
    Worth.of_mono (h.feesOver_le_covering hcarried) (h.backing_le_covering chosen) _⟩

/-- **Without a majority everything is excluded.** -/
theorem inclusionsOf_eq_nil (h : r.Represents votes fees) (hminority : r.weight ≤ r.half)
    (included : List Bool) : r.inclusionsOf included = [] := by
  rw [List.eq_nil_iff_forall_not_mem]
  intro x hx
  refine h.not_mem_excluded hx ((h.excluded_iff x (h.lt_of_mem_inclusionsOf hx)).mpr ?_)
  refine Nat.le_trans (Nat.le_trans (backing_anti (Finset.empty_subset _)) ?_) hminority
  rw [backing_empty, h.weight_eq_sum]

end Represents

end Reduction

end BallotConsensus
