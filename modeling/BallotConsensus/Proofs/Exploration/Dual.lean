import Mathlib.Tactic.Ring
import BallotConsensus.Exploration.Dual
import BallotConsensus.Proofs.Assignment
import BallotConsensus.Proofs.Exploration.Budget

/-!
# Both searches read the same assignments

Deciding voters and deciding attestations are two views of one problem.  A
leaf of either search stands for an assignment that fits the reduction and
has a majority, with its very worth; and every fitting assignment with a
majority is worth no more than some leaf, since a leaf adds all attestations
that its voters confirm, or all voters that confirm its attestations.

* `Reduction.follow_byVoters`, `Reduction.follow_byAttestations` — **where
  decisions lead**, in closed form;
* `Support.Decides`, `Coalition.Decides` — what a search carries along and what
  it decides, in step: `Reduction.supportAfter_decides`,
  `Reduction.coalitionAfter_decides`;
* `Reduction.isLeaf_byVoters`, `Reduction.isLeaf_byAttestations` — the
  leaves, said of the assignments they stand for;
* `Reduction.Reading` — leaves that stand for all assignments, and
  `Reduction.reading_voters`, `Reduction.reading_attestations`: both searches
  have such leaves.
-/

namespace BallotConsensus

open Flags

/-- **A coalition at which an assignment is decided**: it consists of the
participants, and its weight and fees are what the flags of the assignment sum up
to. -/
structure Coalition.Decides (r : Reduction) (c : Coalition) (a : Assignment) : Prop where
  voters_eq : c.voters = select r.voters a.participants
  weight_eq : c.weight = r.weightOf a.participants
  fees_eq : c.fees = r.feesOf a.included

/-- **A support at which an assignment is decided**: it consists of the
inclusions, and its weight and fees are what the flags of the assignment sum up
to. -/
structure Support.Decides (r : Reduction) (s : Support) (a : Assignment) : Prop where
  attestations_eq : s.attestations.map (·.1) = select r.attestations a.included
  weight_eq : s.weight = r.weightOf a.participants
  fees_eq : s.fees = r.feesOf a.included

section Decides

variable {r : Reduction} {scope : Scope} {a : Assignment}

theorem Coalition.Decides.worth_eq {c : Coalition} (h : c.Decides r a)
    (htotal : scope.total = r.total) : scope.worth c.fees c.weight = r.worthOf a := by
  rw [Scope.worth, htotal, h.weight_eq, h.fees_eq]
  rfl

theorem Support.Decides.worth_eq {s : Support} (h : s.Decides r a)
    (htotal : scope.total = r.total) : scope.worth s.fees s.weight = r.worthOf a := by
  rw [Scope.worth, htotal, h.weight_eq, h.fees_eq]
  rfl

end Decides

namespace Reduction

variable {r : Reduction}

/-! ## Deciding voters -/

theorem byVoters_present (r : Reduction) (node : Support) (voters : VoterGroup) :
    r.byVoters.decide node voters true = some
      { node with
        attestations := node.attestations.filter fun e => voters.confirms e.2
        fees := node.fees -
          ((node.attestations.filter fun e => !voters.confirms e.2).map (·.1.fee)).sum } := by
  simp only [byVoters, if_true, List.partition_eq_filter_filter]
  rfl

theorem byVoters_absent (r : Reduction) (node : Support) (voters : VoterGroup) :
    r.byVoters.decide node voters false =
      if node.weight - voters.weight ≤ r.half then none
      else some { node with weight := node.weight - voters.weight } := rfl

/-- What deciding a voter group can do to a node. -/
theorem byVoters_cases {node child : Support} {voters : VoterGroup} {taken : Bool}
    (h : r.byVoters.decide node voters taken = some child) :
    (taken = true ∧ child = { node with
      attestations := node.attestations.filter fun e => voters.confirms e.2
      fees := node.fees -
        ((node.attestations.filter fun e => !voters.confirms e.2).map (·.1.fee)).sum }) ∨
    (taken = false ∧ r.half < node.weight - voters.weight ∧
      child = { node with weight := node.weight - voters.weight }) := by
  cases taken with
  | true =>
      rw [byVoters_present] at h
      exact Or.inl ⟨rfl, (Option.some.inj h).symm⟩
  | false =>
      rw [byVoters_absent, Option.ite_none_left_eq_some, Nat.not_le] at h
      exact Or.inr ⟨rfl, h.1, (Option.some.inj h.2).symm⟩

theorem byVoters_shrinking (r : Reduction) : r.byVoters.Shrinking fun _ => True where
  sound _ _ := trivial
  fees_le _ h := by
    rcases byVoters_cases h with ⟨-, rfl⟩ | ⟨-, -, rfl⟩
    · exact Nat.sub_le _ _
    · exact Nat.le_refl _
  weight_le _ h := by
    rcases byVoters_cases h with ⟨-, rfl⟩ | ⟨-, -, rfl⟩
    · exact Nat.le_refl _
    · exact Nat.sub_le _ _

/-- The node that decisions on voter groups lead to: the participants weigh
in, and what all of them confirm is supported. -/
def supportAfter (node : Support) (base fixed : Nat) (participants : List VoterGroup) :
    Support where
  attestations := node.attestations.filter fun e => participants.all (·.confirms e.2)
  weight := base + (participants.map (·.weight)).sum
  fees := fixed +
    ((node.attestations.filter fun e => participants.all (·.confirms e.2)).map (·.1.fee)).sum

/-- **Where decisions on voters lead.**  They never lose the majority on the
way if they have it in the end, because the weight only sinks. -/
theorem follow_byVoters {entries : List VoterGroup} {node last : Support} {base fixed : Nat}
    {decisions : List Bool} (hweight : node.weight = base + (entries.map (·.weight)).sum)
    (hfees : node.fees = fixed + (node.attestations.map (·.1.fee)).sum)
    (hmajority : r.half < node.weight) :
    r.byVoters.follow node entries decisions = some last ↔
      decisions.length = entries.length ∧
      r.half < base + ((select entries decisions).map (·.weight)).sum ∧
      last = supportAfter node base fixed (select entries decisions) := by
  induction entries generalizing node base decisions with
  | nil =>
      have hnode : supportAfter node base fixed [] = node := by
        rcases node with ⟨attestations, weight, fees⟩
        simp only [List.map_nil, List.sum_nil] at hweight hfees
        simp [supportAfter, hweight, hfees]
      cases decisions with
      | nil =>
          have : r.half < base := by simpa [hweight] using hmajority
          simp [Branching.follow, hnode, this, eq_comm]
      | cons => simp [Branching.follow]
  | cons voters entries ih =>
      rw [List.map_cons, List.sum_cons] at hweight
      cases decisions with
      | nil => simp [Branching.follow]
      | cons taken decisions =>
          cases taken with
          | true =>
              have hsplit : (node.attestations.map (·.1.fee)).sum =
                  ((node.attestations.filter fun e => voters.confirms e.2).map (·.1.fee)).sum +
                  ((node.attestations.filter fun e => !voters.confirms e.2).map
                    (·.1.fee)).sum := by
                have hperm := List.filter_append_perm (fun e => voters.confirms e.2)
                  node.attestations
                rw [← (hperm.map _).sum_eq, List.map_append, List.sum_append]
              have hchild := byVoters_present r node voters
              generalize hnode : Support.mk _ _ _ = child at hchild
              have hafter : supportAfter child (base + voters.weight) fixed
                  (select entries decisions) =
                  supportAfter node base fixed (voters :: select entries decisions) := by
                subst hnode
                simp only [supportAfter, List.filter_filter, List.all_cons, List.map_cons,
                  List.sum_cons, Nat.add_assoc, Bool.and_comm]
              have hrest := @ih child (base + voters.weight) decisions
                (by subst hnode; dsimp only; omega) (by subst hnode; dsimp only; omega)
                (by subst hnode; exact hmajority)
              rw [Branching.follow, hchild]
              dsimp only
              rw [hrest, hafter]
              simp [Nat.add_assoc]
          | false =>
              have hle : ((select entries decisions).map (·.weight)).sum ≤
                  (entries.map (·.weight)).sum :=
                ((select_sublist entries decisions).map _).sum_le_sum (by simp)
              rw [Branching.follow, byVoters_absent]
              by_cases hhalf : node.weight - voters.weight ≤ r.half
              · rw [if_pos hhalf]
                simp only [select_cons, Bool.false_eq_true, if_false, reduceCtorEq, false_iff,
                  not_and]
                omega
              · rw [if_neg hhalf]
                have hrest := @ih { node with weight := node.weight - voters.weight } base
                  decisions (by dsimp only; omega) hfees (Nat.not_le.mp hhalf)
                rw [hrest]
                simp [supportAfter]

/-! ## Deciding attestations -/

theorem byAttestations_included (r : Reduction) (node : Coalition)
    (entry : AttestationGroup × Nat) :
    r.byAttestations.decide node entry true =
      if r.settled.weight + ((node.voters.filter (·.confirms entry.2)).map (·.weight)).sum ≤ r.half
      then none
      else some { node with
        voters := node.voters.filter (·.confirms entry.2)
        weight := r.settled.weight +
          ((node.voters.filter (·.confirms entry.2)).map (·.weight)).sum } := rfl

theorem byAttestations_left_out (r : Reduction) (node : Coalition)
    (entry : AttestationGroup × Nat) :
    r.byAttestations.decide node entry false =
      some { node with fees := node.fees - entry.1.fee } := rfl

/-- A coalition whose weight is that of its voters. -/
def Weighed (r : Reduction) (node : Coalition) : Prop :=
  node.weight = r.settled.weight + (node.voters.map (·.weight)).sum

/-- What deciding an attestation group can do to a node. -/
theorem byAttestations_cases {node child : Coalition} {entry : AttestationGroup × Nat}
    {taken : Bool} (h : r.byAttestations.decide node entry taken = some child) :
    (taken = true ∧ r.half < child.weight ∧ child = { node with
      voters := node.voters.filter (·.confirms entry.2)
      weight := r.settled.weight +
        ((node.voters.filter (·.confirms entry.2)).map (·.weight)).sum }) ∨
    (taken = false ∧ child = { node with fees := node.fees - entry.1.fee }) := by
  cases taken with
  | true =>
      rw [byAttestations_included, Option.ite_none_left_eq_some, Nat.not_le] at h
      obtain rfl := Option.some.inj h.2
      exact Or.inl ⟨rfl, h.1, rfl⟩
  | false =>
      rw [byAttestations_left_out] at h
      exact Or.inr ⟨rfl, (Option.some.inj h).symm⟩

theorem byAttestations_shrinking (r : Reduction) :
    r.byAttestations.Shrinking r.Weighed where
  sound hnode h := by
    rcases byAttestations_cases h with ⟨-, -, rfl⟩ | ⟨-, rfl⟩
    · rfl
    · exact hnode
  fees_le _ h := by
    rcases byAttestations_cases h with ⟨-, -, rfl⟩ | ⟨-, rfl⟩
    · exact Nat.le_refl _
    · exact Nat.sub_le _ _
  weight_le hnode h := by
    rcases byAttestations_cases h with ⟨-, -, rfl⟩ | ⟨-, rfl⟩
    · refine le_of_le_of_eq (Nat.add_le_add_left ?_ _) hnode.symm
      exact (List.filter_sublist.map _).sum_le_sum (by simp)
    · exact Nat.le_refl _

/-- The node that decisions on attestation groups lead to: the included
groups cost their fees, and the voters that confirm all of them are left. -/
def coalitionAfter (r : Reduction) (node : Coalition) (fixed : Nat)
    (included : List (AttestationGroup × Nat)) : Coalition where
  voters := node.voters.filter fun v => included.all fun e => v.confirms e.2
  weight := r.settled.weight +
    ((node.voters.filter fun v => included.all fun e => v.confirms e.2).map (·.weight)).sum
  fees := fixed + (included.map (·.1.fee)).sum

/-- **Where decisions on attestations lead.**  They never lose the majority on
the way if they have it in the end, because the coalition only shrinks. -/
theorem follow_byAttestations {entries : List (AttestationGroup × Nat)} {node last : Coalition}
    {fixed : Nat} {decisions : List Bool} (hnode : r.Weighed node)
    (hfees : node.fees = fixed + (entries.map (·.1.fee)).sum) (hmajority : r.half < node.weight) :
    r.byAttestations.follow node entries decisions = some last ↔
      decisions.length = entries.length ∧
      r.half < (r.coalitionAfter node fixed (select entries decisions)).weight ∧
      last = r.coalitionAfter node fixed (select entries decisions) := by
  induction entries generalizing node fixed decisions with
  | nil =>
      have hafter : r.coalitionAfter node fixed [] = node := by
        rcases node with ⟨voters, weight, fees⟩
        have hweight : weight = r.settled.weight + (voters.map (·.weight)).sum := hnode
        simp only [List.map_nil, List.sum_nil] at hfees
        simp [coalitionAfter, hweight, hfees]
      cases decisions with
      | nil => simp [Branching.follow, hafter, hmajority, eq_comm]
      | cons => simp [Branching.follow]
  | cons entry entries ih =>
      rw [List.map_cons, List.sum_cons] at hfees
      cases decisions with
      | nil => simp [Branching.follow]
      | cons taken decisions =>
          cases taken with
          | true =>
              have hafter : ∀ child : Coalition,
                  child.voters = node.voters.filter (·.confirms entry.2) →
                  r.coalitionAfter child (fixed + entry.1.fee) (select entries decisions) =
                    r.coalitionAfter node fixed (entry :: select entries decisions) := by
                intro child hvoters
                simp only [coalitionAfter, hvoters, List.filter_filter, List.all_cons,
                  List.map_cons, List.sum_cons, Nat.add_assoc, Bool.and_comm]
              have hle : (r.coalitionAfter node fixed (entry :: select entries decisions)).weight ≤
                  r.settled.weight +
                    ((node.voters.filter (·.confirms entry.2)).map (·.weight)).sum := by
                refine Nat.add_le_add_left ?_ _
                refine ((List.monotone_filter_right _ ?_).map _).sum_le_sum (by simp)
                intro v hv
                rw [List.all_cons, Bool.and_eq_true] at hv
                exact hv.1
              rw [Branching.follow, byAttestations_included]
              by_cases hhalf : r.settled.weight +
                  ((node.voters.filter (·.confirms entry.2)).map (·.weight)).sum ≤ r.half
              · rw [if_pos hhalf]
                simp only [select_cons, if_true, reduceCtorEq, false_iff, not_and]
                omega
              · rw [if_neg hhalf]
                dsimp only
                generalize hchild : Coalition.mk _ _ _ = child
                have hvoters : child.voters = node.voters.filter (·.confirms entry.2) := by
                  rw [← hchild]
                rw [@ih child (fixed + entry.1.fee) decisions (by subst hchild; rfl)
                  (by subst hchild; dsimp only; omega)
                  (by subst hchild; exact Nat.not_le.mp hhalf), hafter child hvoters]
                simp
          | false =>
              have hrest := @ih { node with fees := node.fees - entry.1.fee } fixed decisions
                hnode (by dsimp only; omega) hmajority
              rw [Branching.follow, byAttestations_left_out]
              dsimp only
              rw [hrest]
              simp [coalitionAfter]

/-! ## What the leaves stand for -/

/-- Leaves that stand for assignments of a reduction. -/
structure Reading (r : Reduction) (leaves : Leaf → Prop) (read : Leaf → Assignment) : Prop where
  fits : ∀ leaf, leaves leaf → (read leaf).Fits r
  majority : ∀ leaf, leaves leaf → r.half < r.weightOf (read leaf).participants
  worth_eq : ∀ leaf, (read leaf).worth = leaf.worth
  /-- No fitting assignment with a majority is worth more than all leaves. -/
  reaches : ∀ a : Assignment, a.Fits r → r.half < r.weightOf a.participants →
    ∃ leaf, leaves leaf ∧ a.worth ≤ leaf.worth

variable {scope : Scope}

/-- Deciding all voter groups leads to the support of the assignment that the
decisions stand for. -/
theorem supportAfter_decides (r : Reduction) (leaf : Leaf) :
    (supportAfter r.wholeSupport r.settled.weight r.settled.fees
      (select r.voters leaf.decisions)).Decides r (r.assignmentOfParticipants leaf) where
  attestations_eq := by
    simp only [assignmentOfParticipants, confirmedByAll_eq]
    rw [select_map_zipIdx]
    rfl
  weight_eq := weightOf_eq.symm
  fees_eq := by
    simp only [assignmentOfParticipants, feesOf_eq, confirmedByAll_eq]
    rw [select_map_zipIdx, List.map_map]
    rfl

/-- Where decisions on all voters lead from the root. -/
theorem follow_wholeSupport (hmajority : r.half < r.weight) {decisions : List Bool}
    {last : Support} :
    r.byVoters.follow r.wholeSupport r.voters decisions = some last ↔
      decisions.length = r.voters.length ∧ r.half < r.weightOf decisions ∧
      last = supportAfter r.wholeSupport r.settled.weight r.settled.fees
        (select r.voters decisions) := by
  rw [weightOf_eq]
  refine follow_byVoters rfl ?_ hmajority
  have hfees : r.attestations.zipIdx.map (·.1.fee) = r.attestations.map (·.fee) := by
    conv_rhs => rw [← List.zipIdx_map_fst 0 r.attestations, List.map_map]
    rfl
  exact congrArg (r.settled.fees + ·.sum) hfees.symm

/-- The leaves of a search by voters, said of the assignments they stand
for. -/
theorem isLeaf_byVoters (htotal : scope.total = r.total) (hmajority : r.half < r.weight)
    {leaf : Leaf} :
    r.byVoters.IsLeaf scope r.voters r.wholeSupport leaf ↔
      leaf.decisions.length = r.voters.length ∧ r.half < r.weightOf leaf.decisions ∧
      leaf.worth = r.worthOf (r.assignmentOfParticipants leaf) := by
  have hdecides := r.supportAfter_decides leaf
  simp only [Branching.IsLeaf, follow_wholeSupport hmajority]
  constructor
  · intro hreached
    obtain ⟨last, ⟨hlength, hhalf, rfl⟩, hleaf⟩ := hreached
    exact ⟨hlength, hhalf, hleaf.trans (hdecides.worth_eq htotal)⟩
  · intro hdecided
    obtain ⟨hlength, hhalf, hleaf⟩ := hdecided
    exact ⟨_, ⟨hlength, hhalf, rfl⟩, hleaf.trans (hdecides.worth_eq htotal).symm⟩

/-- **Deciding voters** reads every assignment. -/
theorem reading_voters (htotal : scope.total = r.total) (hmajority : r.half < r.weight) :
    r.Reading (r.byVoters.IsLeaf scope r.voters r.wholeSupport) r.assignmentOfParticipants where
  fits leaf hleaf := by
    obtain ⟨hlength, -, hworth⟩ := (isLeaf_byVoters htotal hmajority).mp hleaf
    refine ⟨hlength, by simp [assignmentOfParticipants], ?_, hworth⟩
    intro j hj
    simp only [assignmentOfParticipants, List.getElem?_map, List.getElem?_zipIdx, Option.map_map,
      Option.map_eq_some_iff] at hj
    obtain ⟨_, -, hconfirmed⟩ := hj
    simpa [assignmentOfParticipants] using hconfirmed
  majority leaf hleaf := ((isLeaf_byVoters htotal hmajority).mp hleaf).2.1
  worth_eq _ := rfl
  reaches a ha hhalf := by
    let leaf : Leaf :=
      ⟨a.participants, r.worthOf (r.assignmentOfParticipants ⟨a.participants, .zero⟩)⟩
    refine ⟨leaf, (isLeaf_byVoters htotal hmajority).mpr ⟨ha.participants_length, hhalf, rfl⟩, ?_⟩
    rw [ha.worth_eq]
    refine worthOf_mono (fun _ _ h => h) fun j hj hincluded => ?_
    have hconfirmed := ha.backed j hincluded
    simp [assignmentOfParticipants, hj, hconfirmed]

/-- The attestation group at a position. -/
theorem getElem?_of_mem_entriesAt {order : List Nat} {entry : AttestationGroup × Nat}
    (h : entry ∈ r.entriesAt order) : r.attestations[entry.2]? = some entry.1 := by
  simp only [entriesAt, List.mem_filterMap, List.getElem?_toArray] at h
  obtain ⟨j, -, hj⟩ := h
  simp only [List.getElem?_zipIdx, Option.map_eq_some_iff] at hj
  obtain ⟨group, hgroup, rfl⟩ := hj
  simpa using hgroup

theorem entriesAt_positions {order : List Nat} (h : ∀ j ∈ order, j < r.attestations.length) :
    (r.entriesAt order).map (·.2) = order := by
  simp only [entriesAt, List.map_filterMap]
  have hsome : ∀ j ∈ order,
      Option.map (·.2) (r.attestations.zipIdx.toArray[j]?) = some j := by
    intro j hj
    simp [h j hj]
  rw [List.filterMap_congr hsome]
  simp

theorem fee_of_mem_entriesAt {order : List Nat} {entry : AttestationGroup × Nat}
    (h : entry ∈ r.entriesAt order) :
    entry.1.fee = (r.attestations.map (·.fee)).getD entry.2 0 := by
  simp [List.getD_eq_getElem?_getD, getElem?_of_mem_entriesAt h]

/-- The attestation groups that decisions in some order include. -/
theorem included_assignmentOfInclusions {order : List Nat} {leaf : Leaf} :
    (r.assignmentOfInclusions order leaf).included =
      ofPositions r.attestations.length (select order leaf.decisions) := by
  simp only [assignmentOfInclusions, select]
  congr 1
  induction order.zip leaf.decisions with
  | nil => rfl
  | cons pair pairs ih =>
      rcases pair with ⟨position, taken⟩
      cases taken <;> simp [ih]

theorem participants_assignmentOfInclusions {order : List Nat} {leaf : Leaf} :
    select r.voters (r.assignmentOfInclusions order leaf).participants =
      r.voters.filter (confirmsAll (r.assignmentOfInclusions order leaf).included) :=
  select_map r.voters _

variable {order : List Nat}

/-- All groups together cost the same in any order. -/
theorem sum_fees_entriesAt (horder : order.Perm (List.range r.attestations.length)) :
    ((r.entriesAt order).map (·.1.fee)).sum = (r.attestations.map (·.fee)).sum := by
  have hpositions : (r.entriesAt order).map (·.2) = order :=
    entriesAt_positions fun j hj => List.mem_range.mp (horder.mem_iff.mp hj)
  have hfees : (r.entriesAt order).map (·.1.fee) =
      order.map ((r.attestations.map (·.fee)).getD · 0) := by
    conv_rhs => rw [← hpositions, List.map_map]
    exact List.map_congr_left fun e he => fee_of_mem_entriesAt he
  rw [hfees, (horder.map _).sum_eq, map_getD_range (by simp)]

/-- Deciding in any order of all groups leads to the coalition of the
assignment that the decisions stand for. -/
theorem coalitionAfter_decides (horder : order.Perm (List.range r.attestations.length))
    (leaf : Leaf) :
    (r.coalitionAfter r.wholeCoalition r.settled.fees
      (select (r.entriesAt order) leaf.decisions)).Decides r
        (r.assignmentOfInclusions order leaf) := by
  have hlt : ∀ j ∈ order, j < r.attestations.length := fun j hj =>
    List.mem_range.mp (horder.mem_iff.mp hj)
  have hpositions : (select (r.entriesAt order) leaf.decisions).map (·.2) =
      select order leaf.decisions := by
    rw [map_select, entriesAt_positions hlt]
  have hsub : ∀ j ∈ select order leaf.decisions, j < r.attestations.length := fun j hj =>
    hlt j ((select_sublist _ _).subset hj)
  have hvoters : (r.coalitionAfter r.wholeCoalition r.settled.fees
      (select (r.entriesAt order) leaf.decisions)).voters =
      select r.voters (r.assignmentOfInclusions order leaf).participants := by
    rw [participants_assignmentOfInclusions, included_assignmentOfInclusions]
    refine List.filter_congr fun v _ => ?_
    rw [Bool.eq_iff_iff, confirmsAll_iff, ← hpositions, List.all_eq_true]
    simp only [getElem?_ofPositions, List.mem_map]
    constructor
    · intro h j hj
      obtain ⟨-, e, he, rfl⟩ := hj
      exact h e he
    · intro h e he
      exact h e.2 ⟨hsub _ (hpositions ▸ List.mem_map_of_mem he), e, he, rfl⟩
  refine ⟨hvoters, ?_, ?_⟩
  · rw [weightOf_eq, ← hvoters]
    rfl
  · have hfees : (select (r.entriesAt order) leaf.decisions).map (·.1.fee) =
        (select order leaf.decisions).map ((r.attestations.map (·.fee)).getD · 0) := by
      rw [← hpositions, List.map_map]
      exact List.map_congr_left fun e he =>
        fee_of_mem_entriesAt ((select_sublist _ _).subset he)
    have hnodup : (select order leaf.decisions).Nodup :=
      (horder.nodup_iff.mpr List.nodup_range).sublist (select_sublist _ _)
    rw [feesOf_eq, included_assignmentOfInclusions, map_select,
      sum_select_ofPositions (by simp) hnodup hsub, ← hfees]
    rfl

/-- Where decisions on all attestations, in any order, lead from the root. -/
theorem follow_wholeCoalition (hmajority : r.half < r.weight)
    (horder : order.Perm (List.range r.attestations.length)) {leaf : Leaf} {last : Coalition} :
    r.byAttestations.follow r.wholeCoalition (r.entriesAt order) leaf.decisions = some last ↔
      leaf.decisions.length = order.length ∧
      r.half < r.weightOf (r.assignmentOfInclusions order leaf).participants ∧
      last = r.coalitionAfter r.wholeCoalition r.settled.fees
        (select (r.entriesAt order) leaf.decisions) := by
  have hpositions : (r.entriesAt order).map (·.2) = order :=
    entriesAt_positions fun j hj => List.mem_range.mp (horder.mem_iff.mp hj)
  have hlength : (r.entriesAt order).length = order.length := by
    rw [← hpositions, List.length_map, hpositions]
  have hwhole : r.fees = r.settled.fees + ((r.entriesAt order).map (·.1.fee)).sum := by
    rw [sum_fees_entriesAt horder]
    rfl
  have hroot : r.Weighed r.wholeCoalition := rfl
  rw [follow_byAttestations hroot hwhole hmajority, hlength,
    (coalitionAfter_decides horder leaf).weight_eq]

/-- The leaves of a search by attestations, said of the assignments they
stand for. -/
theorem isLeaf_byAttestations (htotal : scope.total = r.total) (hmajority : r.half < r.weight)
    (horder : order.Perm (List.range r.attestations.length)) {leaf : Leaf} :
    r.byAttestations.IsLeaf scope (r.entriesAt order) r.wholeCoalition leaf ↔
      leaf.decisions.length = order.length ∧
      r.half < r.weightOf (r.assignmentOfInclusions order leaf).participants ∧
      leaf.worth = r.worthOf (r.assignmentOfInclusions order leaf) := by
  have hdecides := coalitionAfter_decides horder leaf
  simp only [Branching.IsLeaf, follow_wholeCoalition hmajority horder]
  constructor
  · intro hreached
    obtain ⟨last, ⟨hlength, hhalf, rfl⟩, hleaf⟩ := hreached
    exact ⟨hlength, hhalf, hleaf.trans (hdecides.worth_eq htotal)⟩
  · intro hdecided
    obtain ⟨hlength, hhalf, hleaf⟩ := hdecided
    exact ⟨_, ⟨hlength, hhalf, rfl⟩, hleaf.trans (hdecides.worth_eq htotal).symm⟩

/-- **Deciding attestations**, in any order of all of them, reads every
assignment.  To reach an assignment, decide for what it includes: then all of
its participants are left, since they back it. -/
theorem reading_attestations (htotal : scope.total = r.total) (hmajority : r.half < r.weight)
    (horder : order.Perm (List.range r.attestations.length)) :
    r.Reading (r.byAttestations.IsLeaf scope (r.entriesAt order) r.wholeCoalition)
      (r.assignmentOfInclusions order) where
  fits leaf hleaf := by
    obtain ⟨-, -, hworth⟩ := (isLeaf_byAttestations htotal hmajority horder).mp hleaf
    refine ⟨by simp [assignmentOfInclusions], by simp [assignmentOfInclusions], ?_, hworth⟩
    rw [Assignment.backed_iff, participants_assignmentOfInclusions]
    intro j hj voters hvoters
    exact confirmsAll_iff.mp (List.mem_filter.mp hvoters).2 j hj
  majority leaf hleaf := ((isLeaf_byAttestations htotal hmajority horder).mp hleaf).2.1
  worth_eq _ := rfl
  reaches a ha hhalf := by
    let decisions := inOrder order a.included
    let x := r.assignmentOfInclusions order ⟨decisions, .zero⟩
    have hincluded : x.included = a.included := by
      rw [included_assignmentOfInclusions, ← ha.included_length]
      exact ofPositions_inOrder (ha.included_length ▸ horder)
    have hparticipants : ∀ i, i < r.voters.length → a.participants[i]? = some true →
        x.participants[i]? = some true := by
      intro i hi hflag
      have hvoters := List.getElem?_eq_getElem hi
      have hall : confirmsAll x.included r.voters[i] = true := by
        rw [hincluded]
        exact ha.confirmsAll_included hvoters hflag
      change (r.voters.map (confirmsAll x.included))[i]? = some true
      rw [List.getElem?_map, hvoters, Option.map_some, hall]
    have hle : r.worthOf a ≤ r.worthOf x :=
      worthOf_mono hparticipants fun _ _ hflag => hincluded ▸ hflag
    refine ⟨⟨decisions, r.worthOf x⟩,
      (isLeaf_byAttestations htotal hmajority horder).mpr
        ⟨by simp [decisions, inOrder], ?_, rfl⟩, ?_⟩
    · exact Nat.lt_of_lt_of_le hhalf (weightOf_mono hparticipants)
    · rw [ha.worth_eq]
      exact hle

end Reduction

end BallotConsensus
