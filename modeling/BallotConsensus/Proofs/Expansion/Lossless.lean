import BallotConsensus.Proofs.Agreement.Unanimity
import BallotConsensus.Proofs.Reduction.Concise

/-!
# Expansion loses nothing

Assignments that a search finds are only a few of all assignments that could be
written down on a reduction.  For all of them, backed or not, the outcome that
they expand to has the same worth and the same weight, and it is backed exactly
if the assignment is.  No two of them expand to the same outcome: every group
has a member, and its flag can be read off any of its members again.

* `Assignment.Sized` — the assignments with one flag per group;
* `Outcome.mem_settled_append_membersOf` — a member takes the flag of its group;
* `Reduction.Represents.isBacked_expand_iff` — expansion neither adds nor loses
  backing;
* `Outcome.expand_lossless` — **expansion loses nothing.**
-/

namespace BallotConsensus

/-- **One flag per group**, whatever the flags are. -/
structure Assignment.Sized (a : Assignment) (r : Reduction) : Prop where
  participants_length : a.participants.length = r.voters.length
  included_length : a.included.length = r.attestations.length

/-! ## Flags read back -/

/-- If nothing is listed twice, a member is in one list only. -/
theorem index_eq_of_mem {lists : List (List Nat)} (hnodup : lists.flatten.Nodup) {i j x : Nat}
    {l m : List Nat} (hi : lists[i]? = some l) (hj : lists[j]? = some m) (hl : x ∈ l)
    (hm : x ∈ m) : i = j := by
  have hdisjoint := List.pairwise_iff_getElem.mp (List.nodup_flatten.mp hnodup).2
  obtain ⟨hilt, rfl⟩ := List.getElem?_eq_some_iff.mp hi
  obtain ⟨hjlt, rfl⟩ := List.getElem?_eq_some_iff.mp hj
  rcases Nat.lt_trichotomy i j with hlt | heq | hgt
  · exact (hdisjoint i j hilt hjlt hlt hl hm).elim
  · exact heq
  · exact (hdisjoint j i hjlt hilt hgt hm hl).elim

namespace Outcome

variable {settled : List Nat} {lists : List (List Nat)} {flags others : List Bool}

/-- **A member takes the flag of its group**, and is settled by nothing else. -/
theorem mem_settled_append_membersOf (hnodup : (settled ++ lists.flatten).Nodup) {i x : Nat}
    {l : List Nat} (hi : lists[i]? = some l) (hx : x ∈ l) :
    x ∈ settled ++ membersOf lists flags ↔ flags[i]? = some true := by
  have hopen : x ∈ lists.flatten := List.mem_flatten.mpr ⟨l, List.mem_of_getElem? hi, hx⟩
  have hmembers : x ∈ membersOf lists flags ↔
      ∃ (j : Nat) (m : List Nat), lists[j]? = some m ∧ flags[j]? = some true ∧ x ∈ m := by
    simpa using @mem_membersOf _ lists id flags x
  rw [List.mem_append, hmembers]
  constructor
  · intro hmem
    rcases hmem with hsettled | ⟨j, m, hj, hflag, hm⟩
    · exact (List.disjoint_of_nodup_append hnodup hsettled hopen).elim
    · rwa [index_eq_of_mem (List.nodup_append.mp hnodup).2.1 hi hj hx hm]
  · intro hflag
    exact Or.inr ⟨i, l, hi, hflag, hx⟩

/-- **Flags can be read back**: lists of flags that stand for the same members are
equal. -/
theorem flags_eq_of_same_members (hnodup : (settled ++ lists.flatten).Nodup)
    (hmembers : ∀ l ∈ lists, l ≠ []) (hlength : flags.length = lists.length)
    (hlength' : others.length = lists.length)
    (hsame : ∀ x, x ∈ settled ++ membersOf lists flags ↔ x ∈ settled ++ membersOf lists others) :
    flags = others := by
  refine Flags.ext_flagged (hlength.trans hlength'.symm) fun i => ?_
  by_cases hi : i < lists.length
  · have hlist := List.getElem?_eq_getElem hi
    obtain ⟨x, hx⟩ := List.exists_mem_of_ne_nil _ (hmembers _ (List.mem_of_getElem? hlist))
    rw [← mem_settled_append_membersOf hnodup hlist hx,
      ← mem_settled_append_membersOf hnodup hlist hx, hsame x]
  · rw [List.getElem?_eq_none (by omega), List.getElem?_eq_none (by omega)]

end Outcome

/-! ## Expansion -/

namespace Reduction

variable {r : Reduction} {votes : List WeightedBallot} {fees : List Nat} {a b : Assignment}
  {optimal optimal' : Bool}

/-- **Expansion neither adds nor loses backing.** -/
theorem Concise.isBacked_expand_iff (h : r.Concise votes fees) (ha : a.Sized r) :
    (Outcome.expand votes.length fees.length r a optimal).isBacked votes = true ↔ a.Backed r := by
  have hrepresents : r.Represents votes fees := h.toRepresents
  rw [Outcome.isBacked_iff]
  constructor
  · intro hconfirms
    rw [Assignment.backed_iff]
    intro j hj voters hvoters
    obtain ⟨i, hi, hflag⟩ := Flags.mem_select.mp hvoters
    have hjlt : j < r.attestations.length :=
      ha.included_length ▸ (List.getElem?_eq_some_iff.mp hj).1
    have hgroup := List.getElem?_eq_getElem hjlt
    refine (h.confirms_iff_all voters (List.mem_of_getElem? hi) j _ hgroup).mpr ?_
    intro v hv x hx
    exact hconfirms v x
      (hrepresents.expand_participants.mpr (mem_positionsOf_of_group hi hflag hv))
      (hrepresents.expand_included.mpr (mem_inclusionsOf_of_group hgroup hj hx))
  · intro hbacked v x hv hx
    exact hrepresents.expand_confirms hbacked (hrepresents.expand_participants.mp hv)
      (hrepresents.expand_included.mp hx)

/-- Participation can be read off the outcome. -/
theorem Concise.participants_eq_of_expand (h : r.Concise votes fees) (ha : a.Sized r)
    (hb : b.Sized r)
    (hsame : (Outcome.expand votes.length fees.length r a optimal).participants =
      (Outcome.expand votes.length fees.length r b optimal').participants) :
    a.participants = b.participants := by
  have hrepresents : r.Represents votes fees := h.toRepresents
  refine Outcome.flags_eq_of_same_members
    (hrepresents.voters_perm.nodup_iff.mpr List.nodup_range) h.voters_listed.ne_nil
    (by simpa using ha.participants_length) (by simpa using hb.participants_length) fun v => ?_
  change v ∈ r.positionsOf a.participants ↔ v ∈ r.positionsOf b.participants
  have hread : (Outcome.expand votes.length fees.length r a optimal).participants[v]? =
      some true ↔ v ∈ r.positionsOf b.participants := by
    rw [hsame]
    exact hrepresents.expand_participants
  exact hrepresents.expand_participants.symm.trans hread

/-- Inclusion can be read off the outcome. -/
theorem Concise.included_eq_of_expand (h : r.Concise votes fees) (ha : a.Sized r)
    (hb : b.Sized r)
    (hsame : (Outcome.expand votes.length fees.length r a optimal).included =
      (Outcome.expand votes.length fees.length r b optimal').included) :
    a.included = b.included := by
  have hrepresents : r.Represents votes fees := h.toRepresents
  have hnodup := hrepresents.attestations_perm.nodup_iff.mpr List.nodup_range
  refine Outcome.flags_eq_of_same_members (List.nodup_append.mp hnodup).1
    h.attestations_listed.ne_nil (by simpa using ha.included_length)
    (by simpa using hb.included_length) fun x => ?_
  change x ∈ r.inclusionsOf a.included ↔ x ∈ r.inclusionsOf b.included
  have hread : (Outcome.expand votes.length fees.length r a optimal).included[x]? =
      some true ↔ x ∈ r.inclusionsOf b.included := by
    rw [hsame]
    exact hrepresents.expand_included
  exact hrepresents.expand_included.symm.trans hread

end Reduction

/-- **Expansion loses nothing**, whatever the assignment: worth and weight are
those of the assignment, the outcome is backed exactly if the assignment is, and
the flags can be read off the outcome again. -/
theorem Outcome.expand_lossless {votes : List WeightedBallot} {fees : List Nat} {total : Nat}
    {r : Reduction} (hr : Reduction.ofRound votes fees total = r) {a b : Assignment}
    (ha : a.Sized r) (hb : b.Sized r) (optimal optimal' : Bool) :
    (expand votes.length fees.length r a optimal).worthFrom votes fees total = r.worthOf a ∧
      (expand votes.length fees.length r a optimal).weight votes =
        r.settled.weight + ((Flags.select r.voters a.participants).map (·.weight)).sum ∧
      ((expand votes.length fees.length r a optimal).isBacked votes = true ↔ a.Backed r) ∧
      ((expand votes.length fees.length r a optimal).participants =
        (expand votes.length fees.length r b optimal').participants →
          a.participants = b.participants) ∧
      ((expand votes.length fees.length r a optimal).included =
        (expand votes.length fees.length r b optimal').included → a.included = b.included) := by
  have hconcise : r.Concise votes fees := hr ▸ Reduction.ofRound_concise votes fees total
  have hrepresents : r.Represents votes fees := hconcise.toRepresents
  have htotal : r.total = total := hr ▸ rfl
  refine ⟨?_, ?_, hconcise.isBacked_expand_iff ha, hconcise.participants_eq_of_expand ha hb,
    hconcise.included_eq_of_expand ha hb⟩
  · rw [worthFrom, hrepresents.fees_expand, hrepresents.weight_expand, ← htotal]
    rfl
  · rw [hrepresents.weight_expand, Reduction.weightOf_eq]

/-- In the round of three voters that a fourth one crowns, two voters participate
beside the settled one and include what only they have in common.  Including
more is another assignment and another outcome, which is not backed. -/
theorem Outcome.expand_lossless_of_crowned :
    ∃ r a b, Reduction.ofRound Agreement.crownedVotes [1, 1, 1, 0, 1] 5 = r ∧ a.Sized r ∧
      b.Sized r ∧ a.included ≠ b.included ∧
      (expand 4 5 r a true).worthFrom Agreement.crownedVotes [1, 1, 1, 0, 1] 5 = ⟨3, 3⟩ ∧
      (expand 4 5 r a true).weight Agreement.crownedVotes = 3 ∧
      (expand 4 5 r a true).isBacked Agreement.crownedVotes = true ∧
      (expand 4 5 r b true).isBacked Agreement.crownedVotes = false ∧
      (expand 4 5 r a true).included ≠ (expand 4 5 r b true).included := by
  let r := Reduction.ofRound Agreement.crownedVotes [1, 1, 1, 0, 1] 5
  let a : Assignment := ⟨[true, false, true], [false, true, false], .zero⟩
  let b : Assignment := ⟨[true, false, true], [true, true, false], .zero⟩
  have ha : a.Sized r := ⟨by decide +kernel, by decide +kernel⟩
  have hb : b.Sized r := ⟨by decide +kernel, by decide +kernel⟩
  have hne : a.included ≠ b.included := by decide
  have hbacked : a.Backed r := by
    intro j hj
    rcases j with _ | _ | _ | j
    · exact absurd hj (by decide)
    · decide +kernel
    · exact absurd hj (by decide)
    · simp [a] at hj
  have hnot : ¬ b.Backed r := by
    intro hall
    exact absurd (hall 0 rfl) (by decide +kernel)
  obtain ⟨hworth, hweight, hiff, -, hincluded⟩ := expand_lossless (rfl : _ = r) ha hb true true
  obtain ⟨-, -, hiff', -⟩ := expand_lossless (rfl : _ = r) hb ha true true
  refine ⟨r, a, b, rfl, ha, hb, hne, ?_, ?_, hiff.mpr hbacked, ?_, mt hincluded hne⟩
  · exact hworth.trans (by decide +kernel)
  · exact hweight.trans (by decide +kernel)
  · exact Bool.eq_false_iff.mpr (mt hiff'.mp hnot)

end BallotConsensus
