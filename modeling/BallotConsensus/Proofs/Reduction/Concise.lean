import BallotConsensus.Proofs.Reduction.ClosedForm

/-!
# A reduction is concise

A reduction does not only represent its round, it does so without saying
anything twice.  Voter groups and attestation groups are the rows and the
columns of one table of votes, written down once by rows and once by columns.
No two rows are equal and no two columns are, no row is full and no column is:
voters that vote alike would have been grouped, and whoever confirms everything
and whatever everybody confirms would have been settled.

* `WellListed` — how the members of groups are listed, and
  `wellListed_groupsBy`: grouping lists them so;
* `Standing.reduce_confirms_eq_support` — rows and columns are of one table;
* `Standing.nodup_confirmed`, `Standing.nodup_support` — **no two are alike**;
* `Reduction.Concise`, with `Reduction.ofRound_concise`: **every reduction of a
  round is concise.**
-/

namespace BallotConsensus

/-- The smallest of one list of positions lies below the smallest of another. -/
def StartsBefore (first later : List Nat) : Prop := ∃ x ∈ first, ∀ y ∈ later, x < y

/-- **How the members of groups are listed**: no list is empty, each is ascending
and they come in the order of their smallest members. -/
structure WellListed (lists : List (List Nat)) : Prop where
  ne_nil : ∀ positions ∈ lists, positions ≠ []
  ascending : ∀ positions ∈ lists, positions.Pairwise (· < ·)
  by_smallest : lists.Pairwise StartsBefore

/-- **Grouping what is in order keeps it in order.** -/
theorem wellListed_groupsBy {α κ : Type} [BEq κ] [LawfulBEq κ] (key : α → κ) {members : List α}
    {position : α → Nat} (h : (members.map position).Pairwise (· < ·)) :
    WellListed ((groupsBy key members).map fun group => group.2.map position) where
  ne_nil positions hpositions := by
    obtain ⟨group, hgroup, rfl⟩ := List.mem_map.mp hpositions
    obtain ⟨member, hmember⟩ := exists_mem_of_group hgroup
    exact List.ne_nil_of_mem (List.mem_map_of_mem hmember)
  ascending positions hpositions := by
    obtain ⟨group, hgroup, rfl⟩ := List.mem_map.mp hpositions
    rw [mem_groupsBy hgroup]
    exact h.sublist (List.filter_sublist.map position)
  by_smallest := by
    rw [List.pairwise_map] at h ⊢
    refine (groupsBy_pairwise h).imp fun {first later} hstarts => ?_
    obtain ⟨x, hx, hbefore⟩ := hstarts
    refine ⟨position x, List.mem_map_of_mem hx, fun y hy => ?_⟩
    obtain ⟨member, hmember, rfl⟩ := List.mem_map.mp hy
    exact hbefore member hmember

namespace Standing

variable {s : Standing} {total : Nat}

/-! ## Rows and columns -/

/-- **Rows and columns are of one table**: a voter group confirms an attestation
group exactly if it is among the supporters. -/
theorem reduce_confirms_eq_support {i j : Nat} {voters : VoterGroup}
    {attestations : AttestationGroup} (hvoters : (s.reduce total).voters[i]? = some voters)
    (hattestations : (s.reduce total).attestations[j]? = some attestations) :
    voters.confirms j = attestations.support.testBit i := by
  rw [voters_reduce, Option.map_eq_some_iff] at hvoters
  obtain ⟨vg, -, rfl⟩ := hvoters
  rw [attestations_reduce, Option.map_eq_some_iff] at hattestations
  obtain ⟨ag, hag, rfl⟩ := hattestations
  simp [VoterGroup.confirms, Flags.testBit_toBits, List.getD_eq_getElem?_getD, hag]

/-- A row is no longer than there are columns. -/
theorem confirmed_lt {voters : VoterGroup} (h : voters ∈ (s.reduce total).voters) :
    voters.confirmed < 2 ^ (s.reduce total).attestations.length := by
  obtain ⟨i, _, -, -, rfl⟩ := exists_voterGroup_of_mem h
  have hlength : (s.reduce total).attestations.length =
      (s.attestationGroups.map (·.1.testBit i)).length := by simp [reduce]
  exact hlength ▸ Flags.toBits_lt _

/-- A column is no longer than there are rows. -/
theorem support_lt {attestations : AttestationGroup}
    (h : attestations ∈ (s.reduce total).attestations) :
    attestations.support < 2 ^ (s.reduce total).voters.length := by
  obtain ⟨_, ag, -, hag, rfl⟩ := exists_attestationGroup_of_mem h
  obtain ⟨a, ha⟩ := exists_mem_of_attestationGroup (List.mem_of_getElem? hag)
  have hlength : (s.reduce total).voters.length = (s.supportersOf a).length := by
    simp [reduce, supportersOf]
  change ag.1 < _
  rw [key_of_attestationGroup (List.mem_of_getElem? hag) ha, hlength]
  exact Flags.toBits_lt _

/-! ## No two are alike -/

/-- Open attestations are in a group. -/
theorem exists_attestationGroup {a : Attestation} (ha : a ∈ s.attestations) :
    ∃ (j : Nat) (ag : Nat × List Attestation), s.attestationGroups[j]? = some ag ∧ a ∈ ag.2 := by
  obtain ⟨ag, hag, hmember⟩ :=
    exists_group_of_mem (fun a => Flags.toBits (s.supportersOf a)) ha
  rw [← attestationGroups_eq_groupsBy] at hag
  obtain ⟨j, hj⟩ := List.mem_iff_getElem?.mp hag
  exact ⟨j, ag, hj, hmember⟩

/-- Open voters are in a group. -/
theorem exists_voterGroup {v : Voter} (hv : v ∈ s.voters) :
    ∃ (i : Nat) (vg : Nat × List Voter), s.voterGroups[i]? = some vg ∧ v ∈ vg.2 := by
  obtain ⟨vg, hvg, hmember⟩ := exists_group_of_mem
    (fun voter : Voter => Flags.toBits (s.attestations.map voter.confirms)) hv
  obtain ⟨i, hi⟩ := List.mem_iff_getElem?.mp hvg
  exact ⟨i, vg, hi, hmember⟩

/-- **No two rows are equal.**  Voters whose groups confirm the same attestation
groups confirm the same attestations, so they are in one group. -/
theorem nodup_confirmed : ((s.reduce total).voters.map (·.confirmed)).Nodup := by
  have hkeys : (s.voterGroups.map (·.1)).Nodup := nodup_groupsBy_keys _ _
  rw [List.nodup_iff_getElem?_ne_getElem?] at hkeys ⊢
  intro i i' hlt hlength hrows
  have hlength' : i' < (s.reduce total).voters.length := by simpa using hlength
  have hi := List.getElem?_eq_getElem (Nat.lt_trans hlt hlength')
  have hi' := List.getElem?_eq_getElem hlength'
  rw [List.getElem?_map, List.getElem?_map, hi, hi', Option.map_some, Option.map_some,
    Option.some.injEq] at hrows
  obtain ⟨vg, hvg, -⟩ := Option.map_eq_some_iff.mp ((voters_reduce i).symm.trans hi)
  obtain ⟨vg', hvg', -⟩ := Option.map_eq_some_iff.mp ((voters_reduce i').symm.trans hi')
  obtain ⟨v, hv⟩ := exists_mem_of_group (List.mem_of_getElem? hvg)
  obtain ⟨v', hv'⟩ := exists_mem_of_group (List.mem_of_getElem? hvg')
  have halike : ∀ a ∈ s.attestations, v.confirms a = v'.confirms a := by
    intro a ha
    obtain ⟨j, ag, hag, hmember⟩ := exists_attestationGroup ha
    rw [← reduce_confirms hi hvg hag hv hmember, ← reduce_confirms hi' hvg' hag hv' hmember]
    exact congrArg (Nat.testBit · j) hrows
  have hkey : vg.1 = vg'.1 := by
    rw [← key_of_mem_group (List.mem_of_getElem? hvg) hv,
      ← key_of_mem_group (List.mem_of_getElem? hvg') hv', Flags.toBits_map_inj.mpr halike]
  refine hkeys i i' hlt (by simpa [reduce] using hlength') ?_
  rw [List.getElem?_map, List.getElem?_map, hvg, hvg', Option.map_some, Option.map_some, hkey]

/-- **No two columns are equal**: attestations are grouped by them. -/
theorem nodup_support : ((s.reduce total).attestations.map (·.support)).Nodup := by
  have hsupport : (s.reduce total).attestations.map (·.support) =
      s.attestationGroups.map (·.1) := by simp [reduce]
  rw [hsupport, attestationGroups_eq_groupsBy]
  exact nodup_groupsBy_keys _ _

/-! ## No row and no column is full -/

/-- If no open voter confirms everything open, no row is full. -/
theorem exists_unconfirmed_reduce
    (hopen : ∀ v ∈ s.voters, ∃ a ∈ s.attestations, v.confirms a = false)
    {voters : VoterGroup} (h : voters ∈ (s.reduce total).voters) :
    ∃ j, j < (s.reduce total).attestations.length ∧ voters.confirms j = false := by
  obtain ⟨i, vg, hi, hvg, -⟩ := exists_voterGroup_of_mem h
  obtain ⟨v, hv⟩ := exists_mem_of_group (List.mem_of_getElem? hvg)
  obtain ⟨a, ha, hnot⟩ := hopen v (mem_voters_of_group (List.mem_of_getElem? hvg) hv)
  obtain ⟨j, ag, hag, hmember⟩ := exists_attestationGroup ha
  refine ⟨j, ?_, (reduce_confirms hi hvg hag hv hmember).trans hnot⟩
  simpa [reduce] using (List.getElem?_eq_some_iff.mp hag).1

/-- If no open attestation is confirmed by everybody open, no column is full. -/
theorem exists_unsupporting_reduce
    (hopen : ∀ a ∈ s.attestations, ∃ v ∈ s.voters, v.confirms a = false)
    {attestations : AttestationGroup} (h : attestations ∈ (s.reduce total).attestations) :
    ∃ i, i < (s.reduce total).voters.length ∧ attestations.support.testBit i = false := by
  obtain ⟨j, ag, hj, hag, -⟩ := exists_attestationGroup_of_mem h
  obtain ⟨a, ha⟩ := exists_mem_of_attestationGroup (List.mem_of_getElem? hag)
  obtain ⟨v, hv, hnot⟩ := hopen a (mem_attestations_of_group (List.mem_of_getElem? hag) ha)
  obtain ⟨i, vg, hvg, hmember⟩ := exists_voterGroup hv
  have hlt : i < (s.reduce total).voters.length := by
    simpa [reduce] using (List.getElem?_eq_some_iff.mp hvg).1
  have hi := List.getElem?_eq_getElem hlt
  refine ⟨i, hlt, ?_⟩
  rw [← reduce_confirms_eq_support hi hj, reduce_confirms hi hvg hag hmember ha, hnot]

end Standing

namespace Reduction

variable {votes : List WeightedBallot} {fees : List Nat}

/-- **A reduction that represents its round concisely.** -/
structure Concise (r : Reduction) (votes : List WeightedBallot) (fees : List Nat) : Prop
    extends r.Represents votes fees where
  voters_listed : WellListed (r.voters.map (·.members))
  attestations_listed : WellListed (r.attestations.map (·.members))
  /-- Votes and supports are the rows and the columns of one table … -/
  confirms_iff_support : ∀ (i j : Nat) voters attestations, r.voters[i]? = some voters →
    r.attestations[j]? = some attestations →
      (voters.confirms j = true ↔ attestations.support.testBit i = true)
  /-- … whose entries say how all members vote, or just as well, how any does. -/
  confirms_iff_all : ∀ voters ∈ r.voters, ∀ (j : Nat) attestations,
    r.attestations[j]? = some attestations →
      (voters.confirms j = true ↔
        ∀ v ∈ voters.members, ∀ a ∈ attestations.members, ConfirmsAt votes v a)
  confirms_iff_any : ∀ voters ∈ r.voters, ∀ (j : Nat) attestations,
    r.attestations[j]? = some attestations →
      (voters.confirms j = true ↔
        ∃ v ∈ voters.members, ∃ a ∈ attestations.members, ConfirmsAt votes v a)
  /-- Nothing is said beyond the table. -/
  confirmed_lt : ∀ voters ∈ r.voters, voters.confirmed < 2 ^ r.attestations.length
  support_lt : ∀ attestations ∈ r.attestations, attestations.support < 2 ^ r.voters.length
  /-- No two rows are equal, nor are two columns. -/
  confirmed_nodup : (r.voters.map (·.confirmed)).Nodup
  support_nodup : (r.attestations.map (·.support)).Nodup
  /-- No row is full, nor is a column. -/
  exists_unconfirmed : ∀ voters ∈ r.voters,
    ∃ j, j < r.attestations.length ∧ voters.confirms j = false
  exists_unsupporting : ∀ attestations ∈ r.attestations,
    ∃ i, i < r.voters.length ∧ attestations.support.testBit i = false

section Members

variable {r : Reduction} {voters : VoterGroup} {attestations : AttestationGroup} {j : Nat}

/-- A group of voters votes like all its members together. -/
theorem Represents.confirms_iff_all (h : r.Represents votes fees) (hvoters : voters ∈ r.voters)
    (hj : r.attestations[j]? = some attestations) (hsome : ∃ v, v ∈ voters.members)
    (hany : ∃ a, a ∈ attestations.members) : voters.confirms j = true ↔
      ∀ v ∈ voters.members, ∀ a ∈ attestations.members, ConfirmsAt votes v a := by
  have hmembers := h.group_confirms voters hvoters j attestations hj
  obtain ⟨v, hv⟩ := hsome
  obtain ⟨a, ha⟩ := hany
  exact ⟨fun hconfirms v hv a ha => (hmembers v hv a ha).mpr hconfirms,
    fun hall => (hmembers v hv a ha).mp (hall v hv a ha)⟩

/-- It votes like any of them, too. -/
theorem Represents.confirms_iff_any (h : r.Represents votes fees) (hvoters : voters ∈ r.voters)
    (hj : r.attestations[j]? = some attestations) (hsome : ∃ v, v ∈ voters.members)
    (hany : ∃ a, a ∈ attestations.members) : voters.confirms j = true ↔
      ∃ v ∈ voters.members, ∃ a ∈ attestations.members, ConfirmsAt votes v a := by
  have hmembers := h.group_confirms voters hvoters j attestations hj
  constructor
  · intro hconfirms
    obtain ⟨v, hv⟩ := hsome
    obtain ⟨a, ha⟩ := hany
    exact ⟨v, hv, a, ha, (hmembers v hv a ha).mpr hconfirms⟩
  · intro hone
    obtain ⟨v, hv, a, ha, hconfirms⟩ := hone
    exact (hmembers v hv a ha).mp hconfirms

end Members

open Standing in
/-- **Every reduction of a round represents it concisely.** -/
theorem ofRound_concise (votes : List WeightedBallot) (fees : List Nat) (total : Nat) :
    (ofRound votes fees total).Concise votes fees := by
  have hrepresents := ofRound_represents votes fees total
  have hascending := (balanced_pass votes fees (total / 2)).ascending
  rw [ofRound, settle_eq_pass] at hrepresents ⊢
  exact {
    hrepresents with
    voters_listed := by
      rw [voter_members_reduce]
      exact wellListed_groupsBy _ (hascending _ (by simp [positionLists]))
    attestations_listed := by
      rw [attestation_members_reduce, attestationGroups_eq_groupsBy]
      exact wellListed_groupsBy _ (hascending _ (by simp [positionLists]))
    confirms_iff_support := fun i j voters attestations hi hj =>
      Bool.eq_iff_iff.mp (reduce_confirms_eq_support hi hj)
    confirms_iff_all := fun voters hvoters j attestations hj =>
      hrepresents.confirms_iff_all hvoters hj (exists_voter_member hvoters)
        (exists_attestation_member (List.mem_of_getElem? hj))
    confirms_iff_any := fun voters hvoters j attestations hj =>
      hrepresents.confirms_iff_any hvoters hj (exists_voter_member hvoters)
        (exists_attestation_member (List.mem_of_getElem? hj))
    confirmed_lt := fun _ => confirmed_lt
    support_lt := fun _ => support_lt
    confirmed_nodup := nodup_confirmed
    support_nodup := nodup_support
    exists_unconfirmed := fun _ => exists_unconfirmed_reduce fun _ => exists_unconfirmed_pass
    exists_unsupporting := fun _ =>
      exists_unsupporting_reduce fun _ => exists_unconfirming_pass }

end Reduction

end BallotConsensus
