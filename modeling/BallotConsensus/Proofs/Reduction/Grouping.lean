import Mathlib.Algebra.BigOperators.Group.List.Basic
import BallotConsensus.Proofs.Flags
import BallotConsensus.Reduction.Grouping

/-!
# Groups lose and confuse nothing

Grouping under a key puts every member into exactly one group, the group of
its key.  For the groups of a reduction this says that a voter group confirms
an attestation group exactly if any of its voters confirms any of its
attestations: the binary digits on both sides are read off one and the same
table of votes.

* `mem_groupsBy`, `flatten_groupsBy_perm` — what a group holds, and that the
  groups together hold everything once;
* `Standing.voter_members_perm`, `Standing.attestation_members_perm` — the
  groups of a reduction hold what was open;
* `Standing.reduce_confirms` — **a group votes like each of its voters.**
-/

namespace BallotConsensus

section Groups

variable {α κ : Type} [BEq κ]

theorem groupsBy_eq (key : α → κ) (members : List α) :
    groupsBy key members =
      (members.map key).eraseDups.map fun k => (k, members.filter (key · == k)) := by
  simp only [groupsBy, List.map_map, List.filterMap_map, Function.comp_def]
  congr 1
  funext k
  rw [← List.filterMap_eq_filter]
  rfl

/-- A group holds the members with its key. -/
theorem mem_groupsBy {key : α → κ} {members : List α} {group : κ × List α}
    (h : group ∈ groupsBy key members) : group.2 = members.filter (key · == group.1) := by
  rw [groupsBy_eq, List.mem_map] at h
  obtain ⟨k, -, rfl⟩ := h
  rfl

variable [LawfulBEq κ] {key : α → κ}

theorem nodup_eraseDups (keys : List κ) : keys.eraseDups.Nodup := by
  induction h : keys.length using Nat.strongRecOn generalizing keys with
  | ind n ih =>
      cases keys with
      | nil => simp
      | cons k keys =>
          rw [List.eraseDups_cons, List.nodup_cons]
          refine ⟨by simp [List.mem_eraseDups], ih _ ?_ _ rfl⟩
          rw [← h]
          exact Nat.lt_succ_of_le (List.length_filter_le _ _)

theorem eraseDups_of_nodup {keys : List κ} (h : keys.Nodup) : keys.eraseDups = keys := by
  induction keys with
  | nil => rfl
  | cons k keys ih =>
      obtain ⟨hfresh, hrest⟩ := List.nodup_cons.mp h
      have hothers : (keys.filter fun k' => !(k' == k)) = keys := by
        rw [List.filter_eq_self]
        intro k' hk'
        have hne : k' ≠ k := fun heq => hfresh (heq ▸ hk')
        simpa using hne
      rw [List.eraseDups_cons, hothers, ih hrest]

/-- Keys can be dropped before or after repetitions are. -/
theorem eraseDups_filter (p : κ → Bool) (keys : List κ) :
    (keys.filter p).eraseDups = keys.eraseDups.filter p := by
  induction h : keys.length using Nat.strongRecOn generalizing keys with
  | ind n ih =>
      cases keys with
      | nil => simp
      | cons k keys =>
          have hrest : (keys.filter fun k' => !(k' == k)).length < n := by
            rw [← h]
            exact Nat.lt_succ_of_le (List.length_filter_le _ _)
          rw [List.eraseDups_cons]
          cases hp : p k with
          | true =>
              rw [List.filter_cons_of_pos hp, List.filter_cons_of_pos hp, List.eraseDups_cons,
                ← ih _ hrest _ rfl, List.filter_filter, List.filter_filter]
              simp only [Bool.and_comm]
          | false =>
              rw [List.filter_cons_of_neg (by simp [hp]), List.filter_cons_of_neg (by simp [hp]),
                ← ih _ hrest _ rfl, List.filter_filter]
              congr 1
              refine List.filter_congr fun k' _ => ?_
              by_cases hk : k' = k
              · simp [hk, hp]
              · simp [hk]

theorem key_of_mem_group {members : List α} {group : κ × List α} {member : α}
    (h : group ∈ groupsBy key members) (hmember : member ∈ group.2) : key member = group.1 := by
  rw [mem_groupsBy h, List.mem_filter] at hmember
  exact eq_of_beq hmember.2

/-- Members with another key are not among those that are left out. -/
theorem filter_filter_of_ne {k other : κ} (h : other ≠ k) (members : List α) :
    (members.filter fun m => !(key m == k)).filter (key · == other) =
      members.filter (key · == other) := by
  rw [List.filter_filter]
  refine List.filter_congr fun m _ => ?_
  by_cases hm : key m = other
  · simp [hm, h]
  · simp [hm]

/-- Distinct keys that cover a list split it up. -/
theorem flatten_filter_perm {keys : List κ} (hnodup : keys.Nodup) {members : List α}
    (hkeys : ∀ member ∈ members, key member ∈ keys) :
    (keys.map fun k => members.filter (key · == k)).flatten.Perm members := by
  induction keys generalizing members with
  | nil =>
      have : members = [] := List.eq_nil_iff_forall_not_mem.mpr fun m hm => by
        simpa using hkeys m hm
      simp [this]
  | cons k keys ih =>
      obtain ⟨hfresh, hrest⟩ := List.nodup_cons.mp hnodup
      have hothers : ∀ k' ∈ keys, members.filter (key · == k') =
          (members.filter fun m => !(key m == k)).filter (key · == k') := by
        intro k' hk'
        have hne : k' ≠ k := fun h => hfresh (h ▸ hk')
        exact (filter_filter_of_ne hne members).symm
      have htail := @ih hrest (members.filter fun m => !(key m == k)) (by
        intro m hm
        obtain ⟨hmem, hne⟩ := List.mem_filter.mp hm
        refine (List.mem_cons.mp (hkeys m hmem)).resolve_left ?_
        simpa using hne)
      rw [List.map_cons, List.flatten_cons, List.map_congr_left hothers]
      exact (htail.append_left _).trans (List.filter_append_perm _ _)

/-- No group is empty. -/
theorem exists_mem_of_group {members : List α} {group : κ × List α}
    (h : group ∈ groupsBy key members) : ∃ member, member ∈ group.2 := by
  have hmembers := mem_groupsBy h
  rw [groupsBy_eq, List.mem_map] at h
  obtain ⟨k, hk, rfl⟩ := h
  obtain ⟨member, hmem, hkey⟩ := List.mem_map.mp (List.mem_eraseDups.mp hk)
  exact ⟨member, List.mem_filter.mpr ⟨hmem, beq_iff_eq.mpr hkey⟩⟩

/-- Every member is in a group. -/
theorem exists_group_of_mem (key : α → κ) {members : List α} {member : α} (h : member ∈ members) :
    ∃ group ∈ groupsBy key members, member ∈ group.2 := by
  refine ⟨(key member, members.filter (key · == key member)), ?_, by simp [h]⟩
  rw [groupsBy_eq]
  exact List.mem_map_of_mem (List.mem_eraseDups.mpr (List.mem_map_of_mem h))

/-- Different groups have different keys. -/
theorem nodup_groupsBy_keys (key : α → κ) (members : List α) :
    ((groupsBy key members).map (·.1)).Nodup := by
  rw [groupsBy_eq, List.map_map]
  exact (List.map_id _).symm ▸ nodup_eraseDups _

/-- The first member opens the first group. -/
theorem groupsBy_cons (key : α → κ) (member : α) (members : List α) :
    groupsBy key (member :: members) =
      (key member, member :: members.filter (key · == key member)) ::
        groupsBy key (members.filter fun m => !(key m == key member)) := by
  have hkeys : ((members.map key).filter fun k => !(k == key member)) =
      (members.filter fun m => !(key m == key member)).map key := List.filter_map
  have hfirst : (member :: members).filter (key · == key member) =
      member :: members.filter (key · == key member) :=
    List.filter_cons_of_pos (beq_self_eq_true _)
  rw [groupsBy_eq, groupsBy_eq, List.map_cons, List.eraseDups_cons, List.map_cons, hkeys, hfirst]
  congr 1
  refine List.map_congr_left fun k hk => ?_
  obtain ⟨other, hother, rfl⟩ := List.mem_map.mp (List.mem_eraseDups.mp hk)
  have hne : key other ≠ key member := by simpa using (List.mem_filter.mp hother).2
  rw [List.filter_cons_of_neg (by simpa using hne.symm), filter_filter_of_ne hne]

/-- **Groups come in the order of their first members**: each has a member that
stands before all members of later groups. -/
theorem groupsBy_pairwise {R : α → α → Prop} {members : List α} (h : members.Pairwise R) :
    (groupsBy key members).Pairwise fun first later =>
      ∃ x ∈ first.2, ∀ y ∈ later.2, R x y := by
  induction hlength : members.length using Nat.strongRecOn generalizing members with
  | ind n ih =>
      cases members with
      | nil => exact List.Pairwise.nil
      | cons member members =>
          obtain ⟨hmember, hmembers⟩ := List.pairwise_cons.mp h
          have hshorter : (members.filter fun m => !(key m == key member)).length < n := by
            rw [← hlength]
            exact Nat.lt_succ_of_le (List.length_filter_le _ _)
          rw [groupsBy_cons, List.pairwise_cons]
          refine ⟨fun later hlater => ⟨member, List.mem_cons_self, fun y hy => ?_⟩,
            ih _ hshorter (hmembers.filter _) rfl⟩
          rw [mem_groupsBy hlater] at hy
          exact hmember y (List.mem_filter.mp (List.mem_filter.mp hy).1).1

omit [LawfulBEq κ] in
/-- Members under one key may be named in another way before they are grouped or
after. -/
theorem groupsBy_map {β : Type} (rename : β → α) (key : α → κ) {members : List β}
    {keyBefore : β → κ} (h : ∀ member ∈ members, keyBefore member = key (rename member)) :
    (groupsBy keyBefore members).map (fun group => (group.1, group.2.map rename)) =
      groupsBy key (members.map rename) := by
  rw [groupsBy_eq, groupsBy_eq, List.map_map, List.map_map, List.map_congr_left h]
  refine List.map_congr_left fun k _ => ?_
  rw [List.filter_map, Function.comp_apply, Prod.mk.injEq]
  exact ⟨rfl, congrArg _ (List.filter_congr fun member hmem => by
    rw [h member hmem, Function.comp_apply])⟩

/-- **Every member is in exactly one group.** -/
theorem flatten_groupsBy_perm (key : α → κ) (members : List α) :
    ((groupsBy key members).map (·.2)).flatten.Perm members := by
  rw [groupsBy_eq, List.map_map]
  exact flatten_filter_perm (nodup_eraseDups _) fun m hm =>
    List.mem_eraseDups.mpr (List.mem_map_of_mem hm)

/-- So it is, whatever the members are read as. -/
theorem flatten_groupsBy_map_perm {β : Type} (key : α → κ) (members : List α) (read : α → β) :
    ((groupsBy key members).map fun group => group.2.map read).flatten.Perm
      (members.map read) := by
  have hread : (groupsBy key members).map (fun group => group.2.map read) =
      ((groupsBy key members).map (·.2)).map (List.map read) := by rw [List.map_map]; rfl
  rw [hread, ← List.map_flatten]
  exact (flatten_groupsBy_perm key members).map read

end Groups

namespace Standing

variable {s : Standing} {total : Nat}

/-- The key under which the open attestations are grouped. -/
def supportKey (s : Standing) (entry : Attestation × Nat) : Nat :=
  Flags.toBits ((s.voterGroups.map (·.1)).map (·.testBit entry.2))

theorem attestationGroups_eq (s : Standing) : s.attestationGroups =
    (groupsBy s.supportKey s.attestations.zipIdx).map fun group =>
      (group.1, group.2.map (·.1)) := rfl

/-- The voter groups of a reduction. -/
theorem voters_reduce (i : Nat) : (s.reduce total).voters[i]? =
    s.voterGroups[i]?.map fun group =>
      { members := group.2.map (·.position)
        weight := (group.2.map (·.vote.weight)).sum
        confirmed := Flags.toBits (s.attestationGroups.map (·.1.testBit i)) } := by
  simp only [reduce, List.getElem?_map, List.getElem?_zipIdx, Option.map_map]
  cases s.voterGroups[i]? <;> simp

/-- The attestation groups of a reduction. -/
theorem attestations_reduce (j : Nat) : (s.reduce total).attestations[j]? =
    s.attestationGroups[j]?.map fun group =>
      { members := group.2.map (·.position)
        fee := (group.2.map (·.fee)).sum
        support := group.1 } := by
  simp only [reduce, List.getElem?_map]

/-- What an open voter group of a reduction is made from. -/
theorem exists_voterGroup_of_mem {voters : VoterGroup} (h : voters ∈ (s.reduce total).voters) :
    ∃ (i : Nat) (vg : Nat × List Voter), (s.reduce total).voters[i]? = some voters ∧
      s.voterGroups[i]? = some vg ∧ voters =
        { members := vg.2.map (·.position)
          weight := (vg.2.map (·.vote.weight)).sum
          confirmed := Flags.toBits (s.attestationGroups.map (·.1.testBit i)) } := by
  obtain ⟨i, hi⟩ := List.mem_iff_getElem?.mp h
  obtain ⟨vg, hvg, hmade⟩ := Option.map_eq_some_iff.mp ((voters_reduce i).symm.trans hi)
  exact ⟨i, vg, hi, hvg, hmade.symm⟩

/-- What an open attestation group of a reduction is made from. -/
theorem exists_attestationGroup_of_mem {attestations : AttestationGroup}
    (h : attestations ∈ (s.reduce total).attestations) :
    ∃ (j : Nat) (ag : Nat × List Attestation),
      (s.reduce total).attestations[j]? = some attestations ∧
      s.attestationGroups[j]? = some ag ∧ attestations =
        { members := ag.2.map (·.position)
          fee := (ag.2.map (·.fee)).sum
          support := ag.1 } := by
  obtain ⟨j, hj⟩ := List.mem_iff_getElem?.mp h
  obtain ⟨ag, hag, hmade⟩ := Option.map_eq_some_iff.mp ((attestations_reduce j).symm.trans hj)
  exact ⟨j, ag, hj, hag, hmade.symm⟩

/-- Each voter group lists the positions of its members. -/
theorem voter_members_reduce : (s.reduce total).voters.map (·.members) =
    s.voterGroups.map fun group => group.2.map (·.position) := by
  refine List.ext_getElem? fun i => ?_
  rw [List.getElem?_map, voters_reduce, List.getElem?_map]
  cases s.voterGroups[i]? <;> rfl

/-- Each attestation group lists the positions of its members. -/
theorem attestation_members_reduce : (s.reduce total).attestations.map (·.members) =
    s.attestationGroups.map fun group => group.2.map (·.position) := by
  refine List.ext_getElem? fun j => ?_
  rw [List.getElem?_map, attestations_reduce, List.getElem?_map]
  cases s.attestationGroups[j]? <;> rfl

/-- The voter groups hold the open voters. -/
theorem voter_members_perm :
    ((s.reduce total).voters.map (·.members)).flatten.Perm (s.voters.map (·.position)) := by
  rw [voter_members_reduce]
  exact flatten_groupsBy_map_perm _ s.voters _

/-- The members of a voter group are open voters. -/
theorem mem_voters_of_group {vg : Nat × List Voter} (hvg : vg ∈ s.voterGroups) {v : Voter}
    (hv : v ∈ vg.2) : v ∈ s.voters := by
  rw [mem_groupsBy hvg] at hv
  exact (List.mem_filter.mp hv).1

/-- No voter group is empty. -/
theorem exists_voter_member {voters : VoterGroup} (h : voters ∈ (s.reduce total).voters) :
    ∃ v, v ∈ voters.members := by
  obtain ⟨_, vg, -, hvg, rfl⟩ := exists_voterGroup_of_mem h
  obtain ⟨voter, hvoter⟩ := exists_mem_of_group (List.mem_of_getElem? hvg)
  exact ⟨_, List.mem_map_of_mem hvoter⟩

/-- The key of a voter group says how each of its voters votes. -/
theorem testBit_voterGroup {vg : Nat × List Voter} (hvg : vg ∈ s.voterGroups) {v : Voter}
    (hv : v ∈ vg.2) {k : Nat} {a : Attestation} (hk : s.attestations[k]? = some a) :
    vg.1.testBit k = v.confirms a := by
  rw [← key_of_mem_group hvg hv]
  simp [Flags.testBit_toBits, List.getD_eq_getElem?_getD, hk]

/-- The voters of a group vote alike. -/
theorem all_confirms_eq {vg : Nat × List Voter} (hvg : vg ∈ s.voterGroups) {v : Voter}
    (hv : v ∈ vg.2) {a : Attestation} (ha : a ∈ s.attestations) :
    vg.2.all (·.confirms a) = v.confirms a := by
  obtain ⟨k, hk⟩ := List.mem_iff_getElem?.mp ha
  rw [Bool.eq_iff_iff, List.all_eq_true]
  constructor
  · intro hall
    exact hall v hv
  · intro hconfirms v' hv'
    rw [← testBit_voterGroup hvg hv' hk, testBit_voterGroup hvg hv hk, hconfirms]

/-- The voter groups that confirm an attestation. -/
def supportersOf (s : Standing) (a : Attestation) : List Bool :=
  s.voterGroups.map fun vg => vg.2.all (·.confirms a)

/-- Attestations are grouped by the voter groups that confirm them. -/
theorem attestationGroups_eq_groupsBy (s : Standing) : s.attestationGroups =
    groupsBy (fun a => Flags.toBits (s.supportersOf a)) s.attestations := by
  have hkey : ∀ entry ∈ s.attestations.zipIdx,
      s.supportKey entry = Flags.toBits (s.supportersOf entry.1) := by
    intro entry hentry
    have hk := List.mem_zipIdx_iff_getElem?.mp hentry
    rw [supportKey, supportersOf, List.map_map]
    congr 1
    refine List.map_congr_left fun vg hvg => ?_
    obtain ⟨v, hv⟩ := exists_mem_of_group hvg
    rw [Function.comp_apply, testBit_voterGroup hvg hv hk,
      all_confirms_eq hvg hv (List.mem_of_getElem? hk)]
  rw [attestationGroups_eq, groupsBy_map _ (fun a => Flags.toBits (s.supportersOf a)) hkey,
    List.zipIdx_map_fst]

/-- The attestation groups hold the open attestations. -/
theorem attestation_members_perm :
    ((s.reduce total).attestations.map (·.members)).flatten.Perm
      (s.attestations.map (·.position)) := by
  rw [attestation_members_reduce, attestationGroups_eq_groupsBy]
  exact flatten_groupsBy_map_perm _ s.attestations _

/-- The members of an attestation group are open attestations. -/
theorem mem_attestations_of_group {ag : Nat × List Attestation} (hag : ag ∈ s.attestationGroups)
    {a : Attestation} (ha : a ∈ ag.2) : a ∈ s.attestations := by
  rw [attestationGroups_eq_groupsBy] at hag
  rw [mem_groupsBy hag] at ha
  exact (List.mem_filter.mp ha).1

theorem exists_mem_of_attestationGroup {ag : Nat × List Attestation}
    (hag : ag ∈ s.attestationGroups) : ∃ a, a ∈ ag.2 := by
  rw [attestationGroups_eq_groupsBy] at hag
  exact exists_mem_of_group hag

/-- The key of an attestation group is the support of each of its members. -/
theorem key_of_attestationGroup {ag : Nat × List Attestation} (hag : ag ∈ s.attestationGroups)
    {a : Attestation} (ha : a ∈ ag.2) : ag.1 = Flags.toBits (s.supportersOf a) := by
  rw [attestationGroups_eq_groupsBy] at hag
  exact (key_of_mem_group hag ha).symm

/-- No attestation group is empty. -/
theorem exists_attestation_member {attestations : AttestationGroup}
    (h : attestations ∈ (s.reduce total).attestations) : ∃ a, a ∈ attestations.members := by
  obtain ⟨_, ag, -, hag, rfl⟩ := exists_attestationGroup_of_mem h
  obtain ⟨attestation, hattestation⟩ := exists_mem_of_attestationGroup (List.mem_of_getElem? hag)
  exact ⟨_, List.mem_map_of_mem hattestation⟩

/-- **A group votes like each of its voters**, on every attestation of a
group alike. -/
theorem reduce_confirms {i j : Nat} {voters : VoterGroup}
    {vg : Nat × List Voter} {ag : Nat × List Attestation}
    (hvoters : (s.reduce total).voters[i]? = some voters)
    (hvg : s.voterGroups[i]? = some vg) (hag : s.attestationGroups[j]? = some ag)
    {v : Voter} (hv : v ∈ vg.2) {a : Attestation} (ha : a ∈ ag.2) :
    voters.confirms j = v.confirms a := by
  have hdigit : voters.confirms j = ag.1.testBit i := by
    rw [voters_reduce, hvg] at hvoters
    obtain rfl := Option.some.inj hvoters
    simp [VoterGroup.confirms, Flags.testBit_toBits, List.getD_eq_getElem?_getD, hag]
  have hmem := List.mem_of_getElem? hag
  have halike := all_confirms_eq (List.mem_of_getElem? hvg) hv (mem_attestations_of_group hmem ha)
  rw [hdigit, key_of_attestationGroup hmem ha, ← halike]
  simp [supportersOf, Flags.testBit_toBits, List.getD_eq_getElem?_getD, hvg]

end Standing

end BallotConsensus
