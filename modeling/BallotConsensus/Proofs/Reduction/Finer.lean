import BallotConsensus.Proofs.Exploration.Unnamed
import BallotConsensus.Proofs.Parts
import BallotConsensus.Proofs.Reduction.Settling

/-!
# Rounds told in finer parts

A round can be told with its voters and attestations split into parts: copies of
a voter that share its weight, copies of an attestation that share its fee.
Everything that reduces a round asks only for weights of voters that vote alike
and for fees of attestations that are confirmed alike, so it cannot tell the
finer round from the coarser one.  A pass keeps the relation between the two,
and the groups of what is left are the same groups, in the same order, with all
the parts of their members.

* `Standing.Finer` — a standing told in finer parts, and `Standing.Finer.pass`:
  a pass keeps it so;
* `Standing.pass_filter` — attestations without a majority can be left out before
  a pass;
* `Reduction.Finer` — a reduction that differs from another in its members only;
* `Standing.Finer.reduce` — **a finer standing reduces to the same reduction**,
  up to the names of the members.
-/

namespace BallotConsensus

variable {voterOf attestationOf : List Nat} {half total : Nat}

/-- **A standing told in finer parts.**  Entry `v` of `voterOf` is the position
of the voter that the voter at position `v` of the finer standing is a part of,
and likewise for attestations. -/
structure Standing.Finer (fine coarse : Standing) (voterOf attestationOf : List Nat) : Prop where
  voters : Parts Voter.position (·.vote.weight) voterOf fine.voters coarse.voters
  attestations : Parts Attestation.position Attestation.fee attestationOf fine.attestations
    coarse.attestations
  /-- Parts vote like their wholes. -/
  confirms : ∀ a' ∈ fine.attestations, ∀ a ∈ coarse.attestations,
    attestationOf.getD a'.position 0 = a.position →
      ReadAlike Voter.position voterOf fine.voters coarse.voters (·.confirms a') (·.confirms a)
  settled_weight : fine.settled.weight = coarse.settled.weight
  settled_fees : fine.settled.fees = coarse.settled.fees
  participants : Traces voterOf fine.settled.participants coarse.settled.participants
  included : Traces attestationOf fine.settled.included coarse.settled.included

namespace Standing.Finer

variable {fine coarse : Standing}

/-! ## Passes -/

/-- Parts of an attestation have its support. -/
theorem support_eq (h : fine.Finer coarse voterOf attestationOf) :
    ReadAlike Attestation.position attestationOf fine.attestations coarse.attestations
      fine.support coarse.support := by
  intro a' ha' a ha heq
  rw [support, support, h.settled_weight, (h.voters.filter (h.confirms a' ha' a ha heq)).sum_eq]

theorem kept (h : fine.Finer coarse voterOf attestationOf) (half : Nat) :
    Parts Attestation.position Attestation.fee attestationOf (fine.kept half)
      (coarse.kept half) :=
  h.attestations.filter (h.support_eq.comp fun support => decide (half < support))

/-- Parts of a voter confirm everything kept if the voter does. -/
theorem confirms_kept (h : fine.Finer coarse voterOf attestationOf) (half : Nat) :
    ReadAlike Voter.position voterOf fine.voters coarse.voters
      (fun v => (fine.kept half).all v.confirms) (fun v => (coarse.kept half).all v.confirms) := by
  intro v' hv' v hv heq
  refine (h.kept half).all_eq fun a' ha' a ha hsame => ?_
  exact h.confirms a' (mem_kept.mp ha').1 a (mem_kept.mp ha).1 hsame v' hv' v hv heq

theorem undecided (h : fine.Finer coarse voterOf attestationOf) (half : Nat) :
    Parts Voter.position (·.vote.weight) voterOf (fine.undecided half)
      (coarse.undecided half) :=
  h.voters.filter ((h.confirms_kept half).comp (!·))

/-- Parts of an attestation are confirmed by all undecided voters if the
attestation is. -/
theorem undecided_confirm (h : fine.Finer coarse voterOf attestationOf) (half : Nat) :
    ReadAlike Attestation.position attestationOf (fine.kept half) (coarse.kept half)
      (fun a => (fine.undecided half).all (·.confirms a))
      (fun a => (coarse.undecided half).all (·.confirms a)) := by
  intro a' ha' a ha heq
  refine (h.undecided half).all_eq fun v' hv' v hv hsame => ?_
  exact h.confirms a' (mem_kept.mp ha').1 a (mem_kept.mp ha).1 heq v' (mem_undecided.mp hv').1 v
    (mem_undecided.mp hv).1 hsame

/-- **A pass over a finer standing is a pass over the coarser one.** -/
theorem pass (h : fine.Finer coarse voterOf attestationOf) (half : Nat) :
    (fine.pass half).Finer (coarse.pass half) voterOf attestationOf := by
  have hcertain := h.voters.filter (h.confirms_kept half)
  have hgranted := (h.kept half).filter (h.undecided_confirm half)
  have hcontested : Parts Attestation.position Attestation.fee attestationOf
      (fine.contested half) (coarse.contested half) :=
    (h.kept half).filter ((h.undecided_confirm half).comp (!·))
  rw [pass_eq, pass_eq]
  refine ⟨h.undecided half, hcontested, ?_, ?_, ?_, h.participants.append hcertain.traces,
    h.included.append hgranted.traces⟩
  · intro a' ha' a ha heq v' hv' v hv
    exact h.confirms a' (mem_kept.mp (mem_contested.mp ha').1).1 a
      (mem_kept.mp (mem_contested.mp ha).1).1 heq v' (mem_undecided.mp hv').1 v
      (mem_undecided.mp hv).1
  · exact congrArg₂ (· + ·) h.settled_weight hcertain.sum_eq
  · exact congrArg₂ (· + ·) h.settled_fees hgranted.sum_eq

/-! ## Groups -/

/-- Parts of voters vote alike exactly if the voters do. -/
theorem votes_alike (h : fine.Finer coarse voterOf attestationOf) :
    Parts.KeysAlike Voter.position voterOf fine.voters coarse.voters
      (fun v => Flags.toBits (fine.attestations.map v.confirms))
      (fun v => Flags.toBits (coarse.attestations.map v.confirms)) := by
  intro v₁' hv₁' v₂' hv₂' v₁ hv₁ v₂ hv₂ heq₁ heq₂
  rw [Flags.toBits_map_inj, Flags.toBits_map_inj]
  constructor
  · intro halike a ha
    obtain ⟨a', ha', heq⟩ := h.attestations.exists_part ha
    calc v₁.confirms a = v₁'.confirms a' := (h.confirms a' ha' a ha heq v₁' hv₁' v₁ hv₁ heq₁).symm
      _ = v₂'.confirms a' := halike a' ha'
      _ = v₂.confirms a := h.confirms a' ha' a ha heq v₂' hv₂' v₂ hv₂ heq₂
  · intro halike a' ha'
    obtain ⟨a, ha, heq⟩ := h.attestations.exists_whole ha'
    calc v₁'.confirms a' = v₁.confirms a := h.confirms a' ha' a ha heq v₁' hv₁' v₁ hv₁ heq₁
      _ = v₂.confirms a := halike a ha
      _ = v₂'.confirms a' := (h.confirms a' ha' a ha heq v₂' hv₂' v₂ hv₂ heq₂).symm

/-- The voter groups of the finer standing, one by one. -/
theorem voterGroups (h : fine.Finer coarse voterOf attestationOf) :
    List.Forall₂ (Parts.Grouped Voter.position (·.vote.weight) voterOf fine.voters coarse.voters
        (fun v => Flags.toBits (fine.attestations.map v.confirms))
        (fun v => Flags.toBits (coarse.attestations.map v.confirms)))
      fine.voterGroups coarse.voterGroups :=
  h.voters.groups h.votes_alike

/-- Parts of an attestation are confirmed by the same voter groups. -/
theorem supportersOf_eq (h : fine.Finer coarse voterOf attestationOf) :
    ReadAlike Attestation.position attestationOf fine.attestations coarse.attestations
      fine.supportersOf coarse.supportersOf := by
  intro a' ha' a ha heq
  rw [supportersOf, supportersOf, ← List.forall₂_eq_eq_eq, List.forall₂_map_left_iff,
    List.forall₂_map_right_iff]
  refine h.voterGroups.imp fun vg' vg hgroup => hgroup.members.all_eq ?_
  intro v' hv' v hv hsame
  exact h.confirms a' ha' a ha heq v' (hgroup.mem_parts v' hv') v (hgroup.mem_wholes v hv) hsame

/-- The attestation groups of the finer standing, one by one: each has the
support of its whole. -/
theorem attestationGroups (h : fine.Finer coarse voterOf attestationOf) :
    List.Forall₂ (fun ag' ag => ag'.1 = ag.1 ∧
        Parts Attestation.position Attestation.fee attestationOf ag'.2 ag.2)
      fine.attestationGroups coarse.attestationGroups := by
  have hsupport := h.supportersOf_eq.comp Flags.toBits
  rw [attestationGroups_eq_groupsBy, attestationGroups_eq_groupsBy]
  refine (h.attestations.groups ?_).imp fun ag' ag hgroup => ⟨?_, hgroup.members⟩
  · intro a₁' ha₁' a₂' ha₂' a₁ ha₁ a₂ ha₂ heq₁ heq₂
    rw [hsupport a₁' ha₁' a₁ ha₁ heq₁, hsupport a₂' ha₂' a₂ ha₂ heq₂]
  · obtain ⟨a', ha', a, ha, heq, hkey', hkey⟩ := hgroup.keys
    rw [← hkey', ← hkey, hsupport a' ha' a ha heq]

end Standing.Finer

namespace Standing

/-- **Attestations without a majority can be left out before a pass**, which
finds the same then, except for what it excludes. -/
theorem pass_filter {s : Standing} {keep : Attestation → Bool}
    (hkeep : ∀ a ∈ s.kept half, keep a = true) :
    ∃ excluded, { s with attestations := s.attestations.filter keep }.pass half =
      { s.pass half with settled := { (s.pass half).settled with excluded } } := by
  have hkept : { s with attestations := s.attestations.filter keep }.kept half = s.kept half := by
    rw [← List.filter_eq_self.mpr hkeep, kept, kept, List.filter_filter, List.filter_filter]
    refine List.filter_congr fun a _ => ?_
    exact Bool.and_comm _ _
  have hundecided : { s with attestations := s.attestations.filter keep }.undecided half =
      s.undecided half := by
    rw [undecided, hkept]
    rfl
  have hcertain : { s with attestations := s.attestations.filter keep }.certain half =
      s.certain half := by
    rw [certain, hkept]
    rfl
  rw [pass_eq, pass_eq]
  simp only [granted, contested, hkept, hundecided, hcertain]
  exact ⟨_, rfl⟩

end Standing

/-! ## Reductions -/

/-- **A reduction told in finer parts**: another reduction once the members have
lost their names, and in each place members that trace the members there. -/
structure Reduction.Finer (fine coarse : Reduction) (voterOf attestationOf : List Nat) : Prop where
  unnamed_eq : fine.unnamed = coarse.unnamed
  participants : Traces voterOf fine.settled.participants coarse.settled.participants
  included : Traces attestationOf fine.settled.included coarse.settled.included
  voters : List.Forall₂ (Traces voterOf) (fine.voters.map (·.members))
    (coarse.voters.map (·.members))
  attestations : List.Forall₂ (Traces attestationOf) (fine.attestations.map (·.members))
    (coarse.attestations.map (·.members))

/-- Lists that correspond one by one still do with their indices. -/
private theorem forall₂_zipIdx {α β : Type} {R : α → β → Prop} {l₁ : List α} {l₂ : List β}
    (h : List.Forall₂ R l₁ l₂) (n : Nat) :
    List.Forall₂ (fun e₁ e₂ => R e₁.1 e₂.1 ∧ e₁.2 = e₂.2) (l₁.zipIdx n) (l₂.zipIdx n) := by
  induction h generalizing n with
  | nil => exact .nil
  | cons hhead _ ih => exact .cons ⟨hhead, rfl⟩ (ih (n + 1))

namespace Standing.Finer

variable {fine coarse : Standing}

theorem voters_reduce (h : fine.Finer coarse voterOf attestationOf) (total : Nat) :
    (fine.reduce total).voters.map (·.unnamed) = (coarse.reduce total).voters.map (·.unnamed) := by
  have hsupports : fine.attestationGroups.map (·.1) = coarse.attestationGroups.map (·.1) := by
    rw [← List.forall₂_eq_eq_eq, List.forall₂_map_left_iff, List.forall₂_map_right_iff]
    exact h.attestationGroups.imp fun _ _ hgroup => hgroup.1
  have hdigits : ∀ i, fine.attestationGroups.map (·.1.testBit i) =
      coarse.attestationGroups.map (·.1.testBit i) := by
    intro i
    simpa only [List.map_map, Function.comp_def] using
      congrArg (List.map (Nat.testBit · i)) hsupports
  simp only [reduce, List.map_map, ← List.forall₂_eq_eq_eq, List.forall₂_map_left_iff,
    List.forall₂_map_right_iff]
  refine (forall₂_zipIdx h.voterGroups 0).imp fun e' e hentry => ?_
  obtain ⟨hgroup, hindex⟩ := hentry
  simp only [Function.comp_apply, VoterGroup.unnamed, VoterGroup.mk.injEq, hindex, hdigits,
    true_and, and_true]
  exact hgroup.members.sum_eq

theorem attestations_reduce (h : fine.Finer coarse voterOf attestationOf) (total : Nat) :
    (fine.reduce total).attestations.map (·.unnamed) =
      (coarse.reduce total).attestations.map (·.unnamed) := by
  simp only [reduce, List.map_map, ← List.forall₂_eq_eq_eq, List.forall₂_map_left_iff,
    List.forall₂_map_right_iff]
  refine h.attestationGroups.imp fun ag' ag hgroup => ?_
  simp only [Function.comp_apply, AttestationGroup.unnamed, AttestationGroup.mk.injEq, hgroup.1,
    true_and, and_true]
  exact hgroup.2.sum_eq

/-- **A finer standing reduces to the same reduction**, told in finer parts. -/
theorem reduce (h : fine.Finer coarse voterOf attestationOf) (total : Nat) :
    (fine.reduce total).Finer (coarse.reduce total) voterOf attestationOf where
  unnamed_eq := by
    rw [Reduction.unnamed, Reduction.unnamed, h.voters_reduce, h.attestations_reduce]
    simp only [Standing.reduce, h.settled_weight, h.settled_fees]
  participants := h.participants
  included := h.included
  voters := by
    simp only [Standing.reduce, List.map_map, List.forall₂_map_left_iff,
      List.forall₂_map_right_iff]
    refine (forall₂_zipIdx h.voterGroups 0).imp fun e' e hentry => ?_
    exact hentry.1.members.traces
  attestations := by
    simp only [Standing.reduce, List.map_map, List.forall₂_map_left_iff,
      List.forall₂_map_right_iff]
    exact h.attestationGroups.imp fun ag' ag hgroup => hgroup.2.traces

end Standing.Finer

end BallotConsensus
