import BallotConsensus.Proofs.Reduction.Grouping
import BallotConsensus.Proofs.Reduction.Settling
import BallotConsensus.Proofs.Round

/-!
# A reduction represents its round

Everything that is proved about a reduced round carries over to the round
itself through one property, `Reduction.Represents`: the settled voters and
the groups hold every voter of the round once, and likewise for attestations;
weights and fees are sums over members; a group votes like each of its
members; and what was settled, was settled rightly.

* `Standing.mem_start_voters`, `Standing.support_start` — the voters of a
  round before anything is decided;
* `Standing.mem_excluded_start`, `Standing.mem_participants_start`,
  `Standing.mem_included_start` — **what is settled**, said of the votes;
* `Reduction.ofRound_represents` — **reducing a round represents it.**
-/

namespace BallotConsensus

variable {votes : List WeightedBallot} {fees : List Nat} {total half : Nat}

namespace Standing

theorem mem_start_voters {v : Voter} (h : v ∈ (start votes fees).voters) :
    votes[v.position]? = some v.vote := by
  simp only [start, List.mem_map, Prod.exists] at h
  obtain ⟨vote, i, hmem, rfl⟩ := h
  exact List.mk_mem_zipIdx_iff_getElem?.mp hmem

theorem mem_start_attestations {a : Attestation} (h : a ∈ (start votes fees).attestations) :
    fees[a.position]? = some a.fee := by
  simp only [start, List.mem_map, Prod.exists] at h
  obtain ⟨fee, i, hmem, rfl⟩ := h
  exact List.mk_mem_zipIdx_iff_getElem?.mp hmem

theorem start_voter_positions (votes : List WeightedBallot) (fees : List Nat) :
    (start votes fees).voters.map (·.position) = List.range votes.length := by
  simp only [start, List.map_map, List.range_eq_range']
  exact List.zipIdx_map_snd 0 votes

theorem start_attestation_positions (votes : List WeightedBallot) (fees : List Nat) :
    (start votes fees).attestations.map (·.position) = List.range fees.length := by
  simp only [start, List.map_map, List.range_eq_range']
  exact List.zipIdx_map_snd 0 fees

theorem start_voter_votes (votes : List WeightedBallot) (fees : List Nat) :
    (start votes fees).voters.map (·.vote) = votes := by
  simp only [start, List.map_map]
  exact List.zipIdx_map_fst 0 votes

theorem start_attestation_fees (votes : List WeightedBallot) (fees : List Nat) :
    (start votes fees).attestations.map (·.fee) = fees := by
  simp only [start, List.map_map]
  exact List.zipIdx_map_fst 0 fees

theorem start_voter_weights (votes : List WeightedBallot) (fees : List Nat) :
    (start votes fees).voters.map (·.vote.weight) = votes.map (·.weight) := by
  conv_rhs => rw [← start_voter_votes votes fees, List.map_map]
  rfl

/-- At the start an attestation is supported by all voters that confirm
it. -/
theorem support_start (a : Attestation) :
    (start votes fees).support a = backing votes {a.position} := by
  have hfilter : ((start votes fees).voters.filter (·.confirms a)).map (·.vote) =
      votes.filter (·.confirms a.position) := by
    conv_rhs => rw [← start_voter_votes votes fees, List.filter_map]
    rfl
  have hsum : ((start votes fees).voters.filter (·.confirms a)).map (·.vote.weight) =
      (votes.filter (·.confirms a.position)).map (·.weight) := by
    rw [← hfilter, List.map_map]
    rfl
  rw [support, hsum, backing]
  simp [start, Settled.nothing]

theorem confirmsAt_of_mem {v : Voter} (h : v ∈ (start votes fees).voters) (a : Attestation) :
    ConfirmsAt votes v.position a.position ↔ v.confirms a = true := by
  have hvote := mem_start_voters h
  constructor
  · intro hconfirms
    exact hconfirms v.vote hvote
  · intro hconfirms vote hv
    rw [hvote, Option.some.injEq] at hv
    exact hv ▸ hconfirms

/-- Weights of voters are weights at their positions. -/
theorem sum_weightAt {voters : List Voter} (h : ∀ v ∈ voters, v ∈ (start votes fees).voters) :
    ((voters.map (·.position)).map (weightAt votes)).sum = (voters.map (·.vote.weight)).sum := by
  rw [List.map_map]
  congr 1
  refine List.map_congr_left fun v hv => ?_
  simp [weightAt, List.getD_eq_getElem?_getD, mem_start_voters (h v hv)]

/-- Fees of attestations are fees at their positions. -/
theorem sum_feeAt {attestations : List Attestation}
    (h : ∀ a ∈ attestations, a ∈ (start votes fees).attestations) :
    ((attestations.map (·.position)).map (fees.getD · 0)).sum =
      (attestations.map (·.fee)).sum := by
  rw [List.map_map]
  congr 1
  refine List.map_congr_left fun a ha => ?_
  simp [List.getD_eq_getElem?_getD, mem_start_attestations (h a ha)]

theorem mem_start_voters_at {v : Nat} (hv : v < votes.length) :
    ⟨votes[v], v⟩ ∈ (start votes fees).voters :=
  List.mem_map.mpr ⟨(votes[v], v),
    List.mk_mem_zipIdx_iff_getElem?.mpr (List.getElem?_eq_getElem hv), rfl⟩

theorem mem_start_attestations_at {a : Nat} (ha : a < fees.length) :
    ⟨fees[a], a⟩ ∈ (start votes fees).attestations :=
  List.mem_map.mpr ⟨(fees[a], a),
    List.mk_mem_zipIdx_iff_getElem?.mpr (List.getElem?_eq_getElem ha), rfl⟩

theorem lt_of_mem_start_voters {v : Voter} (h : v ∈ (start votes fees).voters) :
    v.position < votes.length :=
  (List.getElem?_eq_some_iff.mp (mem_start_voters h)).1

theorem lt_of_mem_start_attestations {a : Attestation}
    (h : a ∈ (start votes fees).attestations) : a.position < fees.length :=
  (List.getElem?_eq_some_iff.mp (mem_start_attestations h)).1

/-- The first pass over a round settles the lists it makes. -/
theorem settled_start : ((start votes fees).pass half).settled =
    { weight := (((start votes fees).certain half).map (·.vote.weight)).sum
      fees := (((start votes fees).granted half).map (·.fee)).sum
      participants := ((start votes fees).certain half).map (·.position)
      included := ((start votes fees).granted half).map (·.position)
      excluded := ((start votes fees).hopeless half).map (·.position) } := by
  rw [pass_eq]
  simp [start, Settled.nothing]

/-- The first pass shares out the voters. -/
theorem voter_positions_perm : (((start votes fees).pass half).settled.participants ++
    ((start votes fees).pass half).voters.map (·.position)).Perm (List.range votes.length) := by
  rw [settled_start, pass_eq, ← List.map_append, ← start_voter_positions votes fees]
  exact (voters_perm _ half).map _

/-- The first pass shares out the attestations. -/
theorem attestation_positions_perm : (((start votes fees).pass half).settled.included ++
    ((start votes fees).pass half).attestations.map (·.position) ++
      ((start votes fees).pass half).settled.excluded).Perm (List.range fees.length) := by
  rw [settled_start, pass_eq, ← List.map_append, ← List.map_append,
    ← start_attestation_positions votes fees]
  exact (((kept_perm _ half).append_right _).trans (attestations_perm _ half)).map _

/-- What is guaranteed is the weight of who participates … -/
theorem settled_weight_start : ((start votes fees).pass half).settled.weight =
    (((start votes fees).pass half).settled.participants.map (weightAt votes)).sum := by
  rw [settled_start]
  exact (sum_weightAt fun v hv => (mem_certain.mp hv).1).symm

/-- … and the fees of what is included. -/
theorem settled_fees_start : ((start votes fees).pass half).settled.fees =
    (((start votes fees).pass half).settled.included.map (fees.getD · 0)).sum := by
  rw [settled_start]
  exact (sum_feeAt fun a ha => (mem_kept.mp (mem_granted.mp ha).1).1).symm

theorem lt_of_mem_participants_start {v : Nat}
    (h : v ∈ ((start votes fees).pass half).settled.participants) : v < votes.length := by
  rw [settled_start, List.mem_map] at h
  obtain ⟨voter, hvoter, rfl⟩ := h
  exact lt_of_mem_start_voters (mem_certain.mp hvoter).1

theorem lt_of_mem_included_start {a : Nat}
    (h : a ∈ ((start votes fees).pass half).settled.included) : a < fees.length := by
  rw [settled_start, List.mem_map] at h
  obtain ⟨attestation, hattestation, rfl⟩ := h
  exact lt_of_mem_start_attestations (mem_kept.mp (mem_granted.mp hattestation).1).1

theorem mem_excluded_start {a : Nat} (ha : a < fees.length) :
    a ∈ ((start votes fees).pass half).settled.excluded ↔ backing votes {a} ≤ half := by
  rw [settled_start, List.mem_map]
  constructor
  · intro hexcluded
    obtain ⟨attestation, hmem, rfl⟩ := hexcluded
    rw [← support_start]
    simpa [hopeless] using (List.mem_filter.mp hmem).2
  · intro hle
    refine ⟨⟨fees[a], a⟩, List.mem_filter.mpr ⟨mem_start_attestations_at ha, ?_⟩, rfl⟩
    rw [support_start]
    simpa using hle

/-- **Who participates in any case**: whoever confirms everything that a majority
confirms. -/
theorem mem_participants_start {v : Nat} (hv : v < votes.length) :
    v ∈ ((start votes fees).pass half).settled.participants ↔
      ∀ a, a < fees.length → half < backing votes {a} → ConfirmsAt votes v a := by
  rw [settled_start, List.mem_map]
  constructor
  · intro hcertain a ha hmajority
    obtain ⟨voter, hvoter, rfl⟩ := hcertain
    obtain ⟨hmem, hall⟩ := mem_certain.mp hvoter
    have hkept : (⟨fees[a], a⟩ : Attestation) ∈ (start votes fees).kept half :=
      mem_kept.mpr ⟨mem_start_attestations_at ha, (support_start _).symm ▸ hmajority⟩
    exact (confirmsAt_of_mem hmem _).mpr (hall _ hkept)
  · intro hconfirms
    have hmem : (⟨votes[v], v⟩ : Voter) ∈ (start votes fees).voters := mem_start_voters_at hv
    refine ⟨_, mem_certain.mpr ⟨hmem, fun a ha => ?_⟩, rfl⟩
    obtain ⟨hstart, hmajority⟩ := mem_kept.mp ha
    rw [support_start] at hmajority
    exact (confirmsAt_of_mem hmem a).mp
      (hconfirms a.position (lt_of_mem_start_attestations hstart) hmajority)

/-- **What is included in any case**: whatever everybody confirms, if everybody
together is a majority. -/
theorem mem_included_start {a : Nat} (ha : a < fees.length) :
    a ∈ ((start votes fees).pass half).settled.included ↔
      half < backing votes {a} ∧ ∀ v, v < votes.length → ConfirmsAt votes v a := by
  rw [settled_start, List.mem_map]
  constructor
  · intro hgranted
    obtain ⟨attestation, hattestation, rfl⟩ := hgranted
    obtain ⟨hkept, hall⟩ := mem_granted.mp hattestation
    refine ⟨support_start attestation ▸ (mem_kept.mp hkept).2, fun v hv => ?_⟩
    have hmem : (⟨votes[v], v⟩ : Voter) ∈ (start votes fees).voters := mem_start_voters_at hv
    refine (confirmsAt_of_mem hmem attestation).mpr ?_
    rcases List.mem_append.mp ((voters_perm _ half).mem_iff.mpr hmem) with hcertain | hopen
    · exact (mem_certain.mp hcertain).2 _ hkept
    · exact hall _ hopen
  · intro hconfirmed
    obtain ⟨hmajority, hconfirms⟩ := hconfirmed
    refine ⟨⟨fees[a], a⟩, mem_granted.mpr ⟨mem_kept.mpr ⟨mem_start_attestations_at ha, ?_⟩, ?_⟩, rfl⟩
    · rwa [support_start]
    · intro v hv
      have hmem := (mem_undecided.mp hv).1
      exact (confirmsAt_of_mem hmem _).mp (hconfirms v.position (lt_of_mem_start_voters hmem))

/-- Who participates in any case confirms everything that is not excluded. -/
theorem participants_start_confirm {v a : Nat}
    (hv : v ∈ ((start votes fees).pass half).settled.participants) (ha : a < fees.length)
    (hkept : a ∉ ((start votes fees).pass half).settled.excluded) : ConfirmsAt votes v a :=
  (mem_participants_start (lt_of_mem_participants_start hv)).mp hv a ha
    (Nat.not_le.mp (mt (mem_excluded_start ha).mpr hkept))

/-- What is included in any case is confirmed by everybody. -/
theorem included_start_confirmed {v a : Nat}
    (ha : a ∈ ((start votes fees).pass half).settled.included) (hv : v < votes.length) :
    ConfirmsAt votes v a :=
  ((mem_included_start (lt_of_mem_included_start ha)).mp ha).2 v hv

theorem mem_start_of_undecided {v : Voter}
    (hv : v ∈ ((start votes fees).pass half).voters) : v ∈ (start votes fees).voters := by
  rw [pass_eq] at hv
  exact (mem_undecided.mp hv).1

theorem mem_start_of_contested {a : Attestation}
    (ha : a ∈ ((start votes fees).pass half).attestations) :
    a ∈ (start votes fees).attestations := by
  rw [pass_eq] at ha
  exact (mem_kept.mp (mem_contested.mp ha).1).1

end Standing

namespace Reduction

/-- **What makes a reduction stand for its round.** -/
structure Represents (r : Reduction) (votes : List WeightedBallot) (fees : List Nat) : Prop where
  /-- Every voter is settled or in one group. -/
  voters_perm : (r.settled.participants ++ (r.voters.map (·.members)).flatten).Perm
    (List.range votes.length)
  /-- Every attestation is settled or in one group. -/
  attestations_perm : (r.settled.included ++ (r.attestations.map (·.members)).flatten ++
    r.settled.excluded).Perm (List.range fees.length)
  settled_weight : r.settled.weight = (r.settled.participants.map (weightAt votes)).sum
  settled_fees : r.settled.fees = (r.settled.included.map (fees.getD · 0)).sum
  group_weight : ∀ voters ∈ r.voters,
    voters.weight = (voters.members.map (weightAt votes)).sum
  group_fee : ∀ attestations ∈ r.attestations,
    attestations.fee = (attestations.members.map (fees.getD · 0)).sum
  /-- A group votes like each of its voters. -/
  group_confirms : ∀ voters ∈ r.voters, ∀ j attestations, r.attestations[j]? = some attestations →
    ∀ v ∈ voters.members, ∀ a ∈ attestations.members,
      (ConfirmsAt votes v a ↔ voters.confirms j = true)
  /-- Settled participants confirm everything that is not excluded. -/
  participants_confirm : ∀ v ∈ r.settled.participants, ∀ a, a < fees.length →
    a ∉ r.settled.excluded → ConfirmsAt votes v a
  /-- Settled inclusions are confirmed by everybody. -/
  included_confirmed : ∀ a ∈ r.settled.included, ∀ v, v < votes.length → ConfirmsAt votes v a
  /-- Exactly what no majority confirms is excluded. -/
  excluded_iff : ∀ a, a < fees.length →
    (a ∈ r.settled.excluded ↔ backing votes {a} ≤ r.half)

end Reduction

open Standing in
/-- **Reducing a round represents it.** -/
theorem Reduction.ofRound_represents (votes : List WeightedBallot) (fees : List Nat)
    (total : Nat) : (Reduction.ofRound votes fees total).Represents votes fees := by
  rw [Reduction.ofRound, settle_eq_pass]
  refine ⟨?_, ?_, settled_weight_start, settled_fees_start, ?_, ?_, ?_, ?_, ?_,
    fun a => mem_excluded_start⟩
  · exact (List.Perm.append_left _ voter_members_perm).trans voter_positions_perm
  · exact ((List.Perm.append_left _ attestation_members_perm).append_right _).trans
      attestation_positions_perm
  · intro voters hmem
    obtain ⟨_, vg, -, hvg, rfl⟩ := exists_voterGroup_of_mem hmem
    exact (sum_weightAt fun v hv =>
      mem_start_of_undecided (mem_voters_of_group (List.mem_of_getElem? hvg) hv)).symm
  · intro attestations hmem
    obtain ⟨_, ag, -, hag, rfl⟩ := exists_attestationGroup_of_mem hmem
    exact (sum_feeAt fun a ha =>
      mem_start_of_contested (mem_attestations_of_group (List.mem_of_getElem? hag) ha)).symm
  · intro voters hmem j attestations hj v hv a ha
    obtain ⟨i, vg, hi, hvg, rfl⟩ := exists_voterGroup_of_mem hmem
    rw [attestations_reduce, Option.map_eq_some_iff] at hj
    obtain ⟨ag, hag, rfl⟩ := hj
    obtain ⟨voter, hvoter, rfl⟩ := List.mem_map.mp hv
    obtain ⟨attestation, hattestation, rfl⟩ := List.mem_map.mp ha
    rw [reduce_confirms hi hvg hag hvoter hattestation]
    have hopen := mem_voters_of_group (List.mem_of_getElem? hvg) hvoter
    exact confirmsAt_of_mem (mem_start_of_undecided hopen) _
  · exact fun v hv a => participants_start_confirm hv
  · exact fun a ha v => included_start_confirmed ha

end BallotConsensus
