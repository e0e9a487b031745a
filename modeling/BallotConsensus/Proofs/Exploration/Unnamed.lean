import BallotConsensus.Proofs.Resolution

/-!
# Searches do not know names

A reduction names the voters and attestations that its groups stand for, but
the searches never look at the names.  They see the weight of a group, its fee
and what it confirms; with the names taken away, every search takes the same
decisions at the same cost, whatever the budget.

* `Branching.Mirrors`, `Branching.Mirrors.explore_eq` — a branching seen through
  a map of its entries and nodes is searched alike;
* `Reduction.unnamed` — a reduction without names;
* `Reduction.resolution_unnamed` — **a reduction is resolved by its shape**: two
  reductions that differ in names only have one resolution.
-/

namespace BallotConsensus

section Mirrors

variable {Entry Node Entry' Node' : Type}

/-- **A mirrored branching.**  Entries and nodes of one branching are seen as
entries and nodes of another that offers the same fees and weights, charges the
same and decides the same way. -/
structure Branching.Mirrors (mirror : Branching Entry' Node') (b : Branching Entry Node)
    (seeEntry : Entry → Entry') (seeNode : Node → Node') : Prop where
  fees : ∀ node, mirror.fees (seeNode node) = b.fees node
  weight : ∀ node, mirror.weight (seeNode node) = b.weight node
  charge : ∀ node, mirror.charge (seeNode node) = b.charge node
  decide : ∀ node entry taken,
    mirror.decide (seeNode node) (seeEntry entry) taken =
      (b.decide node entry taken).map seeNode

/-- **A mirrored branching is searched alike.** -/
theorem Branching.Mirrors.explore_eq {mirror : Branching Entry' Node'} {b : Branching Entry Node}
    {seeEntry : Entry → Entry'} {seeNode : Node → Node'}
    (h : mirror.Mirrors b seeEntry seeNode) (scope : Scope) (entries : List Entry) (node : Node)
    (p : Progress) :
    explore mirror scope (entries.map seeEntry) (seeNode node) p =
      explore b scope entries node p := by
  induction entries generalizing node p with
  | nil => simp only [List.map_nil, explore, h.fees, h.weight]
  | cons entry entries ih =>
      have hvisit : ∀ taken q,
          visit mirror scope (entries.map seeEntry) (seeNode node) (seeEntry entry) taken q =
            visit b scope entries node entry taken q := by
        intro taken q
        rw [visit_eq, visit_eq, h.charge, h.decide]
        cases b.decide node entry taken with
        | none => rfl
        | some child => exact ih child _
      rw [List.map_cons]
      cases hback : (p.spend 1).turnsBack scope (b.fees node) (b.weight node) with
      | true =>
          rw [explore_turned_back hback, explore_turned_back]
          rw [h.fees, h.weight, hback]
      | false =>
          rw [explore_visited hback rfl rfl rfl, explore_visited _ rfl rfl rfl]
          · simp only [hvisit]
          · rw [h.fees, h.weight, hback]

end Mirrors

/-! ## Taking the names away -/

/-- A voter group without the names of its voters. -/
def VoterGroup.unnamed (voters : VoterGroup) : VoterGroup := { voters with members := [] }

/-- An attestation group without the names of its attestations. -/
def AttestationGroup.unnamed (attestations : AttestationGroup) : AttestationGroup :=
  { attestations with members := [] }

@[simp] theorem VoterGroup.unnamed_weight (voters : VoterGroup) :
    voters.unnamed.weight = voters.weight := rfl

@[simp] theorem VoterGroup.unnamed_confirms (voters : VoterGroup) (j : Nat) :
    voters.unnamed.confirms j = voters.confirms j := rfl

@[simp] theorem AttestationGroup.unnamed_fee (attestations : AttestationGroup) :
    attestations.unnamed.fee = attestations.fee := rfl

/-- An entry of a search by attestations without names. -/
def unnamedEntry (entry : AttestationGroup × Nat) : AttestationGroup × Nat :=
  (entry.1.unnamed, entry.2)

@[simp] theorem unnamedEntry_position (entry : AttestationGroup × Nat) :
    (unnamedEntry entry).2 = entry.2 := rfl

/-- A node of a search by attestations without names. -/
def Coalition.unnamed (coalition : Coalition) : Coalition :=
  { coalition with voters := coalition.voters.map (·.unnamed) }

/-- A node of a search by voters without names. -/
def Support.unnamed (support : Support) : Support :=
  { support with attestations := support.attestations.map unnamedEntry }

namespace Reduction

variable {r : Reduction}

/-- A reduction without names: the weights, the fees and who confirms what. -/
def unnamed (r : Reduction) : Reduction where
  voters := r.voters.map (·.unnamed)
  attestations := r.attestations.map (·.unnamed)
  settled := { r.settled with participants := [], included := [], excluded := [] }
  total := r.total

@[simp] theorem unnamed_half : r.unnamed.half = r.half := rfl

@[simp] theorem unnamed_settled_weight : r.unnamed.settled.weight = r.settled.weight := rfl

@[simp] theorem unnamed_weight : r.unnamed.weight = r.weight := by
  simp [weight, unnamed, Function.comp_def]

@[simp] theorem unnamed_fees : r.unnamed.fees = r.fees := by
  simp [fees, unnamed, Function.comp_def]

@[simp] theorem weightOf_unnamed (participants : List Bool) :
    r.unnamed.weightOf participants = r.weightOf participants := by
  have hselect : (Flags.select r.unnamed.voters participants).map (·.weight) =
      (Flags.select r.voters participants).map (·.weight) := by
    rw [unnamed, ← Flags.map_select, List.map_map]
    rfl
  rw [weightOf_eq, weightOf_eq, hselect]
  rfl

@[simp] theorem feesOf_unnamed (included : List Bool) :
    r.unnamed.feesOf included = r.feesOf included := by
  have hselect : (Flags.select r.unnamed.attestations included).map (·.fee) =
      (Flags.select r.attestations included).map (·.fee) := by
    rw [unnamed, ← Flags.map_select, List.map_map]
    rfl
  rw [feesOf_eq, feesOf_eq, hselect]
  rfl

@[simp] theorem confirmedByAll_unnamed (participants : List Bool) (j : Nat) :
    r.unnamed.confirmedByAll participants j = r.confirmedByAll participants j := by
  simp [confirmedByAll, unnamed, List.zip_map_left, List.all_map, Function.comp_def]

@[simp] theorem confirmsAll_unnamed (included : List Bool) (voters : VoterGroup) :
    confirmsAll included voters.unnamed = confirmsAll included voters := rfl

theorem fullTurnout_unnamed : r.unnamed.fullTurnout = r.fullTurnout := by
  simp only [fullTurnout, unnamed_weight]
  simp [unnamed, Function.comp_def, worth]

theorem saturate_unnamed (a : Assignment) : a.saturate r.unnamed = a.saturate r := by
  simp only [Assignment.saturate, confirmedByAll_unnamed, worthOf, weightOf_unnamed,
    feesOf_unnamed]
  simp [unnamed, worth, List.zip_map_right, Function.comp_def]

/-! ## The searches -/

/-- Filters on what a group confirms do not look at names. -/
theorem filter_unnamed (voters : List VoterGroup) (j : Nat) :
    (voters.map (·.unnamed)).filter (·.confirms j) =
      (voters.filter (·.confirms j)).map (·.unnamed) := by
  rw [List.filter_map]
  rfl

theorem filter_unnamedEntry (entries : List (AttestationGroup × Nat)) (p : Nat → Bool) :
    (entries.map unnamedEntry).filter (fun e => p e.2) =
      (entries.filter fun e => p e.2).map unnamedEntry := by
  rw [List.filter_map]
  rfl

theorem byAttestations_unnamed (r : Reduction) :
    r.unnamed.byAttestations.Mirrors r.byAttestations unnamedEntry Coalition.unnamed where
  fees _ := rfl
  weight _ := rfl
  charge _ := List.length_map _
  decide := by
    intro node entry taken
    cases taken with
    | false => rfl
    | true =>
        simp only [byAttestations_included, Coalition.unnamed, unnamedEntry_position,
          filter_unnamed, List.map_map, Function.comp_def, VoterGroup.unnamed_weight,
          unnamed_half, unnamed_settled_weight]
        rw [apply_ite (Option.map _)]
        rfl

theorem byVoters_unnamed (r : Reduction) :
    r.unnamed.byVoters.Mirrors r.byVoters VoterGroup.unnamed Support.unnamed where
  fees _ := rfl
  weight _ := rfl
  charge _ := List.length_map _
  decide := by
    intro node voters taken
    cases taken with
    | false =>
        rw [byVoters_absent, byVoters_absent, apply_ite (Option.map _)]
        rfl
    | true =>
        have hfees : (((node.attestations.map unnamedEntry).filter
            fun e => !voters.confirms e.2).map (·.1.fee)).sum =
              ((node.attestations.filter fun e => !voters.confirms e.2).map (·.1.fee)).sum := by
          rw [filter_unnamedEntry _ fun j => !voters.confirms j, List.map_map]
          rfl
        rw [byVoters_present, byVoters_present]
        simp only [Support.unnamed, VoterGroup.unnamed_confirms, hfees,
          filter_unnamedEntry _ voters.confirms]
        rfl

theorem entriesAt_unnamed (order : List Nat) :
    r.unnamed.entriesAt order = (r.entriesAt order).map unnamedEntry := by
  simp only [entriesAt, unnamed, List.map_filterMap, List.getElem?_toArray, List.getElem?_zipIdx,
    List.getElem?_map, Option.map_map]
  rfl

theorem wholeCoalition_unnamed : r.unnamed.wholeCoalition = r.wholeCoalition.unnamed := by
  simp only [wholeCoalition, unnamed_weight, unnamed_fees]
  rfl

theorem wholeSupport_unnamed : r.unnamed.wholeSupport = r.wholeSupport.unnamed := by
  have hentries : r.unnamed.attestations.zipIdx = r.attestations.zipIdx.map unnamedEntry :=
    List.zipIdx_map
  simp only [wholeSupport, unnamed_weight, unnamed_fees, hentries]
  rfl

/-- A search reads its leaf as the same assignment. -/
theorem assignmentOfInclusions_unnamed (order : List Nat) :
    r.unnamed.assignmentOfInclusions order = r.assignmentOfInclusions order := by
  funext leaf
  simp [assignmentOfInclusions, unnamed, Function.comp_def]

theorem assignmentOfParticipants_unnamed :
    r.unnamed.assignmentOfParticipants = r.assignmentOfParticipants := by
  funext leaf
  simp only [assignmentOfParticipants, confirmedByAll_unnamed]
  simp [unnamed, List.zipIdx_map]

/-- **A search does not know names.** -/
theorem search_unnamed (r : Reduction) (subject : Subject) (budget : Nat) (seed : Seed)
    (bound : Worth) :
    r.unnamed.search subject budget seed bound = r.search subject budget seed bound := by
  rcases Nat.lt_or_ge r.half r.weight with hmajority | hminority
  · have hmajority' : r.unnamed.half < r.unnamed.weight := by simpa using hmajority
    have htotal : r.unnamed.total = r.total := rfl
    cases subject with
    | attestations =>
        have hcount : r.unnamed.attestations.length = r.attestations.length := by simp [unnamed]
        have horder : r.unnamed.drawnOrder seed = r.drawnOrder seed := by
          rw [drawnOrder, drawnOrder, hcount]
        rw [search_attestations hmajority, search_attestations hmajority', horder, hcount, htotal,
          entriesAt_unnamed, wholeCoalition_unnamed, assignmentOfInclusions_unnamed,
          (byAttestations_unnamed r).explore_eq]
    | voters =>
        have hvoters : r.unnamed.voters = r.voters.map (·.unnamed) := rfl
        rw [search_voters hmajority, search_voters hmajority', htotal, hvoters,
          wholeSupport_unnamed, assignmentOfParticipants_unnamed,
          (byVoters_unnamed r).explore_eq]
  · rw [search_no_majority hminority, search_no_majority (by simpa using hminority)]

/-- **A resolution does not know names.** -/
theorem resolution_unnamed (r : Reduction) (budget : Nat) (seed : Seed) :
    r.unnamed.resolution budget seed = r.resolution budget seed := by
  have hfewer : Subject.fewerFirst r.unnamed = Subject.fewerFirst r := by
    simp [Subject.fewerFirst, unnamed]
  have hleading : r.unnamed.leading budget seed = r.leading budget seed := by
    rw [leading, leading, hfewer, search_unnamed]
  have hfollowing : r.unnamed.following budget seed = r.following budget seed := by
    rw [following, following, hfewer, hleading, search_unnamed]
  have hsearched : r.unnamed.searched budget seed = r.searched budget seed := by
    rw [searched, searched, hleading, hfollowing]
  rw [resolution_eq, resolution_eq, hleading, hfollowing, hsearched, fullTurnout_unnamed,
    saturate_unnamed]

end Reduction

end BallotConsensus
