import BallotConsensus.Proofs.Exploration.Dual

/-!
# The nodes that a search can come to

A search goes down from node to node by deciding one entry after the other, so
whatever its budget, its bound and its coins, it can only come to the nodes of
its tree: those that decisions on the first entries lead to.  An invariant that
holds at the root and that every decision keeps holds at all of them.

For the two ways to search a reduction this bounds what is added and subtracted
on the way.  The fees of a node still contain the fee of everything that is left
to decide, so leaving out an attestation group never takes away more than there
is; likewise for the weight of the voters.  And no weight ever exceeds the
weight of all who can participate.

* `Branching.IsNode` — the nodes of a search tree, with what is left to decide
  there, and `Branching.IsNode.invariant`: how invariants spread over it;
* `Coalition.Running`, `Support.Running` — the invariants of the two searches;
* `Reduction.within_byAttestations`, `Reduction.within_byVoters` — **all nodes
  are within limits**: sums stay below the total weight, differences do not fall
  below zero, and every entry is found where it is looked up.
-/

namespace BallotConsensus

section Nodes

variable {Entry Node : Type}

/-- **The nodes of a search tree**: decisions on the first entries lead from the
root to the node, and the rest is left to decide. -/
def Branching.IsNode (b : Branching Entry Node) (entries : List Entry) (root : Node)
    (rest : List Entry) (node : Node) : Prop :=
  ∃ decided decisions, entries = decided ++ rest ∧ b.follow root decided decisions = some node

variable {b : Branching Entry Node} {entries rest : List Entry} {root node : Node}

/-- Decisions lead on only from decision to decision. -/
theorem Branching.follow_cons {entry : Entry} {decisions : List Bool} :
    b.follow root (entry :: entries) decisions = some node ↔
      ∃ taken later child, decisions = taken :: later ∧ b.decide root entry taken = some child ∧
        b.follow child entries later = some node := by
  cases decisions with
  | nil => simp [Branching.follow]
  | cons taken later =>
      cases hdecide : b.decide root entry taken with
      | none => simp [Branching.follow, hdecide]
      | some child => simp [Branching.follow, hdecide]

/-- **Invariants spread over a search tree**, if every decision keeps them.  The
induction is on the entries that are decided, from the root downwards. -/
theorem Branching.IsNode.invariant (Inv : List Entry → Node → Prop)
    (hstep : ∀ {entry rest node taken child}, Inv (entry :: rest) node →
      b.decide node entry taken = some child → Inv rest child)
    (hroot : Inv entries root) (h : b.IsNode entries root rest node) : Inv rest node := by
  obtain ⟨decided, decisions, rfl, hfollow⟩ := h
  induction decided generalizing root decisions with
  | nil =>
      cases decisions with
      | nil =>
          obtain rfl := Option.some.inj hfollow
          exact hroot
      | cons => simp [Branching.follow] at hfollow
  | cons entry decided ih =>
      obtain ⟨taken, later, child, rfl, hdecide, hlater⟩ := Branching.follow_cons.mp hfollow
      exact ih later hlater (hstep hroot hdecide)

/-- All nodes of a tree are sound if its root is, and none weighs more than the root. -/
theorem Branching.Shrinking.of_isNode {Sound : Node → Prop} (hb : b.Shrinking Sound)
    (hroot : Sound root) (h : b.IsNode entries root rest node) :
    Sound node ∧ b.weight node ≤ b.weight root := by
  refine h.invariant (fun _ node => Sound node ∧ b.weight node ≤ b.weight root) ?_
    ⟨hroot, Nat.le_refl _⟩
  intro entry rest node taken child hnode hdecide
  obtain ⟨hsound, hle⟩ := hnode
  exact ⟨hb.sound hsound hdecide, Nat.le_trans (hb.weight_le hsound hdecide) hle⟩

end Nodes

/-! ## Deciding attestations -/

/-- What holds at every node of a search by attestations. -/
structure Coalition.Running (r : Reduction) (rest : List (AttestationGroup × Nat))
    (c : Coalition) : Prop where
  voters_sublist : c.voters.Sublist r.voters
  rest_at : ∀ entry ∈ rest, r.attestations[entry.2]? = some entry.1
  weighed : r.Weighed c
  /-- The fees contain those of everything that is left to decide. -/
  rest_le : (rest.map (·.1.fee)).sum ≤ c.fees

/-- A node of a search by attestations at which nothing goes wrong. -/
structure Coalition.Within (r : Reduction) (rest : List (AttestationGroup × Nat))
    (c : Coalition) : Prop where
  /-- The coalition consists of groups of the reduction. -/
  voters_sublist : c.voters.Sublist r.voters
  /-- What is left to decide is found at its position. -/
  rest_at : ∀ entry ∈ rest, r.attestations[entry.2]? = some entry.1
  weight_le : c.weight ≤ r.total
  /-- Whatever is included next, its supporters weigh no more than everybody. -/
  supporters_le : ∀ j, r.settled.weight +
    ((c.voters.filter (·.confirms j)).map (·.weight)).sum ≤ r.total
  /-- Whatever is left out next, its fee can be subtracted. -/
  fee_le : ∀ entry ∈ rest, entry.1.fee ≤ c.fees

namespace Coalition.Running

variable {r : Reduction} {rest : List (AttestationGroup × Nat)} {c child : Coalition}
  {entry : AttestationGroup × Nat} {taken : Bool}

/-- One decision keeps the invariant: including shrinks the coalition and leaves
the fees alone, leaving out takes from the fees what is no longer to be
decided. -/
theorem decide (h : c.Running r (entry :: rest))
    (hdecide : r.byAttestations.decide c entry taken = some child) : child.Running r rest := by
  have hrest := h.rest_le
  rw [List.map_cons, List.sum_cons] at hrest
  have hat := fun e he => h.rest_at e (List.mem_cons_of_mem _ he)
  rcases Reduction.byAttestations_cases hdecide with ⟨-, -, rfl⟩ | ⟨-, rfl⟩
  · exact ⟨List.filter_sublist.trans h.voters_sublist, hat, rfl, by dsimp only; omega⟩
  · exact ⟨h.voters_sublist, hat, h.weighed, by dsimp only; omega⟩

/-- Part of the voter groups weighs no more than all of them. -/
theorem weight_le_of_sublist {voters : List VoterGroup} (h : voters.Sublist r.voters) :
    r.settled.weight + (voters.map (·.weight)).sum ≤ r.weight :=
  Nat.add_le_add_left ((h.map _).sum_le_sum (by simp)) _

theorem within (h : c.Running r rest) (hweight : r.weight ≤ r.total) : c.Within r rest where
  voters_sublist := h.voters_sublist
  rest_at := h.rest_at
  weight_le := by
    rw [h.weighed]
    exact Nat.le_trans (weight_le_of_sublist h.voters_sublist) hweight
  supporters_le j :=
    Nat.le_trans (weight_le_of_sublist (List.filter_sublist.trans h.voters_sublist)) hweight
  fee_le entry hentry :=
    Nat.le_trans (List.le_sum_of_mem (List.mem_map.mpr ⟨entry, hentry, rfl⟩)) h.rest_le

end Coalition.Running

/-! ## Deciding voters -/

/-- What holds at every node of a search by voters. -/
structure Support.Running (r : Reduction) (rest : List VoterGroup) (s : Support) : Prop where
  attestations_at : ∀ entry ∈ s.attestations, r.attestations[entry.2]? = some entry.1
  weight_le : s.weight ≤ r.weight
  /-- The weight contains that of everybody who is left to decide. -/
  rest_le : (rest.map (·.weight)).sum ≤ s.weight
  /-- The fees contain those of everything supported. -/
  supported_le : (s.attestations.map (·.1.fee)).sum ≤ s.fees

/-- A node of a search by voters at which nothing goes wrong. -/
structure Support.Within (r : Reduction) (rest : List VoterGroup) (s : Support) : Prop where
  /-- What is supported is found at its position. -/
  attestations_at : ∀ entry ∈ s.attestations, r.attestations[entry.2]? = some entry.1
  weight_le : s.weight ≤ r.total
  /-- Whoever is left out next, its weight can be subtracted. -/
  group_le : ∀ voters ∈ rest, voters.weight ≤ s.weight
  /-- Whoever participates next, the fees of everything it does not confirm can
  be subtracted, one after the other. -/
  dropped_le : ∀ voters : VoterGroup,
    ((s.attestations.filter fun e => !voters.confirms e.2).map (·.1.fee)).sum ≤ s.fees

namespace Support.Running

variable {r : Reduction} {rest : List VoterGroup} {s child : Support} {voters : VoterGroup}
  {taken : Bool}

/-- One decision keeps the invariant: participating takes from the fees what is
no longer supported, leaving out takes from the weight who is no longer to be
decided. -/
theorem decide (h : s.Running r (voters :: rest))
    (hdecide : r.byVoters.decide s voters taken = some child) : child.Running r rest := by
  have hrest := h.rest_le
  have hsupported := h.supported_le
  have hweight := h.weight_le
  rw [List.map_cons, List.sum_cons] at hrest
  rcases Reduction.byVoters_cases hdecide with ⟨-, rfl⟩ | ⟨-, -, rfl⟩
  · have hsplit := List.filter_append_perm (fun e => voters.confirms e.2) s.attestations
    rw [← (hsplit.map _).sum_eq, List.map_append, List.sum_append] at hsupported
    refine ⟨fun e he => h.attestations_at e (List.mem_of_mem_filter he), hweight, ?_, ?_⟩
    · dsimp only
      omega
    · dsimp only
      omega
  · exact ⟨h.attestations_at, by dsimp only; omega, by dsimp only; omega, hsupported⟩

theorem within (h : s.Running r rest) (hweight : r.weight ≤ r.total) : s.Within r rest where
  attestations_at := h.attestations_at
  weight_le := Nat.le_trans h.weight_le hweight
  group_le voters hvoters :=
    Nat.le_trans (List.le_sum_of_mem (List.mem_map_of_mem hvoters)) h.rest_le
  dropped_le voters :=
    Nat.le_trans ((List.filter_sublist.map _).sum_le_sum (by simp)) h.supported_le

end Support.Running

namespace Reduction

variable {r : Reduction}

/-- **All nodes of a search by attestations are within limits**, in whatever
order the groups are decided. -/
theorem within_byAttestations (hweight : r.weight ≤ r.total) {order : List Nat}
    (horder : order.Perm (List.range r.attestations.length))
    {rest : List (AttestationGroup × Nat)} {node : Coalition}
    (hnode : r.byAttestations.IsNode (r.entriesAt order) r.wholeCoalition rest node) :
    node.Within r rest := by
  have hroot : r.wholeCoalition.Running r (r.entriesAt order) := by
    refine ⟨.refl _, fun _ => getElem?_of_mem_entriesAt, rfl, ?_⟩
    rw [sum_fees_entriesAt horder]
    exact Nat.le_add_left _ _
  exact (hnode.invariant (Coalition.Running r) .decide hroot).within hweight

/-- **All nodes of a search by voters are within limits.** -/
theorem within_byVoters (hweight : r.weight ≤ r.total) {rest : List VoterGroup}
    {node : Support} (hnode : r.byVoters.IsNode r.voters r.wholeSupport rest node) :
    node.Within r rest := by
  have hroot : r.wholeSupport.Running r r.voters := by
    refine ⟨?_, Nat.le_refl _, Nat.le_add_left _ _, ?_⟩
    · intro entry hentry
      exact List.mk_mem_zipIdx_iff_getElem?.mp hentry
    · refine Nat.le_trans (le_of_eq ?_) (Nat.le_add_left _ r.settled.fees)
      conv_rhs => rw [← List.zipIdx_map_fst 0 r.attestations, List.map_map]
      rfl
  exact (hnode.invariant (Support.Running r) .decide hroot).within hweight

end Reduction

end BallotConsensus
