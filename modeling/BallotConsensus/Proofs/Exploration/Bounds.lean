import BallotConsensus.Proofs.Exploration.Nodes
import BallotConsensus.Proofs.Exploration.Optimum

/-!
# The worth of a node bounds what lies below it

A search turns back at a node if the fees and the weight that can still be had there
are worth less than the bound.  Nothing shows when it turns back too early: what would
have been found below the node is just missing.  So the worth of a node has to be an
upper bound, at every node, for everything that still lies below it.

What lies below a node can be said in two ways.  It is the leaves that further
decisions lead to, with the weight and the fees that are carried there.  And it is the
assignments that decide as it was decided on the way to the node, with the worth that
their flags have in the reduction; these need not be leaves, since a leaf adds
everybody who confirms its inclusions, or everything that its participants confirm.

Both is bounded because decisions only shrink weight and fees, and because worth is
monotone in both at once, on either side of the ceiling on the weight.

* `Branching.follow_append` — decisions lead on from where earlier ones have led;
* `Reduction.BoundsBelow` — a node that bounds what lies below it;
* `Reduction.exists_follow_participants`, `Reduction.exists_follow_inclusions` — every
  assignment lies below the nodes that its own decisions lead to;
* `Reduction.node_bounds_below` — **every node of either search bounds what lies below
  it.**
-/

namespace BallotConsensus

open Flags

section Bounds

variable {Entry Node : Type} {b : Branching Entry Node} {decided rest : List Entry}
  {root node : Node} {decisions : List Bool}

/-- Decisions lead on from where earlier decisions have led. -/
theorem Branching.follow_append (h : b.follow root decided decisions = some node)
    (rest : List Entry) (later : List Bool) :
    b.follow root (decided ++ rest) (decisions ++ later) = b.follow node rest later := by
  induction decided generalizing root decisions with
  | nil =>
      cases decisions with
      | nil =>
          obtain rfl := Option.some.inj h
          rfl
      | cons => simp [Branching.follow] at h
  | cons entry decided ih =>
      obtain ⟨taken, decisions, child, rfl, hdecide, hlater⟩ := Branching.follow_cons.mp h
      rw [List.cons_append, List.cons_append, Branching.follow, hdecide]
      exact ih hlater

/-- **A node that bounds what lies below it**: the leaves that can be reached from it,
and the fitting assignments with a majority that agree with the way to it. -/
structure Reduction.BoundsBelow (r : Reduction) (b : Branching Entry Node) (rest : List Entry)
    (node : Node) (Agrees : Assignment → Prop) : Prop where
  /-- No leaf below the node is worth more. -/
  leaf_le : ∀ later last, b.follow node rest later = some last →
    r.worth (b.fees last) (b.weight last) ≤ r.worth (b.fees node) (b.weight node)
  /-- No assignment below the node is worth more. -/
  assignment_le : ∀ a : Assignment, a.Fits r → r.half < r.weightOf a.participants → Agrees a →
    r.worthOf a ≤ r.worth (b.fees node) (b.weight node)
  /-- A search that turns back at the node before its budget is spent leaves out nothing
  that reaches its bound. -/
  left_out : ∀ (budget : Nat) (p : Progress), p.overweight = none → p.operations < budget →
    p.turnsBack ⟨budget, r.total⟩ (b.fees node) (b.weight node) = true →
    ∀ a : Assignment, a.Fits r → r.half < r.weightOf a.participants → Agrees a →
      r.worthOf a < p.bound

/-- Nodes bound what lies below them if decisions only shrink what can still be had, and
if assignments that agree with the way to a node are worth no more than a leaf below
it. -/
theorem Branching.Shrinking.boundsBelow {r : Reduction} {Sound : Node → Prop}
    (hb : b.Shrinking Sound) (hroot : Sound root)
    (hfollow : b.follow root decided decisions = some node) {Agrees : Assignment → Prop}
    (hreaches : ∀ a : Assignment, a.Fits r → r.half < r.weightOf a.participants → Agrees a →
      ∃ later last, b.follow root (decided ++ rest) (decisions ++ later) = some last ∧
        r.worthOf a ≤ r.worth (b.fees last) (b.weight last)) :
    r.BoundsBelow b rest node Agrees := by
  have hisNode : b.IsNode decided root [] node :=
    ⟨decided, decisions, (List.append_nil decided).symm, hfollow⟩
  have hnode : Sound node := (hb.of_isNode hroot hisNode).1
  have hleaf : ∀ later last, b.follow node rest later = some last →
      r.worth (b.fees last) (b.weight last) ≤ r.worth (b.fees node) (b.weight node) := by
    intro later last hlast
    let leaf : Leaf := ⟨later, r.worth (b.fees last) (b.weight last)⟩
    have hbelow : b.IsLeaf ⟨0, r.total⟩ rest node leaf := ⟨last, hlast, rfl⟩
    exact hb.worth_le hnode hbelow
  have hassignment : ∀ a : Assignment, a.Fits r → r.half < r.weightOf a.participants →
      Agrees a → r.worthOf a ≤ r.worth (b.fees node) (b.weight node) := by
    intro a ha hhalf hagrees
    obtain ⟨later, last, hlast, hle⟩ := hreaches a ha hhalf hagrees
    rw [Branching.follow_append hfollow] at hlast
    exact le_trans hle (hleaf later last hlast)
  refine ⟨hleaf, hassignment, ?_⟩
  intro budget p hp hopen hback a ha hhalf hagrees
  rcases Progress.turnsBack_iff.mp hback with hheavy | hspent | hlow
  · simp [hp] at hheavy
  · exact absurd hopen (Nat.not_lt.mpr hspent)
  · exact lt_of_le_of_lt (hassignment a ha hhalf hagrees) hlow

end Bounds

/-! ## The leaf of an assignment -/

namespace Assignment

variable {a : Assignment} {r : Reduction}

/-- Whoever participates backs all inclusions. -/
theorem Fits.mem_backersOf (h : a.Fits r) {i : Nat} (hi : i < r.voters.length)
    (hflag : a.participants[i]? = some true) : (r.backersOf a.included)[i]? = some true := by
  have hvoters := List.getElem?_eq_getElem hi
  rw [Reduction.backersOf, List.getElem?_map, hvoters, Option.map_some,
    h.confirmsAll_included hvoters hflag]

/-- Whatever is included is confirmed by all participants. -/
theorem Fits.mem_sharedBy (h : a.Fits r) {j : Nat} (hj : j < r.attestations.length)
    (hflag : a.included[j]? = some true) : (r.sharedBy a.participants)[j]? = some true := by
  have hconfirmed := h.backed j hflag
  simp [Reduction.sharedBy, hj, hconfirmed]

end Assignment

namespace Reduction

variable {r : Reduction} {a : Assignment}

/-- Deciding for the participants of an assignment leads to a leaf that is worth no
less. -/
theorem exists_follow_participants (ha : a.Fits r) (hhalf : r.half < r.weightOf a.participants) :
    ∃ last, r.byVoters.follow r.wholeSupport r.voters a.participants = some last ∧
      r.worthOf a ≤ r.worth last.fees last.weight := by
  have hmajority : r.half < r.weight := Nat.lt_of_lt_of_le hhalf (r.weightOf_le _)
  have hchosen : a.participants ∈ r.majorities := ⟨ha.participants_length, hhalf⟩
  have hleaf : r.byVoters.IsLeaf ⟨0, r.total⟩ r.voters r.wholeSupport
      ⟨a.participants, r.worthOfParticipants a.participants⟩ :=
    (isLeaf_byVoters_iff rfl hmajority).mpr ⟨_, hchosen, rfl⟩
  obtain ⟨last, hlast, hworth⟩ := hleaf
  have hle : r.worthOf a ≤ r.worthOfParticipants a.participants :=
    Worth.of_mono (feesOf_mono fun _ => ha.mem_sharedBy) (Nat.le_refl _) _
  exact ⟨last, hlast, le_of_le_of_eq hle hworth⟩

/-- Deciding for its inclusions, in any order of all groups, leads to a leaf that is
worth no less. -/
theorem exists_follow_inclusions (ha : a.Fits r) (hhalf : r.half < r.weightOf a.participants)
    {order : List Nat} (horder : order.Perm (List.range r.attestations.length)) :
    ∃ last, r.byAttestations.follow r.wholeCoalition (r.entriesAt order)
        (inOrder order a.included) = some last ∧
      r.worthOf a ≤ r.worth last.fees last.weight := by
  have hmajority : r.half < r.weight := Nat.lt_of_lt_of_le hhalf (r.weightOf_le _)
  have hbackers : r.weightOf a.participants ≤ r.weightOf (r.backersOf a.included) :=
    weightOf_mono fun _ => ha.mem_backersOf
  have hchosen : a.included ∈ r.carriedInclusions :=
    ⟨ha.included_length, Nat.lt_of_lt_of_le hhalf hbackers⟩
  have hleaf : r.byAttestations.IsLeaf ⟨0, r.total⟩ (r.entriesAt order) r.wholeCoalition
      ⟨inOrder order a.included, r.worthOfInclusions a.included⟩ :=
    (isLeaf_byAttestations_iff rfl hmajority horder).mpr ⟨_, hchosen, rfl⟩
  obtain ⟨last, hlast, hworth⟩ := hleaf
  have hle : r.worthOf a ≤ r.worthOfInclusions a.included :=
    Worth.of_mono (Nat.le_refl _) hbackers _
  exact ⟨last, hlast, le_of_le_of_eq hle hworth⟩

/-- **Every node bounds what lies below it**, by attestations in any order of all groups
and by voters.  A node is what decisions on the first entries lead to; below it are the
leaves that decisions on the rest lead to, and the assignments whose flags begin with
the decisions on the first entries.  It comes down to this: more fees backed by more
weight are worth no less, whatever the total weight. -/
theorem node_bounds_below (r : Reduction) :
    (∀ order decided rest decisions node, order.Perm (List.range r.attestations.length) →
      r.entriesAt order = decided ++ rest →
      r.byAttestations.follow r.wholeCoalition decided decisions = some node →
      r.BoundsBelow r.byAttestations rest node fun a => decisions <+: inOrder order a.included) ∧
    (∀ decided rest decisions node, r.voters = decided ++ rest →
      r.byVoters.follow r.wholeSupport decided decisions = some node →
      r.BoundsBelow r.byVoters rest node fun a => decisions <+: a.participants) ∧
    ∀ fees fees' weight weight' total, fees ≤ fees' → weight ≤ weight' →
      Worth.of fees weight total ≤ Worth.of fees' weight' total := by
  refine ⟨?_, ?_, fun _ _ _ _ total hfees hweight => Worth.of_mono hfees hweight total⟩
  · intro order decided rest decisions node horder hentries hfollow
    have hroot : r.Weighed r.wholeCoalition := rfl
    refine (byAttestations_shrinking r).boundsBelow hroot hfollow ?_
    intro a ha hhalf hagrees
    obtain ⟨last, hlast, hle⟩ := exists_follow_inclusions ha hhalf horder
    obtain ⟨later, hlater⟩ := hagrees
    exact ⟨later, last, by rw [hlater, ← hentries, hlast], hle⟩
  · intro decided rest decisions node hentries hfollow
    refine (byVoters_shrinking r).boundsBelow trivial hfollow ?_
    intro a ha hhalf hagrees
    obtain ⟨last, hlast, hle⟩ := exists_follow_participants ha hhalf
    obtain ⟨later, hlater⟩ := hagrees
    exact ⟨later, last, by rw [hlater, ← hentries, hlast], hle⟩

/-- By attestations, leaving out the first group of the order still promises `⟨4, 6⟩`,
and a leaf below it is worth `⟨2, 2⟩`.  By voters, with two participants the search turns
back at a bound of `⟨3, 0⟩`, and the full turnout, which it leaves out, is below that. -/
theorem node_bounds_below_of_cycle :
    [2, 0, 1].Perm (List.range cycle.attestations.length) ∧
      (∃ node last, cycle.byAttestations.follow cycle.wholeCoalition
          ((cycle.entriesAt [2, 0, 1]).take 1) [false] = some node ∧
        cycle.byAttestations.follow node ((cycle.entriesAt [2, 0, 1]).drop 1) [true, false] =
          some last ∧
        cycle.worth last.fees last.weight = ⟨2, 2⟩ ∧ cycle.worth node.fees node.weight = ⟨4, 6⟩ ∧
        (⟨2, 2⟩ : Worth) ≤ ⟨4, 6⟩ ∧ cycle.worthOf cycle.fullTurnout ≤ ⟨4, 6⟩) ∧
      ∃ node, cycle.byVoters.follow cycle.wholeSupport (cycle.voters.take 2) [true, true] =
          some node ∧
        Progress.turnsBack ⟨⟨3, 0⟩, 5, .ofSeed (.ofNumber 7), none⟩ ⟨100, 3⟩ node.fees
          node.weight = true ∧
        cycle.worthOf cycle.fullTurnout < ⟨3, 0⟩ := by
  have horder : [2, 0, 1].Perm (List.range cycle.attestations.length) := by decide +kernel
  have hhalf : cycle.half < cycle.weightOf cycle.fullTurnout.participants := by decide +kernel
  have hfits := Assignment.fits_fullTurnout cycle
  obtain ⟨hattestations, hvoters, -⟩ := node_bounds_below cycle
  refine ⟨horder, ?_, ?_⟩
  · have hnode : (cycle.byAttestations.follow cycle.wholeCoalition
        ((cycle.entriesAt [2, 0, 1]).take 1) [false]).map
          (fun node => (cycle.worth node.fees node.weight,
            (cycle.byAttestations.follow node ((cycle.entriesAt [2, 0, 1]).drop 1)
              [true, false]).map fun last => cycle.worth last.fees last.weight)) =
        some (⟨4, 6⟩, some ⟨2, 2⟩) := by decide +kernel
    obtain ⟨node, hfollow, hworths⟩ := Option.map_eq_some_iff.mp hnode
    obtain ⟨hworth, hleaf⟩ := Prod.mk.inj hworths
    obtain ⟨last, hlast, hlow⟩ := Option.map_eq_some_iff.mp hleaf
    have hbounds := hattestations _ _ _ _ node horder (List.take_append_drop 1 _).symm hfollow
    have hle := hbounds.leaf_le _ last hlast
    have hfull := hbounds.assignment_le _ hfits hhalf (by decide +kernel)
    change cycle.worth last.fees last.weight ≤ cycle.worth node.fees node.weight at hle
    change cycle.worthOf cycle.fullTurnout ≤ cycle.worth node.fees node.weight at hfull
    rw [hworth] at hle hfull
    rw [hlow] at hle
    exact ⟨node, last, hfollow, hlast, hlow, hworth, hle, hfull⟩
  · have hnode : (cycle.byVoters.follow cycle.wholeSupport (cycle.voters.take 2)
        [true, true]).map (fun node => Progress.turnsBack
          ⟨⟨3, 0⟩, 5, .ofSeed (.ofNumber 7), none⟩ ⟨100, 3⟩ node.fees node.weight) =
        some true := by decide +kernel
    obtain ⟨node, hfollow, hback⟩ := Option.map_eq_some_iff.mp hnode
    have hbounds := hvoters _ _ _ node (List.take_append_drop 2 _).symm hfollow
    exact ⟨node, hfollow, hback, hbounds.left_out 100 ⟨⟨3, 0⟩, 5, .ofSeed (.ofNumber 7), none⟩ rfl
      (by decide) hback _ hfits hhalf (by decide +kernel)⟩

end Reduction

end BallotConsensus
