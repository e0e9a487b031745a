import BallotConsensus.Exploration
import BallotConsensus.Proofs.Worth

/-!
# What a search finds

A search within a budget is exact about what it has covered.  This file
proves it for every branching whose decisions only shrink what can still be
had, whatever the coin flips and whatever the bound it starts with.

* `Progress.Advances` — operations and bound never sink; every search
  advances (`explore_spends`);
* `Branching.IsLeaf` — the leaves below a node, said by following decisions
  and not by searching;
* `Branching.Shrinking.worth_le` — **the bound is sound**: no leaf is worth
  more than a node above it;
* `Searched` — the contract of a search below a node: what it returns is a
  leaf and its worth is the new bound, and unless the budget was spent no
  leaf that reaches the old bound is worth more;
* `explore_searched` — every search meets it.
-/

namespace BallotConsensus

variable {Entry Node : Type}

/-! ## Progress -/

namespace Progress

@[simp] theorem spend_operations (p : Progress) (n : Nat) :
    (p.spend n).operations = p.operations + n := rfl

@[simp] theorem spend_overweight (p : Progress) (n : Nat) :
    (p.spend n).overweight = p.overweight := rfl

theorem spend_spend (p : Progress) (m n : Nat) : (p.spend m).spend n = p.spend (m + n) := by
  simp only [spend, Nat.add_assoc]

/-- Later progress: more operations are spent, and the bound is no lower. -/
structure Advances (p q : Progress) : Prop where
  operations_le : p.operations ≤ q.operations
  bound_le : p.bound ≤ q.bound

theorem Advances.refl (p : Progress) : p.Advances p := ⟨Nat.le_refl _, le_refl _⟩

theorem Advances.trans {p q r : Progress} (hpq : p.Advances q) (hqr : q.Advances r) :
    p.Advances r :=
  ⟨Nat.le_trans hpq.operations_le hqr.operations_le, le_trans hpq.bound_le hqr.bound_le⟩

theorem advances_spend (p : Progress) (n : Nat) : p.Advances (p.spend n) :=
  ⟨Nat.le_add_right _ _, le_refl _⟩

theorem advances_flip (p : Progress) : p.Advances p.flip.2 :=
  ⟨Nat.le_refl _, le_refl _⟩

/-- Evaluating a leaf raises the bound or leaves it alone. -/
theorem advances_evaluate (p : Progress) (scope : Scope) (fees weight : Nat) :
    p.Advances (p.evaluate scope fees weight).2 := by
  unfold evaluate
  split
  · exact ⟨Nat.le_refl _, le_refl _⟩
  · split
    · exact Advances.refl p
    · next hreach => exact ⟨Nat.le_refl _, not_lt.mp hreach⟩

/-- A search turns back at a node for three reasons. -/
theorem turnsBack_iff {p : Progress} {scope : Scope} {fees weight : Nat} :
    p.turnsBack scope fees weight = true ↔
      p.overweight.isSome = true ∨ scope.budget ≤ p.operations ∨
        scope.worth fees weight < p.bound := by
  rw [turnsBack, Bool.or_eq_true, Bool.or_eq_true, decide_eq_true_iff, decide_eq_true_iff,
    or_assoc]

end Progress

/-! ## One decision of a search -/

/-- The search beyond one decision: the part of `explore` that is run for
both decisions on an entry. -/
def visit (b : Branching Entry Node) (scope : Scope) (entries : List Entry) (node : Node)
    (entry : Entry) (taken : Bool) (p : Progress) : Option Leaf × Progress :=
  let p := if taken then p.spend (b.charge node) else p
  match b.decide node entry taken with
  | some child => explore b scope entries child p
  | none => (none, p)

/-- A visit is charged for before anything else. -/
theorem visit_eq (b : Branching Entry Node) (scope : Scope) (entries : List Entry) (node : Node)
    (entry : Entry) (taken : Bool) (p : Progress) :
    visit b scope entries node entry taken p =
      match b.decide node entry taken with
      | some child =>
        explore b scope entries child (p.spend (if taken then b.charge node else 0))
      | none => (none, p.spend (if taken then b.charge node else 0)) := by
  have hcharge : (if taken then p.spend (b.charge node) else p) =
      p.spend (if taken then b.charge node else 0) := by
    cases taken <;> rfl
  simp only [visit, hcharge]

/-- A node that turns back spends one operation and finds nothing. -/
theorem explore_turned_back {b : Branching Entry Node} {scope : Scope} {entry : Entry}
    {entries : List Entry} {node : Node} {p : Progress}
    (h : (p.spend 1).turnsBack scope (b.fees node) (b.weight node) = true) :
    explore b scope (entry :: entries) node p = (none, p.spend 1) := by
  simp [explore, h]

/-- The better of what two visits found.  On heads the first of them was the
one that decides against the entry. -/
def betterVisit (heads : Bool) (first second : Option Leaf) : Option Leaf :=
  if heads then better first second else better second first

/-- A node that does not turn back flips a coin and visits both decisions,
one after the other. -/
theorem explore_visited {b : Branching Entry Node} {scope : Scope} {entry : Entry}
    {entries : List Entry} {node : Node} {p q : Progress} {heads : Bool}
    {first second : Option Leaf × Progress}
    (h : (p.spend 1).turnsBack scope (b.fees node) (b.weight node) = false)
    (hflip : (p.spend 1).flip = (heads, q))
    (hfirst : visit b scope entries node entry (!heads) q = first)
    (hsecond : visit b scope entries node entry heads first.2 = second) :
    explore b scope (entry :: entries) node p =
      (betterVisit heads first.1 second.1, second.2) := by
  subst hsecond
  subst hfirst
  simp only [explore, h, Bool.false_eq_true, if_false, hflip]
  rfl

/-- Operations that visiting a decision costs in any case: what the branching
charges for it, and one for the node behind it, if there is one. -/
def Branching.toll (b : Branching Entry Node) (node : Node) (entry : Entry) (taken : Bool) : Nat :=
  (if taken then b.charge node else 0) + if (b.decide node entry taken).isSome then 1 else 0

/-- A visit spends at least its toll if every search behind it spends an
operation. -/
theorem visit_spends_of {b : Branching Entry Node} {scope : Scope} {entries : List Entry}
    (ih : ∀ node (p : Progress), (p.spend 1).Advances (explore b scope entries node p).2)
    (node : Node) (entry : Entry) (taken : Bool) (p : Progress) :
    (p.spend (b.toll node entry taken)).Advances
      (visit b scope entries node entry taken p).2 := by
  simp only [visit_eq, Branching.toll, ← Progress.spend_spend]
  cases b.decide node entry taken with
  | none => exact .refl _
  | some child => exact ih child _

/-- **Operations and bound never sink** in a search, and every search spends
at least one operation. -/
theorem explore_spends (b : Branching Entry Node) (scope : Scope) (entries : List Entry)
    (node : Node) (p : Progress) :
    (p.spend 1).Advances (explore b scope entries node p).2 := by
  induction entries generalizing node p with
  | nil => exact Progress.advances_evaluate _ _ _ _
  | cons entry entries ih =>
      cases h : (p.spend 1).turnsBack scope (b.fees node) (b.weight node) with
      | true =>
          rw [explore_turned_back h]
          exact .refl _
      | false =>
          have hvisit : ∀ taken (q : Progress), q.Advances
              (visit b scope entries node entry taken q).2 := fun taken q =>
            (q.advances_spend _).trans (visit_spends_of ih node entry taken q)
          rw [explore_visited h rfl rfl rfl]
          exact (Progress.advances_flip _).trans ((hvisit _ _).trans (hvisit _ _))

theorem visit_spends (b : Branching Entry Node) (scope : Scope) (entries : List Entry)
    (node : Node) (entry : Entry) (taken : Bool) (p : Progress) :
    (p.spend (b.toll node entry taken)).Advances
      (visit b scope entries node entry taken p).2 :=
  visit_spends_of (explore_spends b scope entries) node entry taken p

/-! ## Leaves -/

namespace Branching

/-- A leaf below a node: decisions on all entries that never lose the
majority, with the worth of the node they lead to. -/
def IsLeaf (b : Branching Entry Node) (scope : Scope) (entries : List Entry) (node : Node)
    (leaf : Leaf) : Prop :=
  ∃ last, b.follow node entries leaf.decisions = some last ∧
    leaf.worth = scope.worth (b.fees last) (b.weight last)

/-- A leaf beyond one decision on an entry. -/
def IsLeafBeyond (b : Branching Entry Node) (scope : Scope) (entries : List Entry)
    (node : Node) (entry : Entry) (taken : Bool) (leaf : Leaf) : Prop :=
  ∃ child, b.decide node entry taken = some child ∧ b.IsLeaf scope entries child leaf

theorem isLeaf_nil {b : Branching Entry Node} {scope : Scope} {node : Node} {leaf : Leaf} :
    b.IsLeaf scope [] node leaf ↔ leaf = ⟨[], scope.worth (b.fees node) (b.weight node)⟩ := by
  rcases leaf with ⟨decisions, worth⟩
  cases decisions <;> simp [IsLeaf, follow]

/-- Every leaf below an inner node lies beyond one of its two decisions. -/
theorem isLeaf_cons {b : Branching Entry Node} {scope : Scope} {entry : Entry}
    {entries : List Entry} {node : Node} {leaf : Leaf} :
    b.IsLeaf scope (entry :: entries) node leaf ↔
      ∃ taken below, b.IsLeafBeyond scope entries node entry taken below ∧
        leaf = below.decided taken := by
  constructor
  · intro hleaf
    obtain ⟨last, hfollow, hworth⟩ := hleaf
    rcases leaf with ⟨decisions, worth⟩
    cases decisions with
    | nil => simp [follow] at hfollow
    | cons taken decisions =>
        cases hdecide : b.decide node entry taken with
        | none => simp [follow, hdecide] at hfollow
        | some child =>
            exact ⟨taken, ⟨decisions, worth⟩, ⟨child, hdecide, last,
              by simpa [follow, hdecide] using hfollow, hworth⟩, rfl⟩
  · intro hbeyond
    obtain ⟨taken, below, ⟨child, hdecide, last, hfollow, hworth⟩, rfl⟩ := hbeyond
    exact ⟨last, by simpa [follow, hdecide, Leaf.decided] using hfollow, hworth⟩

/-! The same facts as equations between sets of leaves, for the contracts of a search,
which speak of the whole set. -/

theorem isLeaf_nil_eq (b : Branching Entry Node) (scope : Scope) (node : Node) :
    b.IsLeaf scope [] node =
      (· = (⟨[], scope.worth (b.fees node) (b.weight node)⟩ : Leaf)) := by
  funext leaf
  exact propext isLeaf_nil

theorem isLeaf_cons_eq (b : Branching Entry Node) (scope : Scope) (entry : Entry)
    (entries : List Entry) (node : Node) :
    b.IsLeaf scope (entry :: entries) node = fun leaf =>
      ∃ taken below, b.IsLeafBeyond scope entries node entry taken below ∧
        leaf = below.decided taken := by
  funext leaf
  exact propext isLeaf_cons

/-- Beyond a decision that can be taken lie the leaves of the node it leads to. -/
theorem isLeafBeyond_eq {b : Branching Entry Node} {node child : Node} {entry : Entry}
    {taken : Bool} (hdecide : b.decide node entry taken = some child) (scope : Scope)
    (entries : List Entry) :
    b.IsLeafBeyond scope entries node entry taken = b.IsLeaf scope entries child := by
  funext leaf
  simp [IsLeafBeyond, hdecide]

/-- Decisions only shrink what can still be had, at all nodes that meet an
invariant which decisions keep. -/
structure Shrinking (b : Branching Entry Node) (Sound : Node → Prop) : Prop where
  sound : ∀ {node entry taken child}, Sound node →
    b.decide node entry taken = some child → Sound child
  fees_le : ∀ {node entry taken child}, Sound node →
    b.decide node entry taken = some child → b.fees child ≤ b.fees node
  weight_le : ∀ {node entry taken child}, Sound node →
    b.decide node entry taken = some child → b.weight child ≤ b.weight node

/-- **The bound is sound.**  No leaf is worth more than a node above it. -/
theorem Shrinking.worth_le {b : Branching Entry Node} {Sound : Node → Prop}
    (hb : b.Shrinking Sound) {scope : Scope} {entries : List Entry} {node : Node}
    (hnode : Sound node) {leaf : Leaf} (hleaf : b.IsLeaf scope entries node leaf) :
    leaf.worth ≤ scope.worth (b.fees node) (b.weight node) := by
  induction entries generalizing node leaf with
  | nil =>
      rw [isLeaf_nil] at hleaf
      subst leaf
      exact le_refl _
  | cons entry entries ih =>
      obtain ⟨taken, below, ⟨child, hdecide, hbelow⟩, rfl⟩ := isLeaf_cons.mp hleaf
      have hchild : below.worth ≤ scope.worth (b.fees child) (b.weight child) :=
        ih (hb.sound hnode hdecide) hbelow
      exact le_trans hchild
        (Worth.of_mono (hb.fees_le hnode hdecide) (hb.weight_le hnode hdecide) _)

end Branching

/-! ## The contract of a search -/

/-- What a search among `leaves` owes to whoever started it with `p`. -/
structure Searched (scope : Scope) (leaves : Leaf → Prop) (p : Progress)
    (r : Option Leaf × Progress) : Prop where
  advances : p.Advances r.2
  overweight : r.2.overweight = none
  /-- What is found is a leaf, and it sets the bound. -/
  found : ∀ leaf, r.1 = some leaf → leaves leaf ∧ leaf.worth = r.2.bound
  /-- Nothing found leaves the bound alone. -/
  missed : r.1 = none → r.2.bound = p.bound
  /-- Within the budget, every leaf is below the old bound or something is
  found and the leaf does not exceed the new one. -/
  covered : r.2.operations < scope.budget → ∀ leaf, leaves leaf →
    leaf.worth < p.bound ∨ r.1.isSome ∧ leaf.worth ≤ r.2.bound

theorem better_isSome (without within : Option Leaf) :
    (better without within).isSome = (without.isSome || within.isSome) := by
  cases without <;> cases within <;> simp only [better]
  · rfl
  · rfl
  · rfl
  · split <;> rfl

theorem betterVisit_isSome (heads : Bool) (first second : Option Leaf) :
    (betterVisit heads first second).isSome = (first.isSome || second.isSome) := by
  cases heads
  · exact (better_isSome second first).trans (Bool.or_comm _ _)
  · exact better_isSome first second

/-- The better leaf is one of the two, and no worse than the other. -/
theorem better_eq_some {without within : Option Leaf} {leaf : Leaf}
    (h : better without within = some leaf) :
    (∃ below, without = some below ∧ leaf = below.decided false ∧
      ∀ other, within = some other → other.worth ≤ below.worth) ∨
    (∃ below, within = some below ∧ leaf = below.decided true ∧
      ∀ other, without = some other → other.worth < below.worth) := by
  cases without with
  | none =>
      cases within with
      | none => simp [better] at h
      | some y => exact Or.inr ⟨y, rfl, (Option.some.inj h).symm, by simp⟩
  | some x =>
      cases within with
      | none => exact Or.inl ⟨x, rfl, (Option.some.inj h).symm, by simp⟩
      | some y =>
          by_cases hlt : x.worth < y.worth
          · rw [better, if_pos hlt] at h
            exact Or.inr ⟨y, rfl, (Option.some.inj h).symm, by simpa using hlt⟩
          · rw [better, if_neg hlt] at h
            exact Or.inl ⟨x, rfl, (Option.some.inj h).symm, by simpa using hlt⟩

namespace Searched

variable {scope : Scope} {p q : Progress}

/-- A search owes no less to an earlier progress with the same bound. -/
theorem of_start {leaves : Leaf → Prop} {r : Option Leaf × Progress}
    (h : Searched scope leaves q r) (hops : p.operations ≤ q.operations)
    (hbound : q.bound = p.bound) : Searched scope leaves p r where
  advances := Progress.Advances.trans ⟨hops, le_of_eq hbound.symm⟩ h.advances
  overweight := h.overweight
  found := h.found
  missed hnone := (h.missed hnone).trans hbound
  covered hin leaf hleaf := hbound ▸ h.covered hin leaf hleaf

/-- A search that visits one decision and then the other, and keeps the
better leaf, has searched both.  The bound is carried from the first visit
to the second: what the second one leaves out is below a leaf that the first
one found, or below the old bound. -/
theorem join {beyond : Bool → Leaf → Prop} {heads : Bool}
    {first second : Option Leaf × Progress}
    (h₁ : Searched scope (beyond (!heads)) p first)
    (h₂ : Searched scope (beyond heads) first.2 second) :
    Searched scope (fun leaf => ∃ taken below, beyond taken below ∧ leaf = below.decided taken) p
      (betterVisit heads first.1 second.1, second.2) := by
  have hraised : ∀ leaf, first.1 = some leaf → leaf.worth ≤ second.2.bound := by
    intro leaf hleaf
    rw [(h₁.found leaf hleaf).2]
    exact h₂.advances.bound_le
  have hkept : second.1 = none → ∀ leaf, first.1 = some leaf → leaf.worth = second.2.bound := by
    intro hnone leaf hleaf
    rw [h₂.missed hnone, (h₁.found leaf hleaf).2]
  refine ⟨h₁.advances.trans h₂.advances, h₂.overweight, ?_, ?_, ?_⟩
  · intro leaf hleaf
    cases heads with
    | true =>
        rcases better_eq_some hleaf with ⟨below, hx, rfl, hother⟩ | ⟨below, hy, rfl, hother⟩
        · refine ⟨⟨false, below, (h₁.found below hx).1, rfl⟩, ?_⟩
          cases hsecond : second.1 with
          | none => exact hkept hsecond below hx
          | some y =>
              have hle : y.worth ≤ below.worth := hother y hsecond
              rw [(h₂.found y hsecond).2] at hle
              exact le_antisymm (hraised below hx) hle
        · exact ⟨⟨true, below, (h₂.found below hy).1, rfl⟩, (h₂.found below hy).2⟩
    | false =>
        rcases better_eq_some hleaf with ⟨below, hx, rfl, hother⟩ | ⟨below, hy, rfl, hother⟩
        · exact ⟨⟨false, below, (h₂.found below hx).1, rfl⟩, (h₂.found below hx).2⟩
        · refine ⟨⟨true, below, (h₁.found below hy).1, rfl⟩, ?_⟩
          cases hsecond : second.1 with
          | none => exact hkept hsecond below hy
          | some x =>
              have hlt : x.worth < below.worth := hother x hsecond
              rw [(h₂.found x hsecond).2] at hlt
              exact absurd (hraised below hy) (not_le.mpr hlt)
  · intro hnone
    have hboth : (first.1.isSome || second.1.isSome) = false := by
      rw [← betterVisit_isSome heads, Option.isSome_eq_false_iff, Option.isNone_iff_eq_none]
      exact hnone
    simp only [Bool.or_eq_false_iff, Option.isSome_eq_false_iff, Option.isNone_iff_eq_none]
      at hboth
    rw [h₂.missed hboth.2, h₁.missed hboth.1]
  · intro hin leaf hleaf
    obtain ⟨taken, below, hbelow, rfl⟩ := hleaf
    have hin₁ : first.2.operations < scope.budget :=
      Nat.lt_of_le_of_lt h₂.advances.operations_le hin
    rw [betterVisit_isSome]
    change below.worth < p.bound ∨ _ ∧ below.worth ≤ second.2.bound
    by_cases htaken : taken = heads
    · subst taken
      rcases h₂.covered hin below hbelow with hlt | ⟨hfound, hle⟩
      · cases hfirst : first.1 with
        | none => exact Or.inl (h₁.missed hfirst ▸ hlt)
        | some x => exact Or.inr ⟨rfl, le_of_lt (lt_of_lt_of_le hlt h₂.advances.bound_le)⟩
      · exact Or.inr ⟨by simp [hfound], hle⟩
    · have : taken = !heads := by cases taken <;> cases heads <;> simp_all
      subst taken
      rcases h₁.covered hin₁ below hbelow with hlt | ⟨hfound, hle⟩
      · exact Or.inl hlt
      · exact Or.inr ⟨by simp [hfound], le_trans hle h₂.advances.bound_le⟩

end Searched

/-- A single leaf is searched by evaluating it. -/
theorem Progress.evaluate_searched {p : Progress} {scope : Scope} (fees : Nat) {weight : Nat}
    (hweight : weight ≤ scope.total) (hp : p.overweight = none) :
    Searched scope (· = ⟨[], scope.worth fees weight⟩) p (p.evaluate scope fees weight) := by
  have hlight : ¬ scope.total < weight := Nat.not_lt.mpr hweight
  by_cases hlt : scope.worth fees weight < p.bound
  · rw [evaluate, if_neg hlight, if_pos hlt]
    refine ⟨.refl p, hp, by simp, fun _ => rfl, ?_⟩
    intro _ leaf hleaf
    rw [hleaf]
    exact Or.inl hlt
  · rw [evaluate, if_neg hlight, if_neg hlt]
    refine ⟨⟨Nat.le_refl _, not_lt.mp hlt⟩, hp, ?_, by simp, ?_⟩
    · intro leaf hleaf
      obtain rfl := Option.some.inj hleaf
      exact ⟨rfl, rfl⟩
    · intro _ leaf hleaf
      rw [hleaf]
      exact Or.inr ⟨rfl, le_refl _⟩

/-- A visit meets its contract if every search behind it does. -/
theorem visit_searched_of {b : Branching Entry Node} {Sound : Node → Prop}
    (hb : b.Shrinking Sound) {scope : Scope} {entries : List Entry} {node : Node}
    (hnode : Sound node) (hweight : b.weight node ≤ scope.total)
    (ih : ∀ {child : Node} {p : Progress}, Sound child → b.weight child ≤ scope.total →
      p.overweight = none →
      Searched scope (b.IsLeaf scope entries child) p (explore b scope entries child p))
    {entry : Entry} {taken : Bool} {p : Progress} (hp : p.overweight = none) :
    Searched scope (b.IsLeafBeyond scope entries node entry taken) p
      (visit b scope entries node entry taken p) := by
  rw [visit_eq]
  refine Searched.of_start (q := p.spend (if taken then b.charge node else 0)) ?_
    (p.advances_spend _).operations_le rfl
  cases hdecide : b.decide node entry taken with
  | none =>
      refine ⟨.refl _, hp, by simp, fun _ => rfl, ?_⟩
      intro _ leaf hleaf
      obtain ⟨child, hchild, -⟩ := hleaf
      simp [hdecide] at hchild
  | some child =>
      rw [Branching.isLeafBeyond_eq hdecide]
      exact ih (hb.sound hnode hdecide)
        (Nat.le_trans (hb.weight_le hnode hdecide) hweight) hp

/-- **Every search meets its contract**, from any progress and with any
budget: the induction is on the entries left to decide, and soundness of the
bound carries the nodes that turn back. -/
theorem explore_searched {b : Branching Entry Node} {Sound : Node → Prop}
    (hb : b.Shrinking Sound) {scope : Scope} {entries : List Entry} {node : Node}
    {p : Progress} (hnode : Sound node) (hweight : b.weight node ≤ scope.total)
    (hp : p.overweight = none) :
    Searched scope (b.IsLeaf scope entries node) p (explore b scope entries node p) := by
  induction entries generalizing node p with
  | nil =>
      have h := (p.spend 1).evaluate_searched (b.fees node) hweight hp
      rw [Branching.isLeaf_nil_eq]
      exact h.of_start (p.advances_spend 1).operations_le rfl
  | cons entry entries ih =>
      cases hback : (p.spend 1).turnsBack scope (b.fees node) (b.weight node) with
      | true =>
          rw [explore_turned_back hback]
          refine ⟨p.advances_spend 1, hp, by simp, fun _ => rfl, ?_⟩
          intro hin leaf hleaf
          have hlow : scope.worth (b.fees node) (b.weight node) < p.bound := by
            have hspent : p.operations + 1 < scope.budget := hin
            rcases Progress.turnsBack_iff.mp hback with hheavy | hbudget | hlow
            · simp [hp] at hheavy
            · exact absurd hspent (Nat.not_lt.mpr hbudget)
            · exact hlow
          exact Or.inl (lt_of_le_of_lt (hb.worth_le hnode hleaf) hlow)
      | false =>
          have hvisit : ∀ taken (q : Progress), q.overweight = none →
              Searched scope (b.IsLeafBeyond scope entries node entry taken) q
                (visit b scope entries node entry taken q) := fun taken q hq =>
            visit_searched_of hb hnode hweight (fun hchild hlight hp => ih hchild hlight hp) hq
          rw [explore_visited hback rfl rfl rfl]
          have hfirst := hvisit (!(p.spend 1).flip.1) (p.spend 1).flip.2 hp
          have hsecond := hvisit (p.spend 1).flip.1 _ hfirst.overweight
          rw [Branching.isLeaf_cons_eq]
          exact (hfirst.join hsecond).of_start (p.advances_spend 1).operations_le rfl

end BallotConsensus
