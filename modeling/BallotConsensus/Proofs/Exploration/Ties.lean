import Mathlib.Data.Bool.Basic
import Mathlib.Data.List.Lex
import BallotConsensus.Proofs.Exploration

/-!
# Which of the best leaves a search finds

Many leaves can be worth the same.  The coins decide which of them is met
first, and a leaf that is met later replaces the earlier one; still, the coins
do not decide which one is found in the end.  A search that ends within its
budget finds the **first** of the best leaves: the one whose decisions come
first in the lexicographic order, a decision against an entry before a
decision for it.

Three conventions of the search play together here.  A node is only left out
if it is worth strictly less than the bound, a leaf counts if it reaches the
bound, and of two equally good leaves below a node the one without the entry
wins.

* `Leaf.First` — the first of the best among some leaves;
* `Leaf.First.of_better` — keeping the better of two visits finds it, if both
  visits do and what they miss is worth less;
* `explore_first` — **every search that ends within its budget finds it**.
-/

namespace BallotConsensus

variable {Entry Node : Type}

/-- **The first of the best** among some leaves. -/
structure Leaf.First (leaves : Leaf → Prop) (leaf : Leaf) : Prop where
  mem : leaves leaf
  worth_le : ∀ other, leaves other → other.worth ≤ leaf.worth
  /-- Of the leaves that are worth as much, it decides against an entry where
  another one first decides differently. -/
  decisions_le : ∀ other, leaves other → other.worth = leaf.worth →
    leaf.decisions ≤ other.decisions

/-- Deciding against the next entry comes before deciding for it. -/
theorem against_le_for (without within : List Bool) : false :: without ≤ true :: within :=
  le_of_lt (List.Lex.rel (by decide))

variable {beyond : Bool → Leaf → Prop} {scope : Scope} {p : Progress}

/-- **The better of two first leaves is the first of all**, if whatever was
found on neither side is worth less. -/
theorem Leaf.First.of_better {without within : Option Leaf} {leaf : Leaf}
    (hbetter : better without within = some leaf)
    (hwithout : ∀ x, without = some x → Leaf.First (beyond false) x)
    (hwithin : ∀ y, within = some y → Leaf.First (beyond true) y)
    (hmissed : ∀ taken, (if taken then within else without) = none →
      ∀ below, beyond taken below → below.worth < leaf.worth) :
    Leaf.First (fun leaf => ∃ taken below, beyond taken below ∧ leaf = below.decided taken)
      leaf := by
  rcases better_eq_some hbetter with ⟨x, hx, rfl, hother⟩ | ⟨y, hy, rfl, hother⟩
  · -- Without the entry: nothing beyond it is worth more.
    have hfirst := hwithout x hx
    have hbeyond : ∀ below, beyond true below → below.worth ≤ x.worth := by
      intro below hbelow
      cases hy : within with
      | none => exact le_of_lt (hmissed true hy below hbelow)
      | some y => exact le_trans ((hwithin y hy).worth_le below hbelow) (hother y hy)
    refine ⟨⟨false, x, hfirst.mem, rfl⟩, ?_, ?_⟩
    · intro other hleaf
      obtain ⟨taken, below, hbelow, rfl⟩ := hleaf
      cases taken with
      | false => exact hfirst.worth_le below hbelow
      | true => exact hbeyond below hbelow
    · intro other hleaf hworth
      obtain ⟨taken, below, hbelow, rfl⟩ := hleaf
      cases taken with
      | false => exact List.cons_le_cons false (hfirst.decisions_le below hbelow hworth)
      | true => exact against_le_for x.decisions below.decisions
  · -- With the entry: everything on the other side is worth less.
    have hfirst := hwithin y hy
    have hbeyond : ∀ below, beyond false below → below.worth < y.worth := by
      intro below hbelow
      cases hx : without with
      | none => exact hmissed false hx below hbelow
      | some x => exact lt_of_le_of_lt ((hwithout x hx).worth_le below hbelow) (hother x hx)
    refine ⟨⟨true, y, hfirst.mem, rfl⟩, ?_, ?_⟩
    · intro other hleaf
      obtain ⟨taken, below, hbelow, rfl⟩ := hleaf
      cases taken with
      | false => exact le_of_lt (hbeyond below hbelow)
      | true => exact hfirst.worth_le below hbelow
    · intro other hleaf hworth
      obtain ⟨taken, below, hbelow, rfl⟩ := hleaf
      cases taken with
      | false => exact absurd hworth (ne_of_lt (hbeyond below hbelow))
      | true => exact List.cons_le_cons true (hfirst.decisions_le below hbelow hworth)

/-- What a search within its budget does not find is below the bound that it
started from. -/
theorem Searched.worth_lt_of_none {leaves : Leaf → Prop} {r : Option Leaf × Progress}
    (h : Searched scope leaves p r) (hin : r.2.operations < scope.budget) (hnone : r.1 = none)
    {leaf : Leaf} (hleaf : leaves leaf) : leaf.worth < p.bound := by
  rcases h.covered hin leaf hleaf with hlow | ⟨hfound, -⟩
  · exact hlow
  · simp [hnone] at hfound

/-- Visiting one decision and then the other finds the first of the best
leaves, on either side of the coin, if both visits do. -/
theorem Searched.join_first {heads : Bool} {first second : Option Leaf × Progress}
    (h₁ : Searched scope (beyond (!heads)) p first)
    (h₂ : Searched scope (beyond heads) first.2 second)
    (hfirst : ∀ leaf, first.1 = some leaf → Leaf.First (beyond (!heads)) leaf)
    (hsecond : ∀ leaf, second.1 = some leaf → Leaf.First (beyond heads) leaf)
    (hin : second.2.operations < scope.budget) {leaf : Leaf}
    (hleaf : betterVisit heads first.1 second.1 = some leaf) :
    Leaf.First (fun leaf => ∃ taken below, beyond taken below ∧ leaf = below.decided taken)
      leaf := by
  have hin₁ : first.2.operations < scope.budget :=
    Nat.lt_of_le_of_lt h₂.advances.operations_le hin
  have hbound : leaf.worth = second.2.bound := ((h₁.join h₂).found leaf hleaf).2
  have hmissed₁ : first.1 = none → ∀ below, beyond (!heads) below → below.worth < leaf.worth := by
    intro hnone below hbelow
    rw [hbound]
    exact lt_of_lt_of_le (h₁.worth_lt_of_none hin₁ hnone hbelow)
      (h₁.advances.trans h₂.advances).bound_le
  have hmissed₂ : second.1 = none → ∀ below, beyond heads below → below.worth < leaf.worth := by
    intro hnone below hbelow
    rw [hbound]
    exact lt_of_lt_of_le (h₂.worth_lt_of_none hin hnone hbelow) h₂.advances.bound_le
  cases heads with
  | true =>
      refine Leaf.First.of_better hleaf hfirst hsecond ?_
      intro taken
      cases taken with
      | false => exact hmissed₁
      | true => exact hmissed₂
  | false =>
      refine Leaf.First.of_better hleaf hsecond hfirst ?_
      intro taken
      cases taken with
      | false => exact hmissed₂
      | true => exact hmissed₁

/-- **A search that ends within its budget finds the first of the best
leaves**, whatever the coins and the bound it starts from.  The induction is on
the entries left to decide. -/
theorem explore_first {b : Branching Entry Node} {Sound : Node → Prop} (hb : b.Shrinking Sound)
    {entries : List Entry} {node : Node} {p : Progress} (hnode : Sound node)
    (hweight : b.weight node ≤ scope.total) (hp : p.overweight = none)
    (hin : (explore b scope entries node p).2.operations < scope.budget) {leaf : Leaf}
    (hleaf : (explore b scope entries node p).1 = some leaf) :
    Leaf.First (b.IsLeaf scope entries node) leaf := by
  induction entries generalizing node p leaf with
  | nil =>
      have hmem := ((explore_searched hb hnode hweight hp).found leaf hleaf).1
      refine ⟨hmem, ?_, ?_⟩
      · intro other hother
        rw [Branching.isLeaf_nil.mp hother, Branching.isLeaf_nil.mp hmem]
      · intro other hother _
        rw [Branching.isLeaf_nil.mp hother, Branching.isLeaf_nil.mp hmem]
  | cons entry entries ih =>
      cases hback : (p.spend 1).turnsBack scope (b.fees node) (b.weight node) with
      | true =>
          rw [explore_turned_back hback] at hleaf
          simp at hleaf
      | false =>
          have hsearched : ∀ taken (q : Progress), q.overweight = none →
              Searched scope (b.IsLeafBeyond scope entries node entry taken) q
                (visit b scope entries node entry taken q) := fun taken q hq =>
            visit_searched_of hb hnode hweight (fun hchild hlight hp =>
              explore_searched hb hchild hlight hp) hq
          have hvisit : ∀ taken (q : Progress), q.overweight = none →
              (visit b scope entries node entry taken q).2.operations < scope.budget →
              ∀ leaf, (visit b scope entries node entry taken q).1 = some leaf →
              Leaf.First (b.IsLeafBeyond scope entries node entry taken) leaf := by
            intro taken q hq hspent leaf hfound
            rw [visit_eq] at hspent hfound
            cases hdecide : b.decide node entry taken with
            | none => simp [hdecide] at hfound
            | some child =>
                simp only [hdecide] at hspent hfound
                have hlight := Nat.le_trans (hb.weight_le hnode hdecide) hweight
                rw [Branching.isLeafBeyond_eq hdecide]
                exact ih (p := q.spend _) (hb.sound hnode hdecide) hlight hq hspent hfound
          rw [explore_visited hback rfl rfl rfl] at hin hleaf
          have h₁ := hsearched (!(p.spend 1).flip.1) (p.spend 1).flip.2 hp
          have h₂ := hsearched (p.spend 1).flip.1 _ h₁.overweight
          have hin₁ := Nat.lt_of_le_of_lt h₂.advances.operations_le hin
          rw [Branching.isLeaf_cons_eq]
          exact h₁.join_first h₂ (hvisit _ _ hp hin₁) (hvisit _ _ h₁.overweight hin) hin hleaf

end BallotConsensus
