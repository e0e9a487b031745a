import BallotConsensus.Proofs.Exploration

/-!
# Searches with different budgets

Two searches that differ in their budgets alone see the same coins and take
the same steps until the smaller budget is spent at an inner node.  From then
on the search with the smaller budget turns back wherever it goes: it never
reaches another leaf, because a leaf is only reached from a node that did not
turn back.  So what it has found by then, the other search finds as well.

* `Behind` — where a search stands that was cut short, next to one that was
  not;
* `explore_budget` — **more budget is no worse**: the two searches end alike,
  or the one with the smaller budget stays behind.
-/

namespace BallotConsensus

variable {Entry Node : Type}

/-- A search cut short by its budget, next to one that went on: it has spent
no more, its bound is no higher, and it found nothing that the other one did
not. -/
structure Behind (budget : Nat) (short long : Option Leaf × Progress) : Prop where
  spent : budget ≤ short.2.operations
  operations_le : short.2.operations ≤ long.2.operations
  bound_le : short.2.bound ≤ long.2.bound
  found : short.1.isSome = true → long.1.isSome = true

variable {b : Branching Entry Node} {scope : Scope} {entries : List Entry} {node : Node}
  {entry : Entry} {taken : Bool} {p : Progress}

/-- Once the budget is spent, visiting a decision costs its toll and finds
nothing, unless leaves lie right behind it. -/
theorem visit_spent (hentries : entries ≠ []) (hspent : scope.budget ≤ p.operations) :
    visit b scope entries node entry taken p = (none, p.spend (b.toll node entry taken)) := by
  simp only [visit_eq, Branching.toll, ← Progress.spend_spend]
  cases hdecide : b.decide node entry taken with
  | none => rfl
  | some child =>
      obtain ⟨next, rest, rfl⟩ := List.exists_cons_of_ne_nil hentries
      apply explore_turned_back
      rw [Progress.turnsBack_iff]
      refine Or.inr (Or.inl ?_)
      simp only [Progress.spend_operations]
      omega

/-- **More budget is no worse.**  Of two searches that start alike, the one
with the smaller budget ends like the other one or stays behind it; at a leaf
the two never differ. -/
theorem explore_budget {short long : Nat} (hbudget : short ≤ long) (total : Nat)
    (entries : List Entry) (node : Node) (p : Progress) :
    explore b ⟨short, total⟩ entries node p = explore b ⟨long, total⟩ entries node p ∨
      entries ≠ [] ∧ Behind short (explore b ⟨short, total⟩ entries node p)
        (explore b ⟨long, total⟩ entries node p) := by
  induction entries generalizing node p with
  | nil => exact Or.inl rfl
  | cons entry entries ih =>
      cases hlong : (p.spend 1).turnsBack ⟨long, total⟩ (b.fees node) (b.weight node) with
      | true =>
          have hshort :
              (p.spend 1).turnsBack ⟨short, total⟩ (b.fees node) (b.weight node) = true := by
            rw [Progress.turnsBack_iff] at hlong ⊢
            exact hlong.imp_right (Or.imp_left (Nat.le_trans hbudget))
          exact Or.inl (by rw [explore_turned_back hshort, explore_turned_back hlong])
      | false =>
          cases hshort : (p.spend 1).turnsBack ⟨short, total⟩ (b.fees node) (b.weight node) with
          | true =>
              have hon := explore_spends b ⟨long, total⟩ (entry :: entries) node p
              have hspent : short ≤ (p.spend 1).operations := by
                have hneither := mt Progress.turnsBack_iff.mpr (Bool.not_eq_true _ ▸ hlong)
                rcases Progress.turnsBack_iff.mp hshort with hheavy | hspent | hlow
                · exact absurd (Or.inl hheavy) hneither
                · exact hspent
                · exact absurd (Or.inr (Or.inr hlow)) hneither
              rw [explore_turned_back hshort]
              exact Or.inr ⟨by simp, hspent, hon.operations_le, hon.bound_le, by simp⟩
          | false =>
              have hvisit : ∀ taken q,
                  visit b ⟨short, total⟩ entries node entry taken q =
                    visit b ⟨long, total⟩ entries node entry taken q ∨
                  entries ≠ [] ∧ Behind short (visit b ⟨short, total⟩ entries node entry taken q)
                    (visit b ⟨long, total⟩ entries node entry taken q) := by
                intro taken q
                simp only [visit]
                cases b.decide node entry taken with
                | none => exact Or.inl rfl
                | some child => exact ih child _
              rcases hflip : (p.spend 1).flip with ⟨heads, q⟩
              rw [explore_visited hlong hflip rfl rfl]
              rcases hvisit (!heads) q with hfirst | ⟨hentries, hfirst⟩
              · rw [explore_visited hshort hflip hfirst rfl]
                generalize visit b ⟨long, total⟩ entries node entry (!heads) q = first
                rcases hvisit heads first.2 with hsecond | ⟨-, hsecond⟩
                · exact Or.inl (by rw [hsecond])
                · refine Or.inr ⟨by simp, hsecond.spent, hsecond.operations_le,
                    hsecond.bound_le, ?_⟩
                  simp only [betterVisit_isSome, Bool.or_eq_true]
                  exact Or.imp_right hsecond.found
              · -- The first visit was cut short, so the second one finds nothing.
                have hcut : visit b ⟨short, total⟩ entries node entry heads _ = _ :=
                  visit_spent hentries hfirst.spent
                have hon := visit_spends b ⟨long, total⟩ entries node entry heads
                  (visit b ⟨long, total⟩ entries node entry (!heads) q).2
                rw [explore_visited hshort hflip rfl hcut]
                refine Or.inr ⟨by simp, ?_, ?_, le_trans hfirst.bound_le hon.bound_le, ?_⟩
                · exact Nat.le_trans hfirst.spent (Nat.le_add_right _ _)
                · exact Nat.le_trans (Nat.add_le_add_right hfirst.operations_le _)
                    hon.operations_le
                · simp only [betterVisit_isSome, Option.isSome_none, Bool.or_false,
                    Bool.or_eq_true]
                  exact fun h => Or.inl (hfirst.found h)

end BallotConsensus
