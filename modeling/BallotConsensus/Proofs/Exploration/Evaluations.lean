import BallotConsensus.Proofs.Exploration

/-!
# The leaves that a search evaluates

A search comes to far fewer leaves than there are: it turns back before most of
them, because they are worth too little or because its budget is spent.  The
leaves that it does come to are evaluated one after the other, each against the
bound that is in force by then, and what a search ends with is accounted for by
them alone.  Its bound is the greatest of the worths that it has seen, the one
that it started from included; and it finds something iff some leaf reached the
bound that it was evaluated against.

This holds for every branching whose decisions only shrink what can still be had,
whatever the budget, the coin flips and the bound to start from, and however
early the budget is spent.

* `evaluations` — the leaves that a search evaluates, in order;
* `Recorded` — a search next to what it has evaluated, and `Recorded.join`: one
  visit after the other;
* `explore_recorded` — **every search is accounted for by its evaluations.**
-/

namespace BallotConsensus

/-- The evaluation of a leaf. -/
structure Evaluation where
  worth : Worth
  /-- The bound in force when the leaf is evaluated. -/
  bound : Worth
deriving DecidableEq, Repr

variable {Entry Node : Type}

/-- **The leaves that a search evaluates** below a node, in order.  The second
visit starts from the progress that the search has made in the first one. -/
def evaluations (b : Branching Entry Node) (scope : Scope) :
    List Entry → Node → Progress → List Evaluation
  | [], node, p => [⟨scope.worth (b.fees node) (b.weight node), p.bound⟩]
  | entry :: entries, node, p =>
    if (p.spend 1).turnsBack scope (b.fees node) (b.weight node) then []
    else
      let beyond (taken : Bool) (p : Progress) : List Evaluation :=
        match b.decide node entry taken with
        | some child =>
          evaluations b scope entries child (p.spend (if taken then b.charge node else 0))
        | none => []
      let (heads, p) := (p.spend 1).flip
      beyond (!heads) p ++ beyond heads (visit b scope entries node entry (!heads) p).2

/-- The leaves that are evaluated beyond one decision. -/
def visitEvaluations (b : Branching Entry Node) (scope : Scope) (entries : List Entry)
    (node : Node) (entry : Entry) (taken : Bool) (p : Progress) : List Evaluation :=
  match b.decide node entry taken with
  | some child =>
    evaluations b scope entries child (p.spend (if taken then b.charge node else 0))
  | none => []

section Equations

variable {b : Branching Entry Node} {scope : Scope} {entry : Entry} {entries : List Entry}
  {node : Node} {p : Progress}

theorem evaluations_turned_back
    (h : (p.spend 1).turnsBack scope (b.fees node) (b.weight node) = true) :
    evaluations b scope (entry :: entries) node p = [] := by
  simp [evaluations, h]

theorem evaluations_visited
    (h : (p.spend 1).turnsBack scope (b.fees node) (b.weight node) = false) :
    evaluations b scope (entry :: entries) node p =
      visitEvaluations b scope entries node entry (!(p.spend 1).flip.1) (p.spend 1).flip.2 ++
        visitEvaluations b scope entries node entry (p.spend 1).flip.1
          (visit b scope entries node entry (!(p.spend 1).flip.1) (p.spend 1).flip.2).2 := by
  simp only [evaluations, h, Bool.false_eq_true, if_false]
  rfl

end Equations

/-! ## What a search ends with -/

/-- A search that started with `p`, next to the leaves that it has evaluated. -/
structure Recorded (p : Progress) (result : Option Leaf × Progress) (log : List Evaluation) :
    Prop where
  /-- Something is found iff some leaf reached the bound it was evaluated
  against. -/
  found_iff : result.1.isSome = true ↔ ∃ e ∈ log, e.bound ≤ e.worth
  bound_le : p.bound ≤ result.2.bound
  start_le : ∀ e ∈ log, p.bound ≤ e.bound
  worth_le : ∀ e ∈ log, e.worth ≤ result.2.bound
  /-- The bound is the old one or the worth of a leaf. -/
  reached : result.2.bound = p.bound ∨ ∃ e ∈ log, e.worth = result.2.bound

namespace Recorded

variable {p q : Progress}

/-- Where nothing is evaluated, nothing is found and the bound stays. -/
theorem idle (hbound : q.bound = p.bound) : Recorded p (none, q) [] where
  found_iff := by simp
  bound_le := le_of_eq hbound.symm
  start_le := by simp
  worth_le := by simp
  reached := Or.inl hbound

/-- Only the bound matters of what a search starts with. -/
theorem of_start {result : Option Leaf × Progress} {log : List Evaluation}
    (h : Recorded q result log) (hbound : q.bound = p.bound) : Recorded p result log where
  found_iff := h.found_iff
  bound_le := hbound ▸ h.bound_le
  start_le := hbound ▸ h.start_le
  worth_le := h.worth_le
  reached := hbound ▸ h.reached

/-- **One visit after the other**: the second one starts from the bound that the
first one ended with. -/
theorem join {heads : Bool} {first second : Option Leaf × Progress}
    {earlier later : List Evaluation} (h₁ : Recorded p first earlier)
    (h₂ : Recorded first.2 second later) :
    Recorded p (betterVisit heads first.1 second.1, second.2) (earlier ++ later) where
  found_iff := by
    rw [betterVisit_isSome, Bool.or_eq_true, h₁.found_iff, h₂.found_iff]
    simp only [List.mem_append, or_and_right, exists_or]
  bound_le := le_trans h₁.bound_le h₂.bound_le
  start_le e he := by
    rcases List.mem_append.mp he with hearlier | hlater
    · exact h₁.start_le e hearlier
    · exact le_trans h₁.bound_le (h₂.start_le e hlater)
  worth_le e he := by
    rcases List.mem_append.mp he with hearlier | hlater
    · exact le_trans (h₁.worth_le e hearlier) h₂.bound_le
    · exact h₂.worth_le e hlater
  reached := by
    rcases h₂.reached with hsame | ⟨e, hlater, hworth⟩
    · rcases h₁.reached with hold | ⟨e, hearlier, hworth⟩
      · exact Or.inl (hsame.trans hold)
      · exact Or.inr ⟨e, List.mem_append_left _ hearlier, hworth.trans hsame.symm⟩
    · exact Or.inr ⟨e, List.mem_append_right _ hlater, hworth⟩

/-- If something is found, some leaf was worth the bound that the search ends
with. -/
theorem exists_worth_eq {result : Option Leaf × Progress} {log : List Evaluation}
    (h : Recorded p result log) (hfound : result.1.isSome = true) :
    ∃ e ∈ log, e.worth = result.2.bound := by
  rcases h.reached with hsame | hreached
  · -- The bound was not raised, so the leaf that reached it was worth no more.
    obtain ⟨e, he, hreaches⟩ := h.found_iff.mp hfound
    refine ⟨e, he, le_antisymm (h.worth_le e he) ?_⟩
    rw [hsame]
    exact le_trans (h.start_le e he) hreaches
  · exact hreached

end Recorded

/-- A single leaf is accounted for by its evaluation. -/
theorem Progress.evaluate_recorded {p : Progress} {scope : Scope} (fees : Nat) {weight : Nat}
    (hweight : weight ≤ scope.total) :
    Recorded p (p.evaluate scope fees weight) [⟨scope.worth fees weight, p.bound⟩] := by
  by_cases hlt : scope.worth fees weight < p.bound
  · rw [evaluate, if_neg (Nat.not_lt.mpr hweight), if_pos hlt]
    exact ⟨by simpa using hlt, le_refl _, by simp, by simpa using le_of_lt hlt, Or.inl rfl⟩
  · rw [evaluate, if_neg (Nat.not_lt.mpr hweight), if_neg hlt]
    exact ⟨by simpa using hlt, not_lt.mp hlt, by simp, by simp, Or.inr (by simp)⟩

/-- **Every search is accounted for by its evaluations.**  The induction is on the
entries left to decide; the weight of a node stays within the total weight on the
way down, so that no leaf is refused for its weight. -/
theorem explore_recorded {b : Branching Entry Node} {Sound : Node → Prop} (hb : b.Shrinking Sound)
    {scope : Scope} {entries : List Entry} {node : Node} {p : Progress} (hnode : Sound node)
    (hweight : b.weight node ≤ scope.total) :
    Recorded p (explore b scope entries node p) (evaluations b scope entries node p) := by
  induction entries generalizing node p with
  | nil =>
      have h := (p.spend 1).evaluate_recorded (b.fees node) hweight
      exact h.of_start rfl
  | cons entry entries ih =>
      cases hback : (p.spend 1).turnsBack scope (b.fees node) (b.weight node) with
      | true =>
          rw [explore_turned_back hback, evaluations_turned_back hback]
          exact .idle rfl
      | false =>
          have hvisit : ∀ taken (q : Progress),
              Recorded q (visit b scope entries node entry taken q)
                (visitEvaluations b scope entries node entry taken q) := by
            intro taken q
            rw [visit_eq, visitEvaluations]
            cases hdecide : b.decide node entry taken with
            | none => exact .idle rfl
            | some child =>
                have hchild := Nat.le_trans (hb.weight_le hnode hdecide) hweight
                exact (ih (hb.sound hnode hdecide) hchild).of_start rfl
          rw [explore_visited hback rfl rfl rfl, evaluations_visited hback]
          have hfirst := hvisit (!(p.spend 1).flip.1) (p.spend 1).flip.2
          exact (hfirst.join (hvisit (p.spend 1).flip.1 _)).of_start rfl

end BallotConsensus
