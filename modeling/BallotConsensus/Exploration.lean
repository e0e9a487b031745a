import BallotConsensus.Random.Draws
import BallotConsensus.Reduction

/-!
# Exploring decisions within a budget

A search decides one open entry after the other, each time for or against
it.  The nodes of the resulting tree carry the weight and the fees that can
still be had; both only shrink on the way down, so the worth of a node
bounds the worth of every leaf below it.  The search therefore turns back
where that worth is below the best leaf found so far, and it turns back
everywhere once its **budget** of operations is spent.

Which of the two decisions is explored first is decided by a coin; where
both lead to the same worth, the decision against the entry wins.

What an entry is and what deciding it does to a node is left open here: a
`Branching` says it.

* `Branching.follow` — the node that a list of decisions leads to;
* `explore` — the search below a node;
* `Progress` — what it carries along: the best worth, the operations spent,
  the draws left.
-/

namespace BallotConsensus

/-- How one decision changes a partial choice. -/
structure Branching (Entry Node : Type) where
  /-- Fees that can still be had. -/
  fees : Node → Nat
  /-- Weight that can still be had. -/
  weight : Node → Nat
  /-- The node after deciding for (`true`) or against (`false`) an entry;
  `none` if no majority is left after it. -/
  decide : Node → Entry → Bool → Option Node
  /-- Operations that deciding for an entry costs. -/
  charge : Node → Nat

/-- The node that a list of decisions, one per entry, leads to. -/
def Branching.follow {Entry Node : Type} (b : Branching Entry Node) :
    Node → List Entry → List Bool → Option Node
  | node, [], [] => some node
  | node, entry :: entries, taken :: decisions =>
    match b.decide node entry taken with
    | some child => b.follow child entries decisions
    | none => none
  | _, _, _ => none

/-- A complete choice: one decision per entry, and its worth. -/
structure Leaf where
  decisions : List Bool
  worth : Worth
deriving DecidableEq, Repr

/-- What a search may spend and how it measures worth. -/
structure Scope where
  /-- Operations that may be spent. -/
  budget : Nat
  /-- Total weight of the round. -/
  total : Nat

/-- The worth of fees and weight within a scope. -/
def Scope.worth (scope : Scope) (fees weight : Nat) : Worth := Worth.of fees weight scope.total

/-- What a search carries along. -/
structure Progress where
  /-- The worth that leaves have to reach: the best one found so far. -/
  bound : Worth
  /-- Operations spent so far. -/
  operations : Nat
  draws : Draws
  /-- Weight of a coalition that was found to outweigh everybody together.
  This never happens in a round that meets its contract. -/
  overweight : Option Nat

namespace Progress

/-- Spends some operations. -/
def spend (p : Progress) (operations : Nat) : Progress :=
  { p with operations := p.operations + operations }

/-- Flips a coin. -/
def flip (p : Progress) : Bool × Progress :=
  let (heads, draws) := p.draws.flip
  (heads, { p with draws })

/-- Whether to turn back at a node: the budget is spent, or the worth of the
node is below the bound. -/
def turnsBack (p : Progress) (scope : Scope) (fees weight : Nat) : Bool :=
  p.overweight.isSome || decide (scope.budget ≤ p.operations)
    || decide (scope.worth fees weight < p.bound)

/-- Evaluates a leaf.  It counts if its worth is not below the bound, which
it then becomes.  Leaves are evaluated even when the budget is spent. -/
def evaluate (p : Progress) (scope : Scope) (fees weight : Nat) : Option Leaf × Progress :=
  if scope.total < weight then
    (none, { p with overweight := p.overweight.or (some weight) })
  else if scope.worth fees weight < p.bound then
    (none, p)
  else
    (some ⟨[], scope.worth fees weight⟩, { p with bound := scope.worth fees weight })

end Progress

/-- Adds a decision in front. -/
def Leaf.decided (leaf : Leaf) (taken : Bool) : Leaf :=
  { leaf with decisions := taken :: leaf.decisions }

/-- The better of the leaves found below a node: without and with the
entry.  On equal worth the one without it wins. -/
def better : Option Leaf → Option Leaf → Option Leaf
  | none, none => none
  | some without, none => some (without.decided false)
  | none, some within => some (within.decided true)
  | some without, some within =>
    if without.worth < within.worth then some (within.decided true)
    else some (without.decided false)

/-- **The search** below a node, deciding the listed entries in order: the
best leaf found, if any, and the progress made. -/
@[specialize] def explore {Entry Node : Type} (b : Branching Entry Node) (scope : Scope) :
    List Entry → Node → Progress → Option Leaf × Progress
  | [], node, p => (p.spend 1).evaluate scope (b.fees node) (b.weight node)
  | entry :: entries, node, p =>
    let p := p.spend 1
    if p.turnsBack scope (b.fees node) (b.weight node) then (none, p)
    else
      let visit (taken : Bool) (p : Progress) : Option Leaf × Progress :=
        let p := if taken then p.spend (b.charge node) else p
        match b.decide node entry taken with
        | some child => explore b scope entries child p
        | none => (none, p)
      let (heads, p) := p.flip
      let (first, p) := visit (!heads) p
      let (second, p) := visit heads p
      (if heads then better first second else better second first, p)

end BallotConsensus
