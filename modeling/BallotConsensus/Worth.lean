import BallotConsensus.Arithmetic

/-!
# Worth: how good a coalition is

A coalition of voters that agrees on a set of attestations is worth the fees
of that set times the weight of the coalition.  Two products are kept: one
in which the weight counts only up to a **ceiling** of two thirds of the
total weight, and one in which it counts in full.  The first decides, the
second breaks ties.

* `Worth.of` — the worth of a fee sum backed by a weight;
* `Worth.lt_iff`, `Worth.le_iff` — worths are ordered lexicographically;
* `weightCeiling_le` — the ceiling never exceeds the total weight.
-/

namespace BallotConsensus

/-- The worth of a coalition: fees times weight, with and without the
ceiling on the weight. -/
structure Worth where
  capped : Nat
  uncapped : Nat
deriving DecidableEq, Repr, Inhabited

/-- The weight beyond which a coalition gains no more capped worth: two
thirds of the total weight, rounded up. -/
def weightCeiling (total : Nat) : Nat := (2 * total + 2) / 3

theorem weightCeiling_le (total : Nat) : weightCeiling total ≤ total := by
  unfold weightCeiling
  omega

namespace Worth

/-- The worth of `fees` backed by `weight` out of `total`. -/
def of (fees weight total : Nat) : Worth where
  capped := fees * min weight (weightCeiling total)
  uncapped := fees * weight

/-- The worth of an agreement on nothing. -/
def zero : Worth := ⟨0, 0⟩

/-- Whether a worth is the zero worth. -/
def isZero (w : Worth) : Bool := w.capped == 0 && w.uncapped == 0

/-- Capped worth decides, uncapped worth breaks ties. -/
instance : LT Worth where
  lt v w := v.capped < w.capped ∨ v.capped = w.capped ∧ v.uncapped < w.uncapped

instance : LE Worth where
  le v w := v.capped < w.capped ∨ v.capped = w.capped ∧ v.uncapped ≤ w.uncapped

theorem lt_iff {v w : Worth} :
    v < w ↔ v.capped < w.capped ∨ v.capped = w.capped ∧ v.uncapped < w.uncapped :=
  Iff.rfl

theorem le_iff {v w : Worth} :
    v ≤ w ↔ v.capped < w.capped ∨ v.capped = w.capped ∧ v.uncapped ≤ w.uncapped :=
  Iff.rfl

instance (v w : Worth) : Decidable (v < w) := decidable_of_iff _ lt_iff.symm

instance (v w : Worth) : Decidable (v ≤ w) := decidable_of_iff _ le_iff.symm

/-- The order as a three-way comparison. -/
def compare (v w : Worth) : Ordering :=
  if v < w then .lt else if v = w then .eq else .gt

/-- The positions of the listed worths from the least to the greatest;
equal worths stay in the order in which they are listed. -/
def ranking (worths : List Worth) : List Nat :=
  (worths.zipIdx.mergeSort fun v w => decide (v.1 ≤ w.1)).map (·.2)

end Worth

end BallotConsensus
