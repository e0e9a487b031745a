import Mathlib.Order.Defs.LinearOrder
import BallotConsensus.Worth

/-!
# The order of worths

Worths are linearly ordered, and the worth of a coalition grows with its fees
and with its weight at once: the ceiling on the weight caps the gain but never
turns it around.  This is what makes the worth of a node of a search a bound
for everything below it.

* `Worth.of_mono`, `Worth.of_lt_of_mul_lt` — more fees and more weight are worth no
  less, and more if their product grows;
* `Worth.zero_le`, `Worth.of_no_fees` — nothing is worth less than the zero
  worth, which every agreement without fees has.
-/

namespace BallotConsensus.Worth

instance : LinearOrder Worth where
  le_refl v := le_iff.mpr (Or.inr ⟨rfl, Nat.le_refl _⟩)
  le_trans u v w huv hvw := by
    rw [le_iff] at huv hvw ⊢
    omega
  lt_iff_le_not_ge v w := by
    rw [lt_iff, le_iff, le_iff]
    omega
  le_antisymm v w hvw hwv := by
    rw [le_iff] at hvw hwv
    rcases v with ⟨vc, vu⟩
    rcases w with ⟨wc, wu⟩
    simp only [mk.injEq]
    dsimp only at hvw hwv
    omega
  le_total v w := by
    rw [le_iff, le_iff]
    omega
  toDecidableLE := inferInstance
  toDecidableEq := inferInstance
  toDecidableLT := inferInstance

/-- Nothing is worth less than the zero worth. -/
theorem zero_le (w : Worth) : zero ≤ w := by
  rw [le_iff]
  dsimp only [zero]
  omega

/-- **Worth is monotone.**  More fees backed by more weight are worth no
less, on either side of the ceiling. -/
theorem of_mono {f f' w w' : Nat} (hf : f ≤ f') (hw : w ≤ w') (total : Nat) :
    of f w total ≤ of f' w' total := by
  have hcapped : f * min w (weightCeiling total) ≤ f' * min w' (weightCeiling total) :=
    Nat.mul_le_mul hf (by omega)
  have huncapped : f * w ≤ f' * w' := Nat.mul_le_mul hf hw
  rw [le_iff]
  dsimp only [of]
  omega

/-- **More is worth more**, even beyond the ceiling: what the capped worth does not
show, the uncapped one does. -/
theorem of_lt_of_mul_lt {f f' w w' : Nat} (hf : f ≤ f') (hw : w ≤ w') (h : f * w < f' * w')
    (total : Nat) : of f w total < of f' w' total := by
  have hcapped : f * min w (weightCeiling total) ≤ f' * min w' (weightCeiling total) :=
    Nat.mul_le_mul hf (by omega)
  rw [lt_iff]
  dsimp only [of]
  omega

/-- An agreement without fees is worth nothing, whoever backs it. -/
theorem of_no_fees (weight total : Nat) : of 0 weight total = zero := by
  simp [of, zero]

end BallotConsensus.Worth
