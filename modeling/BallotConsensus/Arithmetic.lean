/-!
# Sums and powers of natural numbers

Weights, fees and ballots are natural numbers.  Libraries of algebra bring
their own empty sum and their own power of natural numbers, equal to the ones
of the core language but written differently.  Here the choice is made once,
for the core language, so that the same sum is the same term in every module.
-/

namespace BallotConsensus

/-- The empty sum. -/
instance (priority := 20000) zeroNat : Zero Nat := ⟨0⟩

/-- The power, also where both numbers are literals. -/
@[default_instance 20000]
instance (priority := 20000) powNat : Pow Nat Nat := instPowNat

end BallotConsensus
