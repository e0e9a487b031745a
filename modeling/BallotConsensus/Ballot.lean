import BallotConsensus.Flags

/-!
# Ballots

A **ballot** says, for each attestation of a voting round, whether a voter
could confirm it.  It has a length, the number of attestations it covers,
and one binary digit per attestation.  A ballot never confirms an
attestation beyond its length, and it covers at most 65535 of them: both
facts are part of the type.

* `Ballot.ofBits`, `Ballot.ofFlags` — the two ways to fill in a ballot;
* `Ballot.confirms_lt` — only attestations within the length are confirmed;
* `Ballot.flags` — what a ballot says about the attestations that it covers;
* `Ballot.both` — the attestations two ballots agree on.

A `WeightedBallot` is a ballot together with the weight of its voter, which
is never zero.
-/

namespace BallotConsensus

/-- The most attestations that fit into one ballot. -/
def ballotCapacity : Nat := 65535

/-- A ballot: binary digit `i` of `bits` is set iff attestation `i` is
confirmed. -/
structure Ballot where
  length : Nat
  bits : Nat
  length_le : length ≤ ballotCapacity
  bits_lt : bits < 2 ^ length
deriving DecidableEq

/-- Why a ballot cannot be filled in as asked. -/
inductive BallotError where
  /-- The highest confirmed attestation lies beyond the length. -/
  | outOfRange (bit length : Nat)
  /-- There are more attestations than a ballot can cover. -/
  | tooLong (attestations : Nat)
deriving DecidableEq, Repr

/-- The wording of a ballot error. -/
def BallotError.message : BallotError → String
  | .outOfRange bit length =>
      s!"bit vote sets bit {bit} which is beyond its length {length}"
  | .tooLong attestations => s!"{attestations} attestations do not fit into a bit vote"

namespace Ballot

/-- The ballot of the given length whose binary digits are `bits`. -/
def ofBits (length bits : Nat) (length_le : length ≤ ballotCapacity) :
    Except BallotError Ballot :=
  if bits_lt : bits < 2 ^ length then
    .ok { length, bits, length_le, bits_lt }
  else
    .error (.outOfRange bits.log2 length)

/-- The ballot that confirms exactly the flagged attestations. -/
def ofFlags (flags : List Bool) : Except BallotError Ballot :=
  if length_le : flags.length ≤ ballotCapacity then
    .ok {
      length := flags.length
      bits := Flags.toBits flags
      length_le
      bits_lt := Flags.toBits_lt flags }
  else
    .error (.tooLong flags.length)

/-- Whether the ballot confirms an attestation. -/
def confirms (ballot : Ballot) (attestation : Nat) : Bool :=
  ballot.bits.testBit attestation

/-- Nothing beyond the length of a ballot is confirmed. -/
theorem confirms_lt {ballot : Ballot} {attestation : Nat}
    (h : ballot.confirms attestation = true) : attestation < ballot.length := by
  by_cases hlt : attestation < ballot.length
  · exact hlt
  · have hbits : ballot.bits < 2 ^ attestation :=
      Nat.lt_of_lt_of_le ballot.bits_lt (Nat.pow_le_pow_right (by omega) (by omega))
    rw [confirms, Nat.testBit_lt_two_pow hbits] at h
    exact absurd h (by decide)

/-- The flags of a ballot, one for each attestation that it covers. -/
def flags (ballot : Ballot) : List Bool := (List.range ballot.length).map ballot.confirms

@[simp] theorem length_flags (ballot : Ballot) : ballot.flags.length = ballot.length := by
  simp [flags]

/-- What no flag says is not confirmed. -/
theorem getD_flags (ballot : Ballot) (i : Nat) : ballot.flags.getD i false = ballot.confirms i := by
  rw [List.getD_eq_getElem?_getD, flags, List.getElem?_map]
  by_cases hlt : i < ballot.length
  · rw [List.getElem?_range hlt]
    rfl
  · rw [List.getElem?_eq_none (by simpa using hlt)]
    exact (Bool.eq_false_iff.mpr fun h => hlt (confirms_lt h)).symm

/-- The ballot that confirms what both ballots confirm, as long as the
longer of the two. -/
def both (a b : Ballot) : Ballot where
  length := max a.length b.length
  bits := a.bits &&& b.bits
  length_le := Nat.max_le.mpr ⟨a.length_le, b.length_le⟩
  bits_lt := Nat.lt_of_le_of_lt Nat.and_le_left
    (Nat.lt_of_lt_of_le a.bits_lt
      (Nat.pow_le_pow_right (by omega) (Nat.le_max_left ..)))

@[simp] theorem confirms_both (a b : Ballot) (i : Nat) :
    (a.both b).confirms i = (a.confirms i && b.confirms i) := by
  simp [confirms, both]

/-- The fees of the confirmed attestations.  Fees are listed by
attestation; what lies beyond the list costs nothing. -/
def fees (ballot : Ballot) (fees : List Nat) : Nat :=
  (fees.zipIdx.map fun (fee, attestation) =>
    if ballot.confirms attestation then fee else 0).sum

end Ballot

/-- A ballot with the weight of its voter.  `voter` is the caller's name for
the voter, for example its position in the signing policy. -/
structure WeightedBallot where
  voter : Nat
  weight : Nat
  ballot : Ballot
  weight_pos : 0 < weight
deriving DecidableEq

namespace WeightedBallot

/-- The ballot with a weight, if the weight is positive. -/
def of? (voter weight : Nat) (ballot : Ballot) : Option WeightedBallot :=
  if weight_pos : 0 < weight then some { voter, weight, ballot, weight_pos } else none

/-- Whether the voter confirms an attestation. -/
def confirms (vote : WeightedBallot) (attestation : Nat) : Bool :=
  vote.ballot.confirms attestation

/-- Whether the voter confirms every one of the listed attestations. -/
def confirmsAll (vote : WeightedBallot) (attestations : List Nat) : Bool :=
  attestations.all vote.confirms

end WeightedBallot

end BallotConsensus
