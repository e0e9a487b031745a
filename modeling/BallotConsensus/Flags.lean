import BallotConsensus.Arithmetic

/-!
# Flag lists

Participation of voters and inclusion of attestations are written as lists
of flags, one per position.  This file goes back and forth between such a
list, the set positions and the number whose binary digits the flags are.

* `Flags.positions` — the set positions, ascending;
* `Flags.ofPositions` — the flags with exactly the given positions set;
* `Flags.toBits` — the number whose bit `i` is flag `i`.
-/

namespace BallotConsensus.Flags

/-- The positions at which a flag is set, ascending. -/
def positions (flags : List Bool) : List Nat :=
  flags.zipIdx.filterMap fun (flag, position) => if flag then some position else none

/-- `count` flags of which exactly those at the given positions are set.
Positions at or beyond `count` are ignored. -/
def ofPositions (count : Nat) (chosen : List Nat) : List Bool :=
  (chosen.foldl (fun flags position => flags.setIfInBounds position true)
    (Array.replicate count false)).toList

/-- The number whose binary digit `i` is flag `i`. -/
def toBits (flags : List Bool) : Nat :=
  flags.foldr (fun flag bits => 2 * bits + flag.toNat) 0

/-- The number of set flags. -/
def count (flags : List Bool) : Nat := List.count true flags

@[simp] theorem toBits_nil : toBits [] = 0 := rfl

@[simp] theorem toBits_cons (flag : Bool) (flags : List Bool) :
    toBits (flag :: flags) = 2 * toBits flags + flag.toNat := rfl

/-- A list of `n` flags is a number of at most `n` binary digits. -/
theorem toBits_lt (flags : List Bool) : toBits flags < 2 ^ flags.length := by
  induction flags with
  | nil => simp
  | cons flag flags ih =>
      rw [toBits_cons, List.length_cons, Nat.pow_succ]
      have := flag.toNat_lt
      omega

@[simp] theorem length_ofPositions (n : Nat) (chosen : List Nat) :
    (ofPositions n chosen).length = n := by
  have go : ∀ (l : List Nat) (a : Array Bool),
      (l.foldl (fun flags position => flags.setIfInBounds position true) a).size = a.size := by
    intro l
    induction l with
    | nil => intro a; rfl
    | cons x l ih => intro a; simp [ih]
  simp [ofPositions, go]

end BallotConsensus.Flags
