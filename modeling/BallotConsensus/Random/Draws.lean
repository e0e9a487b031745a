import BallotConsensus.Random.Sha256
import BallotConsensus.Random.ChaCha20

/-!
# Seeds and draws

All nodes must explore the same possibilities in the same order, so every
random decision comes from one reproducible sequence of 64-bit **draws**.
The sequence is the ChaCha20 stream under a key, the **seed**, and the seed
of a voting round is a digest of the round's number alone.

* `Seed.ofRound`, `Seed.ofNumber` — the two kinds of seed;
* `Draws.next` — the next draw and what follows it;
* `Draws.take` — several draws at once;
* `Draws.flip` — a fair coin.
-/

namespace BallotConsensus

/-- Thirty-two bytes that determine a sequence of draws. -/
structure Seed where
  bytes : List UInt8
  length_bytes : bytes.length = 32
deriving DecidableEq

/-- The eight bytes of a number below `2 ^ 64`, the most significant
first. -/
def eightBytes (n : Nat) : List UInt8 :=
  [UInt8.ofNat (n / 2 ^ 56), UInt8.ofNat (n / 2 ^ 48), UInt8.ofNat (n / 2 ^ 40),
    UInt8.ofNat (n / 2 ^ 32), UInt8.ofNat (n / 2 ^ 24), UInt8.ofNat (n / 2 ^ 16),
    UInt8.ofNat (n / 2 ^ 8), UInt8.ofNat n]

namespace Seed

/-- The text that sets seeds of rounds apart from other digests. -/
def domain : List UInt8 := "bitvotes/consensus-seed/v1".toUTF8.data.toList

/-- The seed that all nodes use in a voting round. -/
def ofRound (round : Nat) : Seed where
  bytes := Sha256.digest (domain ++ eightBytes round)
  length_bytes := Sha256.length_digest _

/-- The seed that starts with the bytes of a number. -/
def ofNumber (n : Nat) : Seed where
  bytes := eightBytes n ++ List.replicate 24 0
  length_bytes := rfl

end Seed

/-- A sequence of draws: the key and number of the block to compute next,
and the draws left over from the last one. -/
structure Draws where
  low : ChaCha20.Row
  high : ChaCha20.Row
  block : UInt64
  pending : List UInt64

namespace Draws

/-- Little-endian word `i` of a list of bytes. -/
def word (bytes : List UInt8) (i : Nat) : UInt32 :=
  let byte (j : Nat) : UInt32 := (bytes.getD (4 * i + j) 0).toUInt32
  byte 0 ||| (byte 1 <<< 8) ||| (byte 2 <<< 16) ||| (byte 3 <<< 24)

/-- The sequence of draws of a seed. -/
def ofSeed (seed : Seed) : Draws where
  low := ⟨word seed.bytes 0, word seed.bytes 1, word seed.bytes 2, word seed.bytes 3⟩
  high := ⟨word seed.bytes 4, word seed.bytes 5, word seed.bytes 6, word seed.bytes 7⟩
  block := 0
  pending := []

/-- Two words as one draw, the first one being the low half. -/
def join (low high : UInt32) : UInt64 := low.toUInt64 ||| (high.toUInt64 <<< 32)

/-- The two draws in a row of a block. -/
def ofRow (row : ChaCha20.Row) : UInt64 × UInt64 := (join row.p row.q, join row.r row.s)

/-- The next draw and the sequence after it. -/
def next (draws : Draws) : UInt64 × Draws :=
  match draws.pending with
  | draw :: pending => (draw, { draws with pending })
  | [] =>
    let grid := ChaCha20.block draws.low draws.high draws.block
    let (d₀, d₁) := ofRow grid.a
    let (d₂, d₃) := ofRow grid.b
    let (d₄, d₅) := ofRow grid.c
    let (d₆, d₇) := ofRow grid.d
    (d₀, { draws with block := draws.block + 1, pending := [d₁, d₂, d₃, d₄, d₅, d₆, d₇] })

/-- The next `n` draws and the sequence after them. -/
def take : Nat → Draws → List UInt64 × Draws
  | 0, draws => ([], draws)
  | n + 1, draws =>
    let (draw, draws) := draws.next
    let (rest, draws) := take n draws
    (draw :: rest, draws)

@[simp] theorem length_take (n : Nat) (draws : Draws) : (draws.take n).1.length = n := by
  induction n generalizing draws with
  | zero => rfl
  | succ n ih => simp [take, ih]

/-- Flips a coin: the lowest bit of one draw. -/
def flip (draws : Draws) : Bool × Draws :=
  let (draw, draws) := draws.next
  (draw &&& 1 == 1, draws)

end Draws

end BallotConsensus
