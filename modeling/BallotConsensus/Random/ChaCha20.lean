/-!
# The ChaCha20 block

A block is computed from a key of eight words and a block number.  Its
sixteen words stand in four rows of four; one **half round** stirs the four
columns, and turning the rows before and after it makes the next half round
stir the diagonals.

* `ChaCha20.block` — the sixteen words of a block, row by row.
-/

namespace BallotConsensus.ChaCha20

/-- Four words side by side. -/
structure Row where
  p : UInt32
  q : UInt32
  r : UInt32
  s : UInt32

namespace Row

def add (x y : Row) : Row := ⟨x.p + y.p, x.q + y.q, x.r + y.r, x.s + y.s⟩

/-- Combines two rows bit by bit and turns every word to the left by `n`
binary places, `0 < n < 32`. -/
def mix (x y : Row) (n : UInt32) : Row :=
  let turn (w : UInt32) := (w <<< n) ||| (w >>> (32 - n))
  ⟨turn (x.p ^^^ y.p), turn (x.q ^^^ y.q), turn (x.r ^^^ y.r), turn (x.s ^^^ y.s)⟩

/-- Moves every word one place to the left; the first becomes the last. -/
def turn (x : Row) : Row := ⟨x.q, x.r, x.s, x.p⟩

end Row

/-- Four rows, one below the other. -/
structure Grid where
  a : Row
  b : Row
  c : Row
  d : Row

namespace Grid

/-- Stirs each of the four columns. -/
def halfRound (g : Grid) : Grid :=
  let a := g.a.add g.b
  let d := g.d.mix a 16
  let c := g.c.add d
  let b := g.b.mix c 12
  let a := a.add b
  let d := d.mix a 8
  let c := c.add d
  let b := b.mix c 7
  ⟨a, b, c, d⟩

/-- Turns the rows so that the diagonals become columns. -/
def slant (g : Grid) : Grid := ⟨g.a, g.b.turn, g.c.turn.turn, g.d.turn.turn.turn⟩

/-- Turns the rows back: `slant` undone. -/
def straighten (g : Grid) : Grid := ⟨g.a, g.b.turn.turn.turn, g.c.turn.turn, g.d.turn⟩

theorem straighten_slant (g : Grid) : g.slant.straighten = g := rfl

/-- Stirs the columns, then the diagonals. -/
def doubleRound (g : Grid) : Grid := g.halfRound.slant.halfRound.straighten

/-- Twenty rounds: ten double rounds. -/
def rounds : Nat → Grid → Grid
  | 0, g => g
  | n + 1, g => rounds n g.doubleRound

end Grid

/-- The first row of every grid. -/
def constants : Row := ⟨0x61707865, 0x3320646e, 0x79622d32, 0x6b206574⟩

/-- Block `number` of the stream with the given key. -/
def block (low high : Row) (number : UInt64) : Grid :=
  let start : Grid :=
    ⟨constants, low, high, ⟨number.toUInt32, (number >>> 32).toUInt32, 0, 0⟩⟩
  let stirred := start.rounds 10
  ⟨stirred.a.add start.a, stirred.b.add start.b, stirred.c.add start.c, stirred.d.add start.d⟩

end BallotConsensus.ChaCha20
