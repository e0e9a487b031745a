import BallotConsensus.Arithmetic

/-!
# The SHA-256 digest

A message is padded to blocks of sixty-four bytes; each block stirs a state
of eight words through sixty-four steps.

* `Sha256.digest` — the thirty-two bytes of the digest;
* `Sha256.length_digest` — there are always that many.
-/

namespace BallotConsensus.Sha256

/-- The eight words that are stirred. -/
structure State where
  a : UInt32
  b : UInt32
  c : UInt32
  d : UInt32
  e : UInt32
  f : UInt32
  g : UInt32
  h : UInt32

/-- Turns a word to the right by `n` binary places, `0 < n < 32`. -/
def turnRight (x n : UInt32) : UInt32 := (x >>> n) ||| (x <<< (32 - n))

/-- The words of the initial state: the first fractional bits of the square
roots of the first eight primes. -/
def initial : State :=
  ⟨0x6a09e667, 0xbb67ae85, 0x3c6ef372, 0xa54ff53a, 0x510e527f, 0x9b05688c, 0x1f83d9ab, 0x5be0cd19⟩

/-- The constants of the sixty-four steps: the first fractional bits of the
cube roots of the first sixty-four primes. -/
def constants : List UInt32 := [
  0x428a2f98, 0x71374491, 0xb5c0fbcf, 0xe9b5dba5, 0x3956c25b, 0x59f111f1, 0x923f82a4, 0xab1c5ed5,
  0xd807aa98, 0x12835b01, 0x243185be, 0x550c7dc3, 0x72be5d74, 0x80deb1fe, 0x9bdc06a7, 0xc19bf174,
  0xe49b69c1, 0xefbe4786, 0x0fc19dc6, 0x240ca1cc, 0x2de92c6f, 0x4a7484aa, 0x5cb0a9dc, 0x76f988da,
  0x983e5152, 0xa831c66d, 0xb00327c8, 0xbf597fc7, 0xc6e00bf3, 0xd5a79147, 0x06ca6351, 0x14292967,
  0x27b70a85, 0x2e1b2138, 0x4d2c6dfc, 0x53380d13, 0x650a7354, 0x766a0abb, 0x81c2c92e, 0x92722c85,
  0xa2bfe8a1, 0xa81a664b, 0xc24b8b70, 0xc76c51a3, 0xd192e819, 0xd6990624, 0xf40e3585, 0x106aa070,
  0x19a4c116, 0x1e376c08, 0x2748774c, 0x34b0bcb5, 0x391c0cb3, 0x4ed8aa4a, 0x5b9cca4f, 0x682e6ff3,
  0x748f82ee, 0x78a5636f, 0x84c87814, 0x8cc70208, 0x90befffa, 0xa4506ceb, 0xbef9a3f7, 0xc67178f2]

/-- One step with its constant and its message word. -/
def State.step (s : State) (constant word : UInt32) : State :=
  let choice := (s.e &&& s.f) ^^^ (~~~s.e &&& s.g)
  let majority := (s.a &&& s.b) ^^^ (s.a &&& s.c) ^^^ (s.b &&& s.c)
  let first := s.h + (turnRight s.e 6 ^^^ turnRight s.e 11 ^^^ turnRight s.e 25) + choice
    + constant + word
  let second := (turnRight s.a 2 ^^^ turnRight s.a 13 ^^^ turnRight s.a 22) + majority
  ⟨first + second, s.a, s.b, s.c, s.d + first, s.e, s.f, s.g⟩

/-- The word that follows the listed message words, the latest of which
comes first. -/
def nextWord (words : List UInt32) : UInt32 :=
  let back (n : Nat) := words.getD (n - 1) 0
  let recent := back 2
  let distant := back 15
  (turnRight recent 17 ^^^ turnRight recent 19 ^^^ (recent >>> 10)) + back 7
    + (turnRight distant 7 ^^^ turnRight distant 18 ^^^ (distant >>> 3)) + back 16

/-- Appends `n` words to the message words, the latest of which comes
first. -/
def expand : Nat → List UInt32 → List UInt32
  | 0, words => words
  | n + 1, words => expand n (nextWord words :: words)

/-- The big-endian words of a list of bytes. -/
def wordsOf : List UInt8 → List UInt32
  | a :: b :: c :: d :: rest =>
    ((a.toUInt32 <<< 24) ||| (b.toUInt32 <<< 16) ||| (c.toUInt32 <<< 8) ||| d.toUInt32)
      :: wordsOf rest
  | _ => []

/-- Stirs one block of sixteen words into the state. -/
def State.absorb (s : State) (block : List UInt32) : State :=
  let words := (expand 48 block.reverse).reverse
  let t := (constants.zip words).foldl (fun t (constant, word) => t.step constant word) s
  ⟨s.a + t.a, s.b + t.b, s.c + t.c, s.d + t.d, s.e + t.e, s.f + t.f, s.g + t.g, s.h + t.h⟩

/-- Stirs whole blocks into the state, as many as `blocks` says. -/
def State.absorbAll : Nat → State → List UInt32 → State
  | 0, s, _ => s
  | blocks + 1, s, words => absorbAll blocks (s.absorb (words.take 16)) (words.drop 16)

/-- The bytes of a word, the most significant first. -/
def bytesOf (word : UInt32) : List UInt8 :=
  [(word >>> 24).toUInt8, (word >>> 16).toUInt8, (word >>> 8).toUInt8, word.toUInt8]

/-- A message followed by a set bit, by zeros, and by its own length in
bits, up to a whole number of blocks. -/
def padded (message : List UInt8) : List UInt8 :=
  let bits := 8 * message.length
  message ++ 0x80 :: List.replicate ((119 - message.length % 64) % 64) 0
    ++ bytesOf (UInt32.ofNat (bits / 2 ^ 32)) ++ bytesOf (UInt32.ofNat bits)

/-- The SHA-256 digest of a message. -/
def digest (message : List UInt8) : List UInt8 :=
  let words := wordsOf (padded message)
  let s := State.absorbAll (words.length / 16) initial words
  bytesOf s.a ++ bytesOf s.b ++ bytesOf s.c ++ bytesOf s.d
    ++ bytesOf s.e ++ bytesOf s.f ++ bytesOf s.g ++ bytesOf s.h

theorem length_digest (message : List UInt8) : (digest message).length = 32 := rfl

end BallotConsensus.Sha256
