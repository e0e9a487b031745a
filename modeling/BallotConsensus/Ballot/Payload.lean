import BallotConsensus.Ballot
import BallotConsensus.Hex

/-!
# Payloads: how ballots are published

A ballot is published as hexadecimal text: one byte that checks the voting
round, two bytes for the length of the ballot, and the bytes of its bits,
the most significant first and without leading zero bytes.

* `Ballot.payload` — the text of a ballot in a round;
* `Ballot.ofPayload` — the ballot and the round check in a text.
-/

namespace BallotConsensus

/-- The byte that a payload carries to check its voting round. -/
def checkByte (round : Nat) : Nat := round % 256

/-- The bytes of a number, the least significant first; none for zero. -/
def littleEndian (n : Nat) : List UInt8 :=
  if n = 0 then [] else UInt8.ofNat n :: littleEndian (n / 256)
termination_by n
decreasing_by omega

/-- The number with the given bytes, the most significant first. -/
def ofBigEndian (bytes : List UInt8) : Nat :=
  bytes.foldl (fun n byte => 256 * n + byte.toNat) 0

/-- Why a text is not the payload of a ballot. -/
inductive PayloadError where
  | hex (error : Hex.Error)
  /-- There are fewer bytes than the three that every payload has. -/
  | truncated (bytes : Nat)
  | ballot (error : BallotError)
deriving DecidableEq

/-- The wording of a payload error. -/
def PayloadError.message : PayloadError → String
  | .hex error => "bit vote payload is not valid hex: " ++ error.message
  | .truncated bytes => s!"bit vote payload of {bytes} bytes is too short"
  | .ballot error => error.message

namespace Ballot

/-- The bytes under which a ballot is published in a round. -/
def payloadBytes (ballot : Ballot) (round : Nat) : List UInt8 :=
  UInt8.ofNat (checkByte round) ::
    UInt8.ofNat (ballot.length / 256) :: UInt8.ofNat (ballot.length % 256) ::
      (littleEndian ballot.bits).reverse

/-- The text under which a ballot is published in a round. -/
def payload (ballot : Ballot) (round : Nat) : String :=
  String.ofList (Hex.encode (ballot.payloadBytes round))

/-- The bytes of a text, as they are transmitted. -/
def textBytes (text : String) : List UInt8 := text.toUTF8.data.toList

/-- A payload may be introduced by `0x`, once. -/
def dropMarker : List UInt8 → List UInt8
  | 48 :: 120 :: digits => digits
  | digits => digits

/-- Two bytes never spell a length that is too large for a ballot. -/
theorem lengthBytes_le (high low : UInt8) :
    256 * high.toNat + low.toNat ≤ ballotCapacity := by
  have := high.toNat_lt
  have := low.toNat_lt
  unfold ballotCapacity
  omega

/-- The ballot that published bytes stand for, and their round check. -/
def ofPayloadBytes : List UInt8 → Except PayloadError (Ballot × Nat)
  | check :: high :: low :: bits =>
    match ofBits (256 * high.toNat + low.toNat) (ofBigEndian bits) (lengthBytes_le high low) with
    | .ok ballot => .ok (ballot, check.toNat)
    | .error error => .error (.ballot error)
  | bytes => .error (.truncated bytes.length)

/-- The ballot that a published text stands for, and its round check. -/
def ofPayload (text : String) : Except PayloadError (Ballot × Nat) :=
  match Hex.decode (dropMarker (textBytes text)) with
  | .ok bytes => ofPayloadBytes bytes
  | .error error => .error (.hex error)

end Ballot

end BallotConsensus
