import BallotConsensus.Ballot.Payload
import BallotConsensus.Proofs.Hex

/-!
# Payloads read back

A published ballot is read back as the very ballot, together with the check of
the round that it was published in.  Each part of a payload reads back on its
own: the digits of the text, the two bytes of the length, and the bytes of the
bits, which stand for the same number whether they are counted from the least
significant one or read from the most significant one.

* `ofBigEndian_littleEndian` — bits read back;
* `Ballot.ofPayload_payload` — **payloads read back.**
-/

namespace BallotConsensus

/-- The bytes of a number stand for the number. -/
theorem ofBigEndian_littleEndian (n : Nat) : ofBigEndian (littleEndian n).reverse = n := by
  induction n using littleEndian.induct with
  | case1 => rw [littleEndian]; rfl
  | case2 n hn ih =>
      rw [littleEndian, if_neg hn, List.reverse_cons, ofBigEndian, List.foldl_append]
      change 256 * ofBigEndian (littleEndian (n / 256)).reverse + (UInt8.ofNat n).toNat = n
      rw [ih, UInt8.toNat_ofNat']
      omega

namespace Ballot

/-- No written text looks as if it was introduced by `0x`. -/
theorem dropMarker_encode (bytes : List UInt8) :
    dropMarker (Hex.textOf (Hex.encode bytes)) = Hex.textOf (Hex.encode bytes) := by
  cases bytes with
  | nil => rfl
  | cons byte bytes =>
      have hlow := Hex.digitValue?_digit (Hex.low_lt byte)
      change dropMarker (UInt8.ofNat (Hex.digit (byte / 16)).toNat ::
        UInt8.ofNat (Hex.digit (byte % 16)).toNat :: Hex.textOf (Hex.encode bytes)) = _
      unfold dropMarker
      split
      · next heq =>
          -- The second byte would have to be the letter of the marker, which is no digit.
          rw [List.cons.injEq, List.cons.injEq] at heq
          have hmarker : Hex.digitValue? 120 = none := by decide
          rw [heq.2.1, hmarker] at hlow
          exact absurd hlow (by simp)
      · rfl

/-- Published bytes stand for the ballot and the round check. -/
theorem ofPayloadBytes_payloadBytes (ballot : Ballot) (round : Nat) :
    ofPayloadBytes (ballot.payloadBytes round) = .ok (ballot, checkByte round) := by
  have hlength : 256 * (UInt8.ofNat (ballot.length / 256)).toNat +
      (UInt8.ofNat (ballot.length % 256)).toNat = ballot.length := by
    have := ballot.length_le
    unfold ballotCapacity at this
    rw [UInt8.toNat_ofNat', UInt8.toNat_ofNat']
    omega
  have hcheck : (UInt8.ofNat (checkByte round)).toNat = checkByte round := by
    rw [UInt8.toNat_ofNat', checkByte]
    omega
  simp only [payloadBytes, ofPayloadBytes, ofBigEndian_littleEndian, hlength, hcheck, ofBits,
    dif_pos ballot.bits_lt]

/-- **Payloads read back.** -/
theorem ofPayload_payload (ballot : Ballot) (round : Nat) :
    ofPayload (ballot.payload round) = .ok (ballot, checkByte round) := by
  simp only [ofPayload, payload, textBytes, Hex.utf8_encode, dropMarker_encode,
    Hex.decode_encode, ofPayloadBytes_payloadBytes]

end Ballot

end BallotConsensus
