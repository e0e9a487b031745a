import Mathlib.Data.Nat.Digits.Defs
import BallotConsensus.Proofs.Ballot.PlainForm
import BallotConsensus.Proofs.Hex.Spelling

/-!
# What texts are read as ballots

A published text comes from anywhere, and every node has to read the same from it,
or refuse it for the same reason.  One marker is dropped, if there is one.  What is
left has to spell bytes, at least three of them, and the bits in the bytes after
the third have to fit into the length that the second and the third one give.  The
first of these three tests that fails is what the text is refused for; a text that
passes all of them is a ballot, whatever its characters, its capital letters and
its leading zeros.

* `Ballot.numberOf`, `ofBigEndian_eq_numberOf` — numbers written in bytes, by place
  value;
* `Ballot.Reads` — **the grammar**: what a text without its marker is read as;
* `Ballot.ofPayload_eq_iff` — **reading follows the grammar**;
* `Ballot.ofPayload_grammar` — the same, with the texts that are not hexadecimal.
-/

namespace BallotConsensus.Ballot

/-! ## Numbers in bytes -/

/-- The number that bytes write by place value, the most significant first. -/
def numberOf (bytes : List UInt8) : Nat := Nat.ofDigits 256 (bytes.reverse.map (·.toNat))

theorem ofBigEndian_eq_numberOf (bytes : List UInt8) : ofBigEndian bytes = numberOf bytes := by
  induction bytes using List.reverseRecOn with
  | nil => rfl
  | append_singleton bytes byte ih =>
      rw [ofBigEndian_append_singleton, ih, numberOf, numberOf, List.reverse_append,
        List.reverse_singleton, List.singleton_append, List.map_cons, Nat.ofDigits_cons]
      exact Nat.add_comm _ _

/-- The two bytes of a length. -/
theorem numberOf_pair (high low : UInt8) :
    numberOf [high, low] = 256 * high.toNat + low.toNat := by
  rw [← ofBigEndian_eq_numberOf]
  simp [ofBigEndian]

/-- The highest binary digit that is set is found by the logarithm. -/
theorem log2_eq_of_highest {n bit : Nat} (hset : n.testBit bit = true)
    (hhigher : ∀ i, bit < i → n.testBit i = false) : n.log2 = bit := by
  have hle : 2 ^ bit ≤ n := Nat.ge_two_pow_of_testBit hset
  have hlt : n < 2 ^ (bit + 1) := Nat.lt_pow_two_of_testBit n fun i hi => hhigher i hi
  have hn : n ≠ 0 := by
    rintro rfl
    simp at hset
  exact (Nat.log2_eq_iff hn).mpr ⟨hle, hlt⟩

/-! ## The grammar -/

/-- **The grammar of payloads**: what a text without its marker is read as. -/
inductive Reads (text : List UInt8) : Except PayloadError (Ballot × Nat) → Prop
  /-- Text that is not hexadecimal is refused for the reason that it is not. -/
  | hex {error : Hex.Error} : Hex.Reads text (.error error) → Reads text (.error (.hex error))
  /-- Three bytes are needed. -/
  | truncated {bytes : List UInt8} : Hex.Spells text bytes → bytes.length < 3 →
      Reads text (.error (.truncated bytes.length))
  /-- The bits have to lie within the length; the highest of them is reported. -/
  | outOfRange {check high low : UInt8} {bits : List UInt8} {bit : Nat} :
      Hex.Spells text (check :: high :: low :: bits) →
      2 ^ numberOf [high, low] ≤ numberOf bits →
      (numberOf bits).testBit bit = true →
      (∀ i, bit < i → (numberOf bits).testBit i = false) →
      Reads text (.error (.ballot (.outOfRange bit (numberOf [high, low]))))
  /-- Then the text is a ballot, and its bits are the digits of a number. -/
  | ballot {check high low : UInt8} {bits : List UInt8} {ballot : Ballot} :
      Hex.Spells text (check :: high :: low :: bits) →
      numberOf bits < 2 ^ numberOf [high, low] →
      ballot.length = numberOf [high, low] →
      (∀ i, ballot.confirms i = (numberOf bits).testBit i) →
      Reads text (.ok (ballot, check.toNat))

/-- Bits within the length are those of a ballot. -/
theorem ofPayloadBytes_of_lt (check : UInt8) {high low : UInt8} {bits : List UInt8}
    (h : numberOf bits < 2 ^ (256 * high.toNat + low.toNat)) :
    ofPayloadBytes (check :: high :: low :: bits) =
      .ok (⟨256 * high.toNat + low.toNat, numberOf bits, lengthBytes_le high low, h⟩,
        check.toNat) := by
  simp only [ofPayloadBytes, ofBits, ofBigEndian_eq_numberOf, dif_pos h]

/-- Other bits are out of range. -/
theorem ofPayloadBytes_of_le (check : UInt8) {high low : UInt8} {bits : List UInt8}
    (h : 2 ^ (256 * high.toNat + low.toNat) ≤ numberOf bits) :
    ofPayloadBytes (check :: high :: low :: bits) =
      .error (.ballot (.outOfRange (numberOf bits).log2 (256 * high.toNat + low.toNat))) := by
  simp only [ofPayloadBytes, ofBits, ofBigEndian_eq_numberOf, dif_neg (Nat.not_lt.mpr h)]

/-- Fewer than three bytes are too few. -/
theorem ofPayloadBytes_of_length_lt {bytes : List UInt8} (h : bytes.length < 3) :
    ofPayloadBytes bytes = .error (.truncated bytes.length) := by
  unfold ofPayloadBytes
  split
  · simp only [List.length_cons] at h
    omega
  · rfl

/-- Text that spells bytes is read as they are. -/
theorem ofPayload_of_spells {text : String} {bytes : List UInt8}
    (h : Hex.Spells (textBytes (body text)) bytes) : ofPayload text = ofPayloadBytes bytes := by
  simp only [ofPayload, dropMarker_textBytes, Hex.decode_of_reads (.spelled h)]

/-- Text that spells nothing is refused for it. -/
theorem ofPayload_of_hex_error {text : String} {error : Hex.Error}
    (h : Hex.Reads (textBytes (body text)) (.error error)) :
    ofPayload text = .error (.hex error) := by
  simp only [ofPayload, dropMarker_textBytes, Hex.decode_of_reads h]

theorem ofPayload_of_reads {text : String} {result : Except PayloadError (Ballot × Nat)}
    (h : Reads (textBytes (body text)) result) : ofPayload text = result := by
  cases h with
  | hex herror => exact ofPayload_of_hex_error herror
  | truncated hspells hshort => rw [ofPayload_of_spells hspells, ofPayloadBytes_of_length_lt hshort]
  | @outOfRange check high low bits bit hspells hle hset hhigher =>
      rw [numberOf_pair] at hle ⊢
      rw [ofPayload_of_spells hspells, ofPayloadBytes_of_le check hle,
        log2_eq_of_highest hset hhigher]
  | @ballot check high low bits ballot hspells hlt hlength hconfirms =>
      rw [numberOf_pair] at hlt hlength
      rw [ofPayload_of_spells hspells, ofPayloadBytes_of_lt check hlt]
      rcases ballot with ⟨length, digits, hle, hdigits⟩
      obtain rfl : length = _ := hlength
      obtain rfl : digits = numberOf bits := Nat.eq_of_testBit_eq hconfirms
      rfl

/-- Every text is read as something. -/
theorem exists_reads (text : List UInt8) : ∃ result, Reads text result := by
  obtain ⟨result, hresult⟩ := Hex.exists_reads text
  cases hresult with
  | oddLength hodd => exact ⟨_, .hex (.oddLength hodd)⟩
  | invalidDigit heven htext hdigits hbyte =>
      exact ⟨_, .hex (.invalidDigit heven htext hdigits hbyte)⟩
  | @spelled bytes hspells =>
      rcases bytes with _ | ⟨check, _ | ⟨high, _ | ⟨low, bits⟩⟩⟩
      · exact ⟨_, .truncated hspells (by simp)⟩
      · exact ⟨_, .truncated hspells (by simp)⟩
      · exact ⟨_, .truncated hspells (by simp)⟩
      · rcases Nat.lt_or_ge (numberOf bits) (2 ^ numberOf [high, low]) with hlt | hle
        · have hcapacity : numberOf [high, low] ≤ ballotCapacity := by
            rw [numberOf_pair]
            exact lengthBytes_le high low
          exact ⟨_, @Reads.ballot _ _ _ _ _ ⟨_, _, hcapacity, hlt⟩ hspells hlt rfl fun _ => rfl⟩
        · have hpos : numberOf bits ≠ 0 := by
            have := Nat.two_pow_pos (numberOf [high, low])
            omega
          refine ⟨_, .outOfRange hspells hle (Nat.testBit_log2 hpos) fun i hi => ?_⟩
          exact Nat.testBit_lt_two_pow
            (Nat.lt_of_lt_of_le Nat.lt_log2_self (Nat.pow_le_pow_right (by decide) hi))

/-- **Reading follows the grammar.** -/
theorem ofPayload_eq_iff {text : String} {result : Except PayloadError (Ballot × Nat)} :
    ofPayload text = result ↔ Reads (textBytes (body text)) result := by
  refine ⟨fun hread => ?_, ofPayload_of_reads⟩
  obtain ⟨other, hother⟩ := exists_reads (textBytes (body text))
  rwa [← hread, ofPayload_of_reads hother]

/-- **The grammar of payloads decides what is read**, of every text.  And what it
refuses for not being hexadecimal is, without its marker, of an odd number of bytes
or not of digits alone. -/
theorem ofPayload_grammar (text : String) :
    (∀ result, ofPayload text = result ↔ Reads (textBytes (body text)) result) ∧
    ((∃ error, ofPayload text = .error (.hex error)) ↔
      (textBytes (body text)).length % 2 = 1 ∨
        ∃ byte ∈ textBytes (body text), ¬ Hex.IsDigit byte) := by
  refine ⟨fun result => ofPayload_eq_iff, ?_⟩
  rw [← Hex.exists_error_iff]
  constructor
  · intro hrefused
    obtain ⟨error, herror⟩ := hrefused
    rw [ofPayload_eq_iff] at herror
    cases herror with
    | hex hreads => exact ⟨error, hreads⟩
  · intro hreads
    obtain ⟨error, herror⟩ := hreads
    exact ⟨error, ofPayload_eq_iff.mpr (.hex herror)⟩

end BallotConsensus.Ballot
