import Mathlib.Data.List.Induction
import BallotConsensus.Proofs.Ballot.Payload

/-!
# Payloads have a plain form

A ballot is published in one way only, but it can be read from more texts than
that: one marker may lead, digits may be capital letters, and the bits may start
with zero bytes.  Taking all of this away leads from every text that is read as a
ballot to the payload of the ballot.  So reading and publishing are inverse to
each other up to the plain form, and payloads tell ballots and round checks
apart.

* `Ballot.plainForm`, `Ballot.IsPlain` — the plain form of a text, and the texts
  that are in it, with `Ballot.plainForm_eq_self_iff`;
* `littleEndian_ofBigEndian` — bytes written back lose their leading zeros;
* `Ballot.payload_of_ofPayload` — **what is read is published in plain form**;
* `Ballot.payload_inj` — **payloads tell ballots apart**;
* `Ballot.payload_round_trip` — all of it together.
-/

namespace BallotConsensus

/-! ## Bytes of a number, read and written back -/

theorem ofBigEndian_append_singleton (bytes : List UInt8) (byte : UInt8) :
    ofBigEndian (bytes ++ [byte]) = 256 * ofBigEndian bytes + byte.toNat := by
  rw [ofBigEndian, List.foldl_append]
  rfl

theorem littleEndian_eq_nil_iff {n : Nat} : littleEndian n = [] ↔ n = 0 := by
  rw [littleEndian]
  split <;> simp [*]

/-- The least significant byte is written first. -/
theorem littleEndian_step {n : Nat} {byte : UInt8} (h : 256 * n + byte.toNat ≠ 0) :
    littleEndian (256 * n + byte.toNat) = byte :: littleEndian n := by
  have := byte.toNat_lt
  have hbyte : UInt8.ofNat (256 * n + byte.toNat) = byte := by
    rw [← UInt8.toNat_inj, UInt8.toNat_ofNat']
    omega
  have hrest : (256 * n + byte.toNat) / 256 = n := by omega
  rw [littleEndian, if_neg h, hbyte, hrest]

/-- **Bytes written back lose their leading zeros.**  The induction is from the
least significant byte on, as bytes are written. -/
theorem littleEndian_ofBigEndian (bytes : List UInt8) :
    (littleEndian (ofBigEndian bytes)).reverse = bytes.dropWhile (· == 0) := by
  induction bytes using List.reverseRecOn with
  | nil =>
      rw [littleEndian]
      rfl
  | append_singleton bytes byte ih =>
      rw [ofBigEndian_append_singleton, List.dropWhile_append, ← ih]
      by_cases hzero : 256 * ofBigEndian bytes + byte.toNat = 0
      · have hbyte : byte = 0 := UInt8.toNat_inj.mp (by simp only [UInt8.reduceToNat]; omega)
        have hrest : ofBigEndian bytes = 0 := by omega
        rw [hzero, hrest, littleEndian_eq_nil_iff.mpr rfl, hbyte]
        rfl
      · rw [littleEndian_step hzero, List.reverse_cons]
        by_cases hrest : ofBigEndian bytes = 0
        · have hbyte : (byte == 0) = false := by
            rw [beq_eq_false_iff_ne]
            rintro rfl
            exact hzero (by simp [hrest])
          rw [littleEndian_eq_nil_iff.mpr hrest]
          simp [hbyte]
        · have hopen : littleEndian (ofBigEndian bytes) ≠ [] := mt littleEndian_eq_nil_iff.mp hrest
          simp [hopen]

namespace Ballot

/-! ## The plain form -/

/-- One marker dropped. -/
def unmarked : List Char → List Char
  | '0' :: 'x' :: digits => digits
  | digits => digits

/-- Leading zero bytes dropped. -/
def significant : List Char → List Char
  | '0' :: '0' :: digits => significant digits
  | digits => digits

/-- **The plain form of a text**: without its marker, in small letters and without
leading zero bytes behind the third byte. -/
def plainForm (text : String) : String :=
  let digits := (unmarked text.toList).map Char.toLower
  String.ofList (digits.take 6 ++ significant (digits.drop 6))

/-- **A text in plain form.** -/
structure IsPlain (text : String) : Prop where
  /-- No marker leads. -/
  unmarked : ¬ ['0', 'x'] <+: text.toList
  /-- All letters are small. -/
  small : ∀ c ∈ text.toList, c.toLower = c
  /-- Behind the third byte there is no leading zero byte. -/
  significant : ¬ ['0', '0'] <+: text.toList.drop 6

theorem unmarked_suffix (digits : List Char) : unmarked digits <:+ digits := by
  unfold unmarked
  split
  · exact ⟨['0', 'x'], rfl⟩
  · exact List.suffix_refl _

theorem significant_suffix (digits : List Char) : significant digits <:+ digits := by
  fun_induction significant digits with
  | case1 digits ih => exact ih.trans ⟨['0', '0'], rfl⟩
  | case2 => exact List.suffix_refl _

theorem unmarked_eq_self_iff {digits : List Char} :
    unmarked digits = digits ↔ ¬ ['0', 'x'] <+: digits := by
  unfold unmarked
  split
  · next rest =>
      have hprefix : ['0', 'x'] <+: '0' :: 'x' :: rest := ⟨rest, rfl⟩
      refine iff_of_false (fun heq => ?_) (not_not.mpr hprefix)
      have hlength := congrArg List.length heq
      simp only [List.length_cons] at hlength
      omega
  · next hother =>
      refine iff_of_true rfl ?_
      rintro ⟨rest, rfl⟩
      exact hother rest rfl

theorem significant_eq_self_iff {digits : List Char} :
    significant digits = digits ↔ ¬ ['0', '0'] <+: digits := by
  unfold significant
  split
  · next rest =>
      have hprefix : ['0', '0'] <+: '0' :: '0' :: rest := ⟨rest, rfl⟩
      refine iff_of_false (fun heq => ?_) (not_not.mpr hprefix)
      have hlength := (significant_suffix rest).length_le
      simp only [heq, List.length_cons] at hlength
      omega
  · next hother =>
      refine iff_of_true rfl ?_
      rintro ⟨rest, rfl⟩
      exact hother rest rfl

/-- **A text is its own plain form exactly if it is in plain form.** -/
theorem plainForm_eq_self_iff {text : String} : plainForm text = text ↔ IsPlain text := by
  constructor
  · intro hself
    have hdigits := congrArg String.toList hself
    simp only [plainForm, String.toList_ofList] at hdigits
    -- Nothing can have been dropped, since nothing is added.
    have hlength := congrArg List.length hdigits
    have hmarker := unmarked_suffix text.toList
    have hzeros := significant_suffix (((unmarked text.toList).map Char.toLower).drop 6)
    have hshort := hmarker.length_le
    have hshorter := hzeros.length_le
    simp only [List.length_append, List.length_take, List.length_drop, List.length_map]
      at hlength hshorter
    have hunmarked := hmarker.eq_of_length (by omega)
    rw [hunmarked] at hdigits hzeros hlength hshorter
    have hsignificant := hzeros.eq_of_length (by
      simp only [List.length_drop, List.length_map]
      omega)
    rw [hsignificant, List.take_append_drop] at hdigits
    rw [hdigits] at hsignificant
    refine ⟨unmarked_eq_self_iff.mp hunmarked, ?_, significant_eq_self_iff.mp hsignificant⟩
    exact List.map_inj_left.mp (hdigits.trans (List.map_id _).symm)
  · intro hplain
    have hunmarked := unmarked_eq_self_iff.mpr hplain.unmarked
    have hsmall : text.toList.map Char.toLower = text.toList :=
      (List.map_congr_left hplain.small).trans (List.map_id _)
    simp only [plainForm, hunmarked, hsmall, significant_eq_self_iff.mpr hplain.significant,
      List.take_append_drop, String.ofList_toList]

/-! ## Reading, then publishing -/

/-- A text without its marker. -/
def body (text : String) : String := String.ofList (unmarked text.toList)

theorem textBytes_ofList (digits : List Char) :
    textBytes (String.ofList digits) = digits.flatMap String.utf8EncodeChar := by
  rw [textBytes, Hex.toUTF8_eq_flatMap, String.toList_ofList]

/-- Only the characters of a marker are transmitted as its bytes. -/
theorem marker_of_textBytes {digits : List Char} {rest : List UInt8}
    (h : textBytes (String.ofList digits) = 48 :: 120 :: rest) : ['0', 'x'] <+: digits := by
  rw [textBytes_ofList] at h
  rcases digits with _ | ⟨a, digits⟩
  · cases h
  · obtain ⟨ha, htail⟩ := Hex.eq_of_utf8_cons (by decide) h
    rcases digits with _ | ⟨b, digits⟩
    · cases htail
    · obtain ⟨hb, -⟩ := Hex.eq_of_utf8_cons (by decide) htail
      obtain rfl : a = '0' := Char.toNat_inj.mp ha
      obtain rfl : b = 'x' := Char.toNat_inj.mp hb
      exact ⟨digits, rfl⟩

/-- A marker is dropped from the bytes of a text as it is from its characters,
whatever the characters. -/
theorem dropMarker_textBytes (text : String) :
    dropMarker (textBytes text) = textBytes (body text) := by
  have htext : textBytes text = textBytes (String.ofList text.toList) := by
    rw [String.ofList_toList]
  by_cases hmarker : ['0', 'x'] <+: text.toList
  · obtain ⟨rest, hrest⟩ := hmarker
    rw [htext, body, ← hrest, textBytes_ofList, List.flatMap_append, textBytes_ofList]
    rfl
  · rw [body, unmarked_eq_self_iff.mpr hmarker, ← htext]
    unfold dropMarker
    split
    · next hbytes => exact absurd (marker_of_textBytes (htext ▸ hbytes)) hmarker
    · rfl

/-- Digits of leading zero bytes are dropped with the bytes. -/
theorem significant_encode (bytes : List UInt8) :
    significant (Hex.encode bytes) = Hex.encode (bytes.dropWhile (· == 0)) := by
  induction bytes with
  | nil => rfl
  | cons byte bytes ih =>
      by_cases hzero : byte = 0
      · subst hzero
        change significant ('0' :: '0' :: Hex.encode bytes) = _
        rw [significant, ih]
        rfl
      · have hopen : ¬ ['0', '0'] <+: Hex.encode (byte :: bytes) := by
          change ¬ ['0', '0'] <+: Hex.digit (byte / 16) :: Hex.digit (byte % 16) :: _
          rw [List.cons_prefix_cons, List.cons_prefix_cons]
          rintro ⟨hhigh, hlow, -⟩
          have hbyte := Hex.high_low byte
          rw [Hex.eq_zero_of_digit (Hex.high_lt byte) hhigh.symm,
            Hex.eq_zero_of_digit (Hex.low_lt byte) hlow.symm] at hbyte
          exact hzero hbyte.symm
        rw [significant_eq_self_iff.mpr hopen, List.dropWhile_cons, if_neg (by simpa using hzero)]

/-- Two bytes of a length are written as they were read. -/
theorem lengthBytes_of_read (high low : UInt8) :
    UInt8.ofNat ((256 * high.toNat + low.toNat) / 256) = high ∧
      UInt8.ofNat ((256 * high.toNat + low.toNat) % 256) = low := by
  have := high.toNat_lt
  have := low.toNat_lt
  rw [← UInt8.toNat_inj, ← UInt8.toNat_inj, UInt8.toNat_ofNat', UInt8.toNat_ofNat']
  omega

/-- What is read as a ballot is published in the same bytes, but for leading zero
bytes behind the third one. -/
theorem payloadBytes_of_ofPayloadBytes {bytes : List UInt8} {ballot : Ballot} {check : Nat}
    (h : ofPayloadBytes bytes = .ok (ballot, check)) {round : Nat} (hround : round % 256 = check) :
    ∃ lead bits, lead.length = 3 ∧ bytes = lead ++ bits ∧
      ballot.payloadBytes round = lead ++ bits.dropWhile (· == 0) := by
  unfold ofPayloadBytes at h
  split at h
  · next first high low bits =>
      refine ⟨[first, high, low], bits, rfl, rfl, ?_⟩
      rw [ofBits] at h
      split at h
      · next read hread =>
          split at hread
          · obtain rfl := Except.ok.inj hread
            obtain ⟨rfl, rfl⟩ := Prod.mk.inj (Except.ok.inj h)
            have hfirst : UInt8.ofNat (checkByte round) = first := by
              rw [checkByte, hround, UInt8.ofNat_toNat]
            obtain ⟨hhigh, hlow⟩ := lengthBytes_of_read high low
            simp only [payloadBytes, hfirst, hhigh, hlow, littleEndian_ofBigEndian]
            rfl
          · cases hread
      · cases h
  · cases h

/-- What is read of a text is written back in small letters and without its
marker. -/
theorem encode_of_decode_textBytes {text : String} {bytes : List UInt8}
    (h : Hex.decode (dropMarker (textBytes text)) = .ok bytes) :
    Hex.encode bytes = (unmarked text.toList).map Char.toLower := by
  rw [dropMarker_textBytes] at h
  have hlatin := Hex.latin_of_utf8 (Hex.lt_of_decode h)
  rw [body, String.toList_ofList] at hlatin
  have hbytes : textBytes (body text) = Hex.textOf (unmarked text.toList) := Hex.utf8_of_lt hlatin
  rw [hbytes] at h
  exact Hex.encode_of_decode hlatin h

/-- **What is read is published in plain form.** -/
theorem payload_of_ofPayload {text : String} {ballot : Ballot} {check : Nat}
    (h : ofPayload text = .ok (ballot, check)) {round : Nat} (hround : round % 256 = check) :
    ballot.payload round = plainForm text := by
  unfold ofPayload at h
  split at h
  · next bytes hdecode =>
      obtain ⟨lead, bits, hlead, rfl, hpayload⟩ := payloadBytes_of_ofPayloadBytes h hround
      have hsix : (Hex.encode lead).length = 6 := by rw [Hex.length_encode, hlead]
      simp only [plainForm, ← encode_of_decode_textBytes hdecode, Hex.encode_append,
        List.take_left' hsix, List.drop_left' hsix, significant_encode]
      rw [payload, hpayload, Hex.encode_append]
  · cases h

/-- **Payloads tell ballots apart**, and rounds as far as their checks do. -/
theorem payload_inj {a b : Ballot} {r s : Nat} :
    a.payload r = b.payload s ↔ a = b ∧ r % 256 = s % 256 := by
  constructor
  · intro heq
    have hread := ofPayload_payload a r
    rw [heq, ofPayload_payload] at hread
    obtain ⟨hballot, hcheck⟩ := Prod.mk.inj (Except.ok.inj hread)
    exact ⟨hballot.symm, hcheck.symm⟩
  · rintro ⟨rfl, hcheck⟩
    rw [payload, payload, payloadBytes, payloadBytes, checkByte, checkByte, hcheck]

/-- A payload may be introduced by a marker. -/
theorem ofPayload_marked (ballot : Ballot) (round : Nat) :
    ofPayload ("0x" ++ ballot.payload round) = .ok (ballot, round % 256) := by
  have hmarked : textBytes ("0x" ++ ballot.payload round) =
      48 :: 120 :: textBytes (ballot.payload round) := by
    rw [textBytes, textBytes, Hex.toUTF8_eq_flatMap, Hex.toUTF8_eq_flatMap, String.toList_append,
      List.flatMap_append]
    rfl
  have hread := ofPayload_payload ballot round
  have hplain : dropMarker (textBytes (ballot.payload round)) =
      textBytes (ballot.payload round) := by
    simp only [payload, textBytes, Hex.utf8_encode, dropMarker_encode]
  simp only [ofPayload, hplain] at hread
  simp only [ofPayload, hmarked, dropMarker]
  exact hread

/-- **Publishing and reading are inverse to each other** up to the plain form.  A
payload, with or without a marker, is read as the very ballot with the check of
its round.  What is read as a ballot is published, in every round with this
check, in plain form, which is the text itself exactly if the text is plain.  And
payloads tell apart ballots and round checks. -/
theorem payload_round_trip :
    (∀ (ballot : Ballot) (round : Nat),
      ofPayload (ballot.payload round) = .ok (ballot, round % 256) ∧
        ofPayload ("0x" ++ ballot.payload round) = .ok (ballot, round % 256)) ∧
    (∀ (text : String) (ballot : Ballot) (check round : Nat),
      ofPayload text = .ok (ballot, check) → round % 256 = check →
        ballot.payload round = plainForm text ∧
          (ballot.payload round = text ↔ IsPlain text)) ∧
    ∀ (a b : Ballot) (r s : Nat), a.payload r = b.payload s ↔ a = b ∧ r % 256 = s % 256 := by
  refine ⟨?_, ?_, fun a b r s => payload_inj⟩
  · intro ballot round
    exact ⟨ofPayload_payload ballot round, ofPayload_marked ballot round⟩
  · intro text ballot check round hread hround
    have hplain := payload_of_ofPayload hread hround
    rw [hplain]
    exact ⟨rfl, plainForm_eq_self_iff⟩

/-- A text with a marker, a capital letter and two leading zero bytes. -/
theorem payload_round_trip_of_marked :
    ofPayload "0x2C0003000005" = .ok (⟨3, 5, by decide, by decide⟩, 44) ∧
      (⟨3, 5, by decide, by decide⟩ : Ballot).payload 300 = plainForm "0x2C0003000005" ∧
      plainForm "0x2C0003000005" = "2c000305" ∧ ¬ IsPlain "0x2C0003000005" := by
  have hread : ofPayload "0x2C0003000005" = .ok (⟨3, 5, by decide, by decide⟩, 44) := by
    rfl
  obtain ⟨hpayload, -⟩ := payload_round_trip.2.1 _ _ _ 300 hread rfl
  exact ⟨hread, hpayload, by decide, fun hplain => hplain.unmarked (by decide)⟩

end Ballot

end BallotConsensus
