import BallotConsensus.Hex

/-!
# Hexadecimal text reads back

Every digit that is written is one byte of text, and it is read as the value
that it was written for.  So the two digits of a byte are read as that byte,
and a whole text as the bytes that it was written for.  Conversely, what is read
is written back in small letters, and only text of one byte per character is
read at all.

* `Hex.textOf` — written digits as they are transmitted, and
  `Hex.utf8_encode`: that is how text is encoded;
* `Hex.decode_encode` — **what is written is read back**;
* `Hex.encode_of_decode` — **what is read is written back** in small letters,
  with `Hex.latin_of_utf8`: there are no characters but digits in it.
-/

namespace BallotConsensus.Hex

/-- Characters as they are transmitted, one byte each. -/
def textOf (digits : List Char) : List UInt8 := digits.map fun c => UInt8.ofNat c.toNat

/-- A written digit is read as its value. -/
theorem digitValue?_digit {value : UInt8} (h : value < 16) :
    digitValue? (UInt8.ofNat (digit value).toNat) = some value := by
  have hall : ∀ n < 16, digitValue? (UInt8.ofNat (digit (UInt8.ofNat n)).toNat) =
      some (UInt8.ofNat n) := by decide
  have hvalue := hall value.toNat (UInt8.lt_iff_toNat_lt.mp h)
  rwa [UInt8.ofNat_toNat] at hvalue

/-- A written digit is a character of the Latin alphabet. -/
theorem digit_toNat_lt {value : UInt8} (h : value < 16) : (digit value).toNat < 128 := by
  have hall : ∀ n < 16, (digit (UInt8.ofNat n)).toNat < 128 := by decide
  have hvalue := hall value.toNat (UInt8.lt_iff_toNat_lt.mp h)
  rwa [UInt8.ofNat_toNat] at hvalue

theorem high_lt (byte : UInt8) : byte / 16 < 16 := by
  rw [UInt8.lt_iff_toNat_lt, UInt8.toNat_div]
  have := byte.toNat_lt
  simp only [UInt8.reduceToNat]
  omega

theorem low_lt (byte : UInt8) : byte % 16 < 16 := by
  rw [UInt8.lt_iff_toNat_lt, UInt8.toNat_mod]
  simp only [UInt8.reduceToNat]
  omega

/-- The two halves of a byte are the byte. -/
theorem high_low (byte : UInt8) : 16 * (byte / 16) + byte % 16 = byte := by
  rw [← UInt8.toNat_inj, UInt8.toNat_add, UInt8.toNat_mul, UInt8.toNat_div, UInt8.toNat_mod]
  have := byte.toNat_lt
  simp only [UInt8.reduceToNat]
  omega

theorem decodePairs_encode (bytes : List UInt8) (position : Nat) :
    decodePairs position (textOf (encode bytes)) = .ok bytes := by
  induction bytes generalizing position with
  | nil => rfl
  | cons byte bytes ih =>
      have hhigh := digitValue?_digit (high_lt byte)
      have hlow := digitValue?_digit (low_lt byte)
      change decodePairs position (UInt8.ofNat (digit (byte / 16)).toNat ::
        UInt8.ofNat (digit (byte % 16)).toNat :: textOf (encode bytes)) = _
      simp only [decodePairs, hhigh, hlow, ih, high_low]
      rfl

theorem length_encode (bytes : List UInt8) : (encode bytes).length = 2 * bytes.length := by
  induction bytes with
  | nil => rfl
  | cons byte bytes ih =>
      change (encode bytes).length + 2 = 2 * (bytes.length + 1)
      omega

/-- **What is written is read back.** -/
theorem decode_encode (bytes : List UInt8) : decode (textOf (encode bytes)) = .ok bytes := by
  have heven : (textOf (encode bytes)).length % 2 = 0 := by
    rw [textOf, List.length_map, length_encode]
    omega
  rw [decode, if_pos heven, decodePairs_encode]

theorem mem_encode {bytes : List UInt8} {c : Char} (h : c ∈ encode bytes) :
    ∃ value < 16, c = digit value := by
  obtain ⟨byte, -, hc⟩ := List.mem_flatMap.mp h
  rcases List.mem_cons.mp hc with rfl | hc
  · exact ⟨_, high_lt byte, rfl⟩
  · exact ⟨_, low_lt byte, List.mem_singleton.mp hc⟩

/-- Characters of the Latin alphabet are transmitted as one byte each. -/
theorem utf8_of_lt {digits : List Char} (h : ∀ c ∈ digits, c.toNat < 128) :
    (String.ofList digits).toUTF8.data.toList = textOf digits := by
  have hsingle : ∀ c ∈ digits, String.utf8EncodeChar c = [UInt8.ofNat c.toNat] := by
    intro c hc
    exact if_pos (Nat.le_of_lt_succ (h c hc))
  have hflat : digits.flatMap String.utf8EncodeChar = textOf digits := by
    rw [List.flatMap_def, List.map_congr_left hsingle, ← List.flatMap_def, textOf,
      List.map_eq_flatMap]
  simp [String.toUTF8, List.utf8Encode, hflat]

/-- A written text is transmitted digit by digit. -/
theorem utf8_encode (bytes : List UInt8) :
    (String.ofList (encode bytes)).toUTF8.data.toList = textOf (encode bytes) := by
  apply utf8_of_lt
  intro c hc
  obtain ⟨value, hvalue, rfl⟩ := mem_encode hc
  exact digit_toNat_lt hvalue

/-! ## What is read is written back in small letters -/

/-- A digit that is read has one of sixteen values, and it is written back as the
small letter or the figure that it is. -/
theorem digit_of_digitValue? {c : Char} {value : UInt8} (hc : c.toNat < 128)
    (h : digitValue? (UInt8.ofNat c.toNat) = some value) :
    value < 16 ∧ digit value = c.toLower := by
  have hall : ∀ n < 128, ∀ value ∈ digitValue? (UInt8.ofNat n),
      value < 16 ∧ digit value = (Char.ofNat n).toLower := by
    decide +kernel
  have hdigit := hall c.toNat hc value h
  rwa [Char.ofNat_toNat] at hdigit

/-- Only zero is written as the figure zero. -/
theorem eq_zero_of_digit {value : UInt8} (hvalue : value < 16) (h : digit value = '0') :
    value = 0 := by
  have hread := digitValue?_digit hvalue
  rw [h] at hread
  exact (Option.some.inj hread).symm

/-- Digits are characters of the Latin alphabet. -/
theorem lt_of_digitValue? {byte value : UInt8} (h : digitValue? byte = some value) :
    byte.toNat < 128 := by
  simp only [digitValue?, Bool.and_eq_true, decide_eq_true_eq, UInt8.le_iff_toNat_le] at h
  split at h
  · next hfigure => exact Nat.lt_of_le_of_lt hfigure.2 (by decide)
  · split at h
    · next hsmall => exact Nat.lt_of_le_of_lt hsmall.2 (by decide)
    · split at h
      · next hcapital => exact Nat.lt_of_le_of_lt hcapital.2 (by decide)
      · cases h

theorem encode_append (bytes more : List UInt8) :
    encode (bytes ++ more) = encode bytes ++ encode more :=
  List.flatMap_append

/-- A pair of digits that is read, and what is read after it. -/
theorem decodePairs_cons_cons {position : Nat} {high low : UInt8} {text bytes : List UInt8}
    (h : decodePairs position (high :: low :: text) = .ok bytes) :
    ∃ a b rest, digitValue? high = some a ∧ digitValue? low = some b ∧
      decodePairs (position + 2) text = .ok rest ∧ bytes = (16 * a + b) :: rest := by
  rw [decodePairs] at h
  split at h
  · cases h
  · cases h
  · next a b ha hb =>
      cases hrest : decodePairs (position + 2) text with
      | error error => simp [hrest, Except.map] at h
      | ok rest =>
          rw [hrest] at h
          exact ⟨a, b, rest, ha, hb, rfl, (Except.ok.inj h).symm⟩

/-- The halves of a byte that is put together from two digits. -/
theorem high_of_digits {a b : UInt8} (ha : a < 16) (hb : b < 16) :
    (16 * a + b) / 16 = a ∧ (16 * a + b) % 16 = b := by
  rw [UInt8.lt_iff_toNat_lt] at ha hb
  simp only [← UInt8.toNat_inj, UInt8.toNat_div, UInt8.toNat_mod, UInt8.toNat_add, UInt8.toNat_mul,
    UInt8.reduceToNat] at ha hb ⊢
  omega

/-- Whatever is read consists of characters of the Latin alphabet.  Digits are read
two at a time, and so is the recursion. -/
theorem lt_of_decodePairs {position : Nat} {bytes : List UInt8} : ∀ {text : List UInt8},
    text.length % 2 = 0 → decodePairs position text = .ok bytes → ∀ b ∈ text, b.toNat < 128
  | [], _, _ => by simp
  | [_], heven, _ => by simp at heven
  | high :: low :: text, heven, h => by
      obtain ⟨a, b, rest, ha, hb, hrest, -⟩ := decodePairs_cons_cons h
      rw [List.length_cons, List.length_cons] at heven
      have hlater := lt_of_decodePairs (by omega : text.length % 2 = 0) hrest
      intro byte hbyte
      rcases List.mem_cons.mp hbyte with rfl | hbyte
      · exact lt_of_digitValue? ha
      · rcases List.mem_cons.mp hbyte with rfl | hbyte
        · exact lt_of_digitValue? hb
        · exact hlater byte hbyte

theorem encode_of_decodePairs {position : Nat} {bytes : List UInt8} : ∀ {digits : List Char},
    (∀ c ∈ digits, c.toNat < 128) → digits.length % 2 = 0 →
      decodePairs position (textOf digits) = .ok bytes → encode bytes = digits.map Char.toLower
  | [], _, _, h => by
      obtain rfl := Except.ok.inj h
      rfl
  | [_], _, heven, _ => by simp at heven
  | high :: low :: digits, hlatin, heven, h => by
      obtain ⟨a, b, rest, ha, hb, hrest, rfl⟩ := decodePairs_cons_cons h
      rw [List.length_cons, List.length_cons] at heven
      have hlater := encode_of_decodePairs
        (fun c hc => hlatin c (List.mem_cons_of_mem _ (List.mem_cons_of_mem _ hc)))
        (by omega : digits.length % 2 = 0) hrest
      obtain ⟨ha16, hhigh⟩ := digit_of_digitValue? (hlatin high (by simp)) ha
      obtain ⟨hb16, hlow⟩ := digit_of_digitValue? (hlatin low (by simp)) hb
      obtain ⟨hdiv, hmod⟩ := high_of_digits ha16 hb16
      change digit ((16 * a + b) / 16) :: digit ((16 * a + b) % 16) :: encode rest = _
      rw [hdiv, hmod, hhigh, hlow, hlater]
      rfl

/-- **What is read is written back in small letters.** -/
theorem encode_of_decode {digits : List Char} {bytes : List UInt8}
    (hlatin : ∀ c ∈ digits, c.toNat < 128) (h : decode (textOf digits) = .ok bytes) :
    encode bytes = digits.map Char.toLower := by
  rw [decode] at h
  split at h
  · next heven =>
      exact encode_of_decodePairs hlatin (by simpa [textOf] using heven) h
  · cases h

/-- Whatever is read consists of characters of the Latin alphabet. -/
theorem lt_of_decode {text bytes : List UInt8} (h : decode text = .ok bytes) :
    ∀ b ∈ text, b.toNat < 128 := by
  rw [decode] at h
  split at h
  · next heven => exact lt_of_decodePairs heven h
  · cases h

/-- Text is transmitted character by character. -/
theorem toUTF8_eq_flatMap (text : String) :
    text.toUTF8.data.toList = text.toList.flatMap String.utf8EncodeChar := by
  have hflat : (String.ofList text.toList).toUTF8.data.toList =
      text.toList.flatMap String.utf8EncodeChar := by
    simp only [String.toUTF8, String.toByteArray_ofList, List.utf8Encode, List.data_toByteArray]
  rwa [String.ofList_toList] at hflat

/-- A character beyond the Latin alphabet does not even start with a byte of it. -/
theorem toNat_lt_of_utf8_head {c : Char}
    (h : ∀ b ∈ (String.utf8EncodeChar c).head?, b.toNat < 128) : c.toNat < 128 := by
  have hvalue : c.val.toNat = c.toNat := rfl
  unfold String.utf8EncodeChar at h
  dsimp only at h
  -- Longer sequences start with a byte that is not below 128.
  split at h
  · omega
  · split at h
    · have hfirst := h _ rfl
      rw [UInt8.toNat_ofNat'] at hfirst
      omega
    · split at h
      · have hfirst := h _ rfl
        rw [UInt8.toNat_ofNat'] at hfirst
        omega
      · have hfirst := h _ rfl
        rw [UInt8.toNat_ofNat'] at hfirst
        omega

/-- A character beyond the Latin alphabet is not transmitted in bytes of it. -/
theorem toNat_lt_of_utf8 {c : Char} (h : ∀ b ∈ String.utf8EncodeChar c, b.toNat < 128) :
    c.toNat < 128 :=
  toNat_lt_of_utf8_head fun b hb => h b (List.mem_of_mem_head? hb)

/-- What starts with a byte of the Latin alphabet starts with its character. -/
theorem eq_of_utf8_cons {c : Char} {b : UInt8} {tail rest : List UInt8} (hb : b.toNat < 128)
    (h : String.utf8EncodeChar c ++ tail = b :: rest) :
    c.toNat = b.toNat ∧ tail = rest := by
  have hlength := String.length_utf8EncodeChar c
  have hpos := c.utf8Size_pos
  cases hencoded : String.utf8EncodeChar c with
  | nil =>
      rw [hencoded, List.length_nil] at hlength
      omega
  | cons first more =>
      rw [hencoded, List.cons_append, List.cons.injEq] at h
      obtain ⟨rfl, rfl⟩ := h
      have hc : c.toNat < 128 := toNat_lt_of_utf8_head (by simpa [hencoded] using hb)
      have hsingle : String.utf8EncodeChar c = [UInt8.ofNat c.toNat] :=
        if_pos (Nat.le_of_lt_succ hc)
      obtain ⟨rfl, rfl⟩ := List.cons.inj (hencoded.symm.trans hsingle)
      refine ⟨?_, rfl⟩
      rw [UInt8.toNat_ofNat']
      omega

/-- Text that is transmitted in bytes of the Latin alphabet consists of its
characters, one for each byte. -/
theorem latin_of_utf8 {text : String} (h : ∀ b ∈ text.toUTF8.data.toList, b.toNat < 128) :
    ∀ c ∈ text.toList, c.toNat < 128 := by
  intro c hc
  refine toNat_lt_of_utf8 fun b hb => h b ?_
  rw [toUTF8_eq_flatMap]
  exact List.mem_flatMap.mpr ⟨c, hc, hb⟩

end BallotConsensus.Hex
