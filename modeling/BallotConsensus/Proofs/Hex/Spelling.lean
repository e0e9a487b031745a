import BallotConsensus.Proofs.Hex

/-!
# What hexadecimal text spells

Hexadecimal text spells bytes, each by two digits, and every digit stands for one
value, whether it is a small or a capital letter.  A text spells bytes exactly if
it has an even number of bytes and all of them are digits; it spells no more than
one list of them.  Reading finds what is spelled, or the first reason why nothing
is: an odd number of bytes, whatever they are, and then the first one that is no
digit.

* `Hex.IsDigit`, `Hex.Stands` — digits and their values;
* `Hex.Spells`, `Hex.exists_spells_iff` — **the texts that spell something**;
* `Hex.Reads`, `Hex.decode_eq_iff` — **what reading comes to**;
* `Hex.exists_error_iff` — the texts that are refused.
-/

namespace BallotConsensus.Hex

/-! ## Digits -/

/-- The bytes of digits: figures, small letters up to `f` and capital letters up
to `F`. -/
def IsDigit (byte : UInt8) : Prop :=
  ('0'.toNat ≤ byte.toNat ∧ byte.toNat ≤ '9'.toNat) ∨
  ('a'.toNat ≤ byte.toNat ∧ byte.toNat ≤ 'f'.toNat) ∨
  ('A'.toNat ≤ byte.toNat ∧ byte.toNat ≤ 'F'.toNat)

instance (byte : UInt8) : Decidable (IsDigit byte) := inferInstanceAs (Decidable (_ ∨ _ ∨ _))

/-- **What a digit stands for.** -/
inductive Stands (byte : UInt8) : Nat → Prop
  | figure {i : Nat} : i < 10 → byte.toNat = '0'.toNat + i → Stands byte i
  | small {i : Nat} : i < 6 → byte.toNat = 'a'.toNat + i → Stands byte (10 + i)
  | capital {i : Nat} : i < 6 → byte.toNat = 'A'.toNat + i → Stands byte (10 + i)

theorem Stands.lt {byte : UInt8} {value : Nat} (h : Stands byte value) : value < 16 := by
  cases h <;> omega

/-- Every digit stands for something, and nothing else does. -/
theorem exists_stands_iff {byte : UInt8} : (∃ value, Stands byte value) ↔ IsDigit byte := by
  constructor
  · intro hstands
    obtain ⟨value, hvalue⟩ := hstands
    cases hvalue <;> simp only [IsDigit, Char.reduceToNat] at * <;> omega
  · intro hdigit
    rcases hdigit with hfigure | hsmall | hcapital
    · obtain ⟨i, hi⟩ := Nat.exists_eq_add_of_le hfigure.1
      simp only [Char.reduceToNat] at *
      exact ⟨i, .figure (by omega) hi⟩
    · obtain ⟨i, hi⟩ := Nat.exists_eq_add_of_le hsmall.1
      simp only [Char.reduceToNat] at *
      exact ⟨10 + i, .small (by omega) hi⟩
    · obtain ⟨i, hi⟩ := Nat.exists_eq_add_of_le hcapital.1
      simp only [Char.reduceToNat] at *
      exact ⟨10 + i, .capital (by omega) hi⟩

/-- A digit is read as what it stands for. -/
theorem digitValue?_of_stands {byte : UInt8} {value : Nat} (h : Stands byte value) :
    digitValue? byte = some (UInt8.ofNat value) := by
  have hfigure : ∀ i < 10, digitValue? (UInt8.ofNat ('0'.toNat + i)) = some (UInt8.ofNat i) := by
    decide
  have hsmall : ∀ i < 6, digitValue? (UInt8.ofNat ('a'.toNat + i)) =
      some (UInt8.ofNat (10 + i)) := by decide
  have hcapital : ∀ i < 6, digitValue? (UInt8.ofNat ('A'.toNat + i)) =
      some (UInt8.ofNat (10 + i)) := by decide
  cases h with
  | figure hi hbyte => rw [← hfigure _ hi, ← hbyte, UInt8.ofNat_toNat]
  | small hi hbyte => rw [← hsmall _ hi, ← hbyte, UInt8.ofNat_toNat]
  | capital hi hbyte => rw [← hcapital _ hi, ← hbyte, UInt8.ofNat_toNat]

/-- What is no digit is not read. -/
theorem digitValue?_of_not_isDigit {byte : UInt8} (h : ¬ IsDigit byte) :
    digitValue? byte = none := by
  simp only [IsDigit, Char.reduceToNat] at h
  simp only [digitValue?, Bool.and_eq_true, decide_eq_true_eq, UInt8.le_iff_toNat_le,
    UInt8.reduceToNat]
  rw [if_neg (by omega), if_neg (by omega), if_neg (by omega)]

/-! ## Spelling -/

/-- **What a text spells**: each byte by two digits, the high half first. -/
inductive Spells : List UInt8 → List UInt8 → Prop
  | nil : Spells [] []
  | cons {high low byte : UInt8} {a b : Nat} {text bytes : List UInt8} :
      Stands high a → Stands low b → byte.toNat = 16 * a + b → Spells text bytes →
      Spells (high :: low :: text) (byte :: bytes)

/-- Text of an even number of digits spells something.  Digits spell two at a time,
and so is the recursion. -/
theorem exists_spells : ∀ {text : List UInt8}, text.length % 2 = 0 → (∀ b ∈ text, IsDigit b) →
    ∃ bytes, Spells text bytes
  | [], _, _ => ⟨[], .nil⟩
  | [_], heven, _ => by simp at heven
  | high :: low :: text, heven, hdigits => by
      rw [List.length_cons, List.length_cons] at heven
      obtain ⟨a, ha⟩ := exists_stands_iff.mpr (hdigits high (by simp))
      obtain ⟨b, hb⟩ := exists_stands_iff.mpr (hdigits low (by simp))
      obtain ⟨bytes, hbytes⟩ := exists_spells (by omega : text.length % 2 = 0)
        fun c hc => hdigits c (List.mem_cons_of_mem _ (List.mem_cons_of_mem _ hc))
      have hbyte : (UInt8.ofNat (16 * a + b)).toNat = 16 * a + b := by
        have := ha.lt
        have := hb.lt
        rw [UInt8.toNat_ofNat']
        omega
      exact ⟨_, .cons ha hb hbyte hbytes⟩

/-- **The texts that spell something.** -/
theorem exists_spells_iff {text : List UInt8} : (∃ bytes, Spells text bytes) ↔
    text.length % 2 = 0 ∧ ∀ b ∈ text, IsDigit b := by
  refine ⟨?_, fun hdigits => exists_spells hdigits.1 hdigits.2⟩
  rintro ⟨bytes, hspells⟩
  induction hspells with
  | nil => simp
  | cons hhigh hlow _ _ ih =>
      refine ⟨by simpa [Nat.add_assoc] using ih.1, ?_⟩
      intro c hc
      rcases List.mem_cons.mp hc with rfl | hc
      · exact exists_stands_iff.mp ⟨_, hhigh⟩
      · rcases List.mem_cons.mp hc with rfl | hc
        · exact exists_stands_iff.mp ⟨_, hlow⟩
        · exact ih.2 c hc

/-! ## Reading -/

/-- **What reading a text comes to.** -/
inductive Reads (text : List UInt8) : Except Error (List UInt8) → Prop
  /-- An odd number of bytes is refused, whatever they are. -/
  | oddLength : text.length % 2 = 1 → Reads text (.error .oddLength)
  /-- Otherwise the first byte that is no digit is refused, with its position. -/
  | invalidDigit {before after : List UInt8} {byte : UInt8} : text.length % 2 = 0 →
      text = before ++ byte :: after → (∀ b ∈ before, IsDigit b) → ¬ IsDigit byte →
      Reads text (.error (.invalidDigit byte before.length))
  | spelled {bytes : List UInt8} : Spells text bytes → Reads text (.ok bytes)

theorem decodePairs_of_spells {text bytes : List UInt8} (h : Spells text bytes) (position : Nat) :
    decodePairs position text = .ok bytes := by
  induction h generalizing position with
  | nil => rfl
  | @cons high low byte a b text bytes hhigh hlow hbyte _ ih =>
      have hread : 16 * UInt8.ofNat a + UInt8.ofNat b = byte := by
        have := hhigh.lt
        have := hlow.lt
        rw [← UInt8.toNat_inj, hbyte, UInt8.toNat_add, UInt8.toNat_mul, UInt8.toNat_ofNat',
          UInt8.toNat_ofNat']
        simp only [UInt8.reduceToNat]
        omega
      simp only [decodePairs, digitValue?_of_stands hhigh, digitValue?_of_stands hlow, ih, hread]
      rfl

/-- Reading ends at the first byte that is no digit.  The recursion is on the digits
before it, two at a time. -/
theorem decodePairs_of_not_isDigit {byte : UInt8} {after : List UInt8} (hbyte : ¬ IsDigit byte) :
    ∀ {before : List UInt8} (position : Nat), (before ++ byte :: after).length % 2 = 0 →
      (∀ b ∈ before, IsDigit b) → decodePairs position (before ++ byte :: after) =
        .error (.invalidDigit byte (position + before.length))
  | [], position, heven, _ => by
      obtain ⟨low, rest, rfl⟩ : ∃ low rest, after = low :: rest :=
        List.exists_cons_of_ne_nil (by rintro rfl; simp at heven)
      simp [decodePairs, digitValue?_of_not_isDigit hbyte]
  | [high], position, _, hdigits => by
      obtain ⟨a, ha⟩ := exists_stands_iff.mpr (hdigits high (by simp))
      simp [decodePairs, digitValue?_of_stands ha, digitValue?_of_not_isDigit hbyte]
  | high :: low :: before, position, heven, hdigits => by
      obtain ⟨a, ha⟩ := exists_stands_iff.mpr (hdigits high (by simp))
      obtain ⟨b, hb⟩ := exists_stands_iff.mpr (hdigits low (by simp))
      rw [List.cons_append, List.cons_append, List.length_cons, List.length_cons] at heven
      have hrest := decodePairs_of_not_isDigit hbyte (position + 2)
        (by omega : (before ++ byte :: after).length % 2 = 0)
        fun c hc => hdigits c (List.mem_cons_of_mem _ (List.mem_cons_of_mem _ hc))
      have hposition :
          position + 2 + before.length = position + (high :: low :: before).length := by
        rw [List.length_cons, List.length_cons]
        omega
      rw [List.cons_append, List.cons_append, decodePairs, digitValue?_of_stands ha,
        digitValue?_of_stands hb, hrest, hposition]
      rfl

theorem decode_of_reads {text : List UInt8} {result : Except Error (List UInt8)}
    (h : Reads text result) : decode text = result := by
  cases h with
  | oddLength hodd => exact if_neg (by omega)
  | invalidDigit heven htext hdigits hbyte =>
      rw [decode, if_pos heven, htext,
        decodePairs_of_not_isDigit hbyte 0 (htext ▸ heven) hdigits, Nat.zero_add]
  | spelled hspells =>
      rw [decode, if_pos (exists_spells_iff.mp ⟨_, hspells⟩).1, decodePairs_of_spells hspells]

/-- Reading always comes to something. -/
theorem exists_reads (text : List UInt8) : ∃ result, Reads text result := by
  rcases Nat.mod_two_eq_zero_or_one text.length with heven | hodd
  · cases hfind : text.find? fun b => !decide (IsDigit b) with
    | none =>
        have hdigits : ∀ b ∈ text, IsDigit b := by simpa [List.find?_eq_none] using hfind
        obtain ⟨bytes, hbytes⟩ := exists_spells heven hdigits
        exact ⟨_, .spelled hbytes⟩
    | some byte =>
        rw [List.find?_eq_some_iff_append] at hfind
        obtain ⟨hbyte, before, after, htext, hbefore⟩ := hfind
        exact ⟨_, .invalidDigit heven htext (by simpa using hbefore) (by simpa using hbyte)⟩
  · exact ⟨_, .oddLength hodd⟩

/-- **What reading comes to.** -/
theorem decode_eq_iff {text : List UInt8} {result : Except Error (List UInt8)} :
    decode text = result ↔ Reads text result := by
  refine ⟨fun hdecode => ?_, decode_of_reads⟩
  obtain ⟨other, hother⟩ := exists_reads text
  rwa [← hdecode, decode_of_reads hother]

/-- **The texts that are refused.** -/
theorem exists_error_iff {text : List UInt8} : (∃ error, Reads text (.error error)) ↔
    text.length % 2 = 1 ∨ ∃ byte ∈ text, ¬ IsDigit byte := by
  constructor
  · intro hrefused
    obtain ⟨error, herror⟩ := hrefused
    cases herror with
    | oddLength hodd => exact Or.inl hodd
    | invalidDigit _ htext _ hbyte => exact Or.inr ⟨_, by simp [htext], hbyte⟩
  · intro hfails
    obtain ⟨result, hresult⟩ := exists_reads text
    cases hresult with
    | oddLength hodd => exact ⟨_, .oddLength hodd⟩
    | invalidDigit heven htext hdigits hbyte =>
        exact ⟨_, .invalidDigit heven htext hdigits hbyte⟩
    | spelled hspells =>
        obtain ⟨heven, hdigits⟩ := exists_spells_iff.mp ⟨_, hspells⟩
        rcases hfails with hodd | ⟨byte, hmem, hbyte⟩
        · omega
        · exact absurd (hdigits byte hmem) hbyte

end BallotConsensus.Hex
