import BallotConsensus.Ballot.Payload
import BallotConsensus.Proofs.Round

/-!
# Ballots are canonical

A ballot can be filled in from its bits or from flags, read from a payload or
made of what two ballots agree on, and all of this can be nested.  However it was
obtained, its bits say nothing beyond its length, so there is only one way to
write down a set of confirmed attestations: ballots are equal exactly if they are
as long as each other and confirm the same.

Two of the four ways check that the bits are in range and two have no need to.
The proof is an induction on how a ballot was obtained, with one case for each.

* `Ballot.Obtained` — the ways to come by a ballot, and `Ballot.Obtained.lt_length`:
  **nothing is said beyond the length**;
* `Ballot.Obtained.ofFlags_flags` — filling in the flags of a ballot gives it back;
* `Ballot.both_comm`, `Ballot.both_assoc`, `Ballot.both_self` — agreeing is
  intersecting;
* `Ballot.fees_eq_feesOver`, `Ballot.fees_eq_add` — what a ballot costs, and how two
  ballots share it out;
* `Ballot.Obtained.canonical` — **ballots are canonical.**
-/

namespace BallotConsensus.Ballot

variable {a b ballot : Ballot}

/-! ## What each way to come by a ballot gives -/

theorem ofBits_eq_ok {length bits : Nat} {length_le : length ≤ ballotCapacity}
    (h : ofBits length bits length_le = .ok ballot) :
    ballot.length = length ∧ ballot.bits = bits ∧ bits < 2 ^ length := by
  rw [ofBits] at h
  split at h
  · next bits_lt =>
      obtain rfl := Except.ok.inj h
      exact ⟨rfl, rfl, bits_lt⟩
  · cases h

theorem ofFlags_eq_ok {flags : List Bool} (h : ofFlags flags = .ok ballot) :
    ballot.length = flags.length ∧ ballot.bits = Flags.toBits flags := by
  rw [ofFlags] at h
  split at h
  · obtain rfl := Except.ok.inj h
    exact ⟨rfl, rfl⟩
  · cases h

/-- **A ballot filled in from flags confirms what is flagged.** -/
theorem confirms_ofFlags {flags : List Bool} (h : ofFlags flags = .ok ballot) (i : Nat) :
    ballot.confirms i = true ↔ flags[i]? = some true := by
  rw [confirms, (ofFlags_eq_ok h).2, Flags.testBit_toBits, Flags.getD_eq_true]

/-- A ballot that is read from a payload is filled in from bits. -/
theorem exists_ofBits_of_ofPayload {text : String} {check : Nat}
    (h : ofPayload text = .ok (ballot, check)) :
    ∃ (length bits : Nat) (length_le : length ≤ ballotCapacity),
      ofBits length bits length_le = .ok ballot := by
  rw [ofPayload] at h
  split at h
  · next bytes _ =>
      unfold ofPayloadBytes at h
      split at h
      · split at h
        · next hballot =>
            obtain ⟨rfl, -⟩ := Prod.mk.inj (Except.ok.inj h)
            exact ⟨_, _, _, hballot⟩
        · cases h
      · cases h
  · cases h

/-- **The ways to come by a ballot**, in any nesting. -/
inductive Obtained : Ballot → Prop
  | fromBits {length bits : Nat} {length_le : length ≤ ballotCapacity} {ballot : Ballot}
      (h : ofBits length bits length_le = .ok ballot) : Obtained ballot
  | fromFlags {flags : List Bool} {ballot : Ballot} (h : ofFlags flags = .ok ballot) :
      Obtained ballot
  | fromPayload {text : String} {ballot : Ballot} {check : Nat}
      (h : ofPayload text = .ok (ballot, check)) : Obtained ballot
  | agreed {a b : Ballot} (ha : Obtained a) (hb : Obtained b) : Obtained (a.both b)

/-- Bits in range say nothing beyond the length. -/
theorem lt_length_of_ofBits {length bits : Nat} {length_le : length ≤ ballotCapacity}
    (h : ofBits length bits length_le = .ok ballot) {i : Nat} (hi : ballot.confirms i = true) :
    i < ballot.length := by
  obtain ⟨hlength, hbits, hrange⟩ := ofBits_eq_ok h
  rw [confirms, hbits] at hi
  rw [hlength]
  exact (Nat.pow_lt_pow_iff_right (by decide)).mp
    (Nat.lt_of_le_of_lt (Nat.ge_two_pow_of_testBit hi) hrange)

/-- **Nothing is said beyond the length**, however a ballot was obtained. -/
theorem Obtained.lt_length (h : Obtained ballot) {i : Nat} (hi : ballot.confirms i = true) :
    i < ballot.length := by
  induction h with
  | fromBits h => exact lt_length_of_ofBits h hi
  | fromFlags h =>
      rw [confirms_ofFlags h] at hi
      exact (ofFlags_eq_ok h).1 ▸ (List.getElem?_eq_some_iff.mp hi).1
  | fromPayload h =>
      obtain ⟨_, _, _, hballot⟩ := exists_ofBits_of_ofPayload h
      exact lt_length_of_ofBits hballot hi
  | agreed _ _ iha _ =>
      rw [confirms_both, Bool.and_eq_true] at hi
      exact Nat.lt_of_lt_of_le (iha hi.1) (Nat.le_max_left _ _)

/-! ## Ballots are known by what they confirm -/

theorem eq_of_confirms (hlength : a.length = b.length) (h : ∀ i, a.confirms i = b.confirms i) :
    a = b := by
  rcases a with ⟨length, bits, _, _⟩
  rcases b with ⟨length', bits', _, _⟩
  obtain rfl : length = length' := hlength
  obtain rfl : bits = bits' := Nat.eq_of_testBit_eq h
  rfl

/-- **Ballots are equal iff they are as long as each other and confirm the same** as
far as they go. -/
theorem Obtained.eq_iff (ha : Obtained a) (hb : Obtained b) :
    a = b ↔ a.length = b.length ∧ ∀ i, i < a.length → a.confirms i = b.confirms i := by
  constructor
  · rintro rfl
    exact ⟨rfl, fun _ _ => rfl⟩
  · intro hsame
    obtain ⟨hlength, hconfirms⟩ := hsame
    refine eq_of_confirms hlength fun i => ?_
    by_cases hi : i < a.length
    · exact hconfirms i hi
    · rw [Bool.eq_false_iff.mpr (mt ha.lt_length hi),
        Bool.eq_false_iff.mpr (mt hb.lt_length (hlength ▸ hi))]

/-- **Filling in the flags of a ballot gives it back.** -/
theorem Obtained.ofFlags_flags (h : Obtained ballot) : ofFlags ballot.flags = .ok ballot := by
  obtain ⟨filled, hfilled⟩ : ∃ filled, ofFlags ballot.flags = .ok filled :=
    ⟨_, dif_pos (ballot.length_flags ▸ ballot.length_le)⟩
  have hsame : filled.length = ballot.length :=
    (ofFlags_eq_ok hfilled).1.trans ballot.length_flags
  rw [hfilled, ((Obtained.fromFlags hfilled).eq_iff h).mpr ⟨hsame, fun i hi => ?_⟩]
  rw [Bool.eq_iff_iff, confirms_ofFlags hfilled]
  simp [flags, hsame ▸ hi]

/-! ## What two ballots agree on -/

@[simp] theorem length_both (a b : Ballot) : (a.both b).length = max a.length b.length := rfl

theorem both_comm (a b : Ballot) : a.both b = b.both a :=
  eq_of_confirms (Nat.max_comm _ _) fun i => by simp [Bool.and_comm]

theorem both_assoc (a b c : Ballot) : (a.both b).both c = a.both (b.both c) :=
  eq_of_confirms (Nat.max_assoc _ _ _) fun i => by simp [Bool.and_assoc]

theorem both_self (a : Ballot) : a.both a = a :=
  eq_of_confirms (Nat.max_self _) fun i => by simp

/-! ## What ballots cost -/

/-- **A ballot costs the fees of the attestations that it confirms**, as far as they
have fees. -/
theorem fees_eq_feesOver (ballot : Ballot) (fees : List Nat) :
    ballot.fees fees =
      feesOver fees ((Finset.range fees.length).filter (ballot.confirms · = true)) := by
  have hselect : ballot.fees fees =
      (Flags.select fees (fees.zipIdx.map fun e => ballot.confirms e.2)).sum := by
    rw [Flags.select_map_zipIdx]
    simp only [Ballot.fees]
    induction fees.zipIdx with
    | nil => rfl
    | cons pair pairs ih =>
        rcases pair with ⟨fee, j⟩
        cases hj : ballot.confirms j <;> simp [hj, ih]
  rw [hselect, Flags.sum_select, feesOver, Finset.sum_filter]
  refine Finset.sum_congr rfl fun i hi => ?_
  simp [Finset.mem_range.mp hi]

/-- **What a ballot costs**, it costs for what another ballot confirms as well and
for what the other one does not. -/
theorem fees_eq_add (a b : Ballot) (fees : List Nat) :
    a.fees fees = (a.both b).fees fees + feesOver fees
      ((Finset.range fees.length).filter fun i => a.confirms i = true ∧ b.confirms i = false) := by
  have hsplit := Finset.sum_filter_add_sum_filter_not
    ((Finset.range fees.length).filter (a.confirms · = true)) (b.confirms · = true)
    (fees.getD · 0)
  rw [Finset.filter_filter, Finset.filter_filter] at hsplit
  rw [fees_eq_feesOver, fees_eq_feesOver, feesOver, feesOver, feesOver, ← hsplit]
  simp

/-! ## Canonical ballots -/

/-- **Ballots are canonical**, however they were obtained.  Nothing is said beyond
the length; filling in the flags gives the ballot back; ballots are equal iff they
are as long as each other and confirm the same; agreeing is intersecting; and a
ballot costs the fees of what it confirms, which another ballot shares out. -/
theorem Obtained.canonical (ha : Obtained a) :
    (∀ i, a.confirms i = true → i < a.length) ∧
      ofFlags a.flags = .ok a ∧
      (∀ b, Obtained b →
        (a = b ↔ a.length = b.length ∧ ∀ i, i < a.length → a.confirms i = b.confirms i)) ∧
      (∀ b, (a.both b).length = max a.length b.length ∧
        (∀ i, (a.both b).confirms i = true ↔ a.confirms i = true ∧ b.confirms i = true) ∧
        a.both b = b.both a ∧ ∀ c, (a.both b).both c = a.both (b.both c)) ∧
      a.both a = a ∧
      ∀ fees, a.fees fees =
          feesOver fees ((Finset.range fees.length).filter (a.confirms · = true)) ∧
        ∀ b, a.fees fees = (a.both b).fees fees + feesOver fees
          ((Finset.range fees.length).filter fun i =>
            a.confirms i = true ∧ b.confirms i = false) := by
  refine ⟨fun i => ha.lt_length, ha.ofFlags_flags, fun b hb => ha.eq_iff hb, fun b => ?_,
    both_self a, fun fees => ⟨fees_eq_feesOver a fees, fun b => fees_eq_add a b fees⟩⟩
  exact ⟨length_both a b, fun i => by simp, both_comm a b, both_assoc a b⟩

/-- What a ballot of three flags and a published ballot on five attestations agree
on is the third attestation, on a ballot as long as the second one. -/
theorem Obtained.canonical_of_agreement :
    ∃ filled read : Ballot, ofFlags [true, false, true] = .ok filled ∧
      ofPayload "0x09000516" = .ok (read, 9) ∧ Obtained (filled.both read) ∧
      ofFlags [false, false, true, false, false] = .ok (filled.both read) ∧
      (filled.both read).both filled = filled.both (filled.both read) ∧
      (filled.both read).fees [1, 2, 4] = 4 := by
  let filled : Ballot := ⟨3, 0b101, by decide, by decide⟩
  let read : Ballot := ⟨5, 0b10110, by decide, by decide⟩
  have hfilled : ofFlags [true, false, true] = .ok filled := by decide
  have hread : ofPayload "0x09000516" = .ok (read, 9) := by rfl
  have hobtained : Obtained (filled.both read) :=
    .agreed (.fromFlags hfilled) (.fromPayload hread)
  obtain ⟨-, hrefilled, -, hagreed, -, hfees⟩ := hobtained.canonical
  have hthird : (filled.both read).flags = [false, false, true, false, false] := by decide
  have hfour : feesOver [1, 2, 4] ((Finset.range 3).filter ((filled.both read).confirms · = true)) =
      4 := by decide
  exact ⟨filled, read, hfilled, hread, hobtained, hthird ▸ hrefilled, (hagreed filled).2.2.1,
    (hfees _).1.trans hfour⟩

end BallotConsensus.Ballot
