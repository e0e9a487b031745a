import BallotConsensus.Proofs.Exploration.Optimum

/-!
# Nothing is left over

Whatever fits is added in two rounds: first the attestations that all
participants confirm, then the voters that confirm all inclusions.  Each round
has a say in what the other one may add, but one of each is enough.  The voters
that come in later confirm everything included, so they cannot make room for
another attestation: whoever kept it out still does.

None of this depends on where the assignment comes from.  It may lack a
majority, its participants need not confirm its inclusions, and it may carry any
worth.

* `Assignment.Extends` — flags are switched on and none off;
* `Assignment.Maximal` — nothing is left over that would fit, and
  `Assignment.Maximal.saturate_eq`: where nothing is left over, nothing is added;
* `Assignment.saturate_completes` — **what adding whatever fits achieves.**
-/

namespace BallotConsensus.Assignment

variable {a : Assignment} {r : Reduction}

/-- An assignment in which flags are switched on, compared to another one, and
none off. -/
structure Extends (b a : Assignment) : Prop where
  participants_length : b.participants.length = a.participants.length
  included_length : b.included.length = a.included.length
  participants : ∀ i : Nat, a.participants[i]? = some true → b.participants[i]? = some true
  included : ∀ j : Nat, a.included[j]? = some true → b.included[j]? = some true

/-- **Nothing is left over** that would fit. -/
structure Maximal (a : Assignment) (r : Reduction) : Prop where
  /-- What is left out, some participant does not confirm. -/
  attestations : ∀ j, j < r.attestations.length → a.included[j]? ≠ some true →
    r.confirmedByAll a.participants j = false
  /-- Who is left out does not confirm some inclusion. -/
  voters : ∀ (i : Nat) (voters : VoterGroup), r.voters[i]? = some voters →
    a.participants[i]? ≠ some true → Reduction.confirmsAll a.included voters = false

theorem saturate_extends (h : a.participants.length = r.voters.length) :
    (a.saturate r).Extends a where
  participants_length := (participants_length_saturate h).trans h.symm
  included_length := included_length_saturate a r
  participants i hflag := by
    have hi : i < r.voters.length := h ▸ (List.getElem?_eq_some_iff.mp hflag).1
    exact participants_le_saturate hi hflag
  included _ hflag := included_saturate.mpr (Or.inl hflag)

/-- Once whatever fits is added, nothing is left over.  An attestation that was
kept out by a participant is kept out by the same one afterwards. -/
theorem saturate_maximal (hparticipants : a.participants.length = r.voters.length)
    (hincluded : a.included.length = r.attestations.length) : (a.saturate r).Maximal r where
  attestations j hj hout := by
    rw [← Bool.not_eq_true]
    intro hconfirmed
    have hbefore : r.confirmedByAll a.participants j = true :=
      Reduction.confirmedByAll_anti (fun i hi hflag => participants_le_saturate hi hflag)
        hconfirmed
    exact hout (included_saturate.mpr (Or.inr ⟨hincluded ▸ hj, hbefore⟩))
  voters i voters hi hout := by
    rw [← Bool.not_eq_true]
    intro hall
    have hlt : i < a.participants.length := hparticipants ▸ (List.getElem?_eq_some_iff.mp hi).1
    exact hout ((participants_saturate hi).mpr (Or.inr ⟨hlt, hall⟩))

/-- **Where nothing is left over, nothing is added**, and the worth is that of the
flags. -/
theorem Maximal.saturate_eq (h : a.Maximal r)
    (hparticipants : a.participants.length = r.voters.length)
    (hincluded : a.included.length = r.attestations.length) :
    a.saturate r = { a with worth := r.worthOf a } := by
  have hsame : (a.saturate r).included = a.included := by
    refine Flags.ext_flagged (included_length_saturate a r) fun j => ?_
    rw [included_saturate, or_iff_left_iff_imp]
    intro hconfirmed
    by_contra hout
    have hkept := h.attestations j (hincluded ▸ hconfirmed.1) hout
    rw [hkept] at hconfirmed
    exact absurd hconfirmed.2 (by decide)
  have halike : (a.saturate r).participants = a.participants := by
    have hlength := (participants_length_saturate hparticipants).trans hparticipants.symm
    refine Flags.ext_flagged hlength fun i => ⟨fun hflag => ?_, fun hflag => ?_⟩
    · have hi : i < r.voters.length := by
        rw [← participants_length_saturate hparticipants]
        exact (List.getElem?_eq_some_iff.mp hflag).1
      have hvoters := List.getElem?_eq_getElem hi
      rw [participants_saturate hvoters, hsame] at hflag
      by_contra hout
      have hkept := h.voters i _ hvoters hout
      exact absurd (hflag.resolve_left hout).2 (by simp [hkept])
    · exact (saturate_extends hparticipants).participants i hflag
  have hworth : (a.saturate r).worth = r.worthOf a := by
    change r.worth (r.feesOf (a.saturate r).included) (r.weightOf (a.saturate r).participants) = _
    rw [hsame, halike]
    rfl
  rw [← hsame, ← halike, ← hworth]

/-- **What adding whatever fits achieves**, for any flags of the right numbers.
Flags are only switched on; the worth of the flags does not sink, and the new one
is stored; a backing is kept; nothing is left over; and doing it again changes
nothing. -/
theorem saturate_completes (hparticipants : a.participants.length = r.voters.length)
    (hincluded : a.included.length = r.attestations.length) :
    (a.saturate r).Extends a ∧
      r.worthOf a ≤ r.worthOf (a.saturate r) ∧
      (a.saturate r).worth = r.worthOf (a.saturate r) ∧
      (a.Backed r → (a.saturate r).Backed r) ∧
      (a.saturate r).Maximal r ∧
      (a.saturate r).saturate r = a.saturate r := by
  have hmaximal := saturate_maximal hparticipants hincluded
  refine ⟨saturate_extends hparticipants, worthOf_le_saturate a r, rfl, Backed.saturate,
    hmaximal, ?_⟩
  exact hmaximal.saturate_eq (participants_length_saturate hparticipants)
    ((included_length_saturate a r).trans hincluded)

/-- The first two of the three voters of which any two have one attestation in
common, with an attestation that only the first of them confirms. -/
def unbacked : Assignment := ⟨[true, true, false], [false, true, false], .zero⟩

/-- What the two have in common is added, and nobody else. -/
theorem saturate_completes_of_cycle :
    unbacked.participants.length = Reduction.cycle.voters.length ∧
      unbacked.included.length = Reduction.cycle.attestations.length ∧
      ¬ unbacked.Backed Reduction.cycle ∧
      unbacked.saturate Reduction.cycle = ⟨[true, true, false], [true, true, false], ⟨4, 4⟩⟩ ∧
      (unbacked.saturate Reduction.cycle).Maximal Reduction.cycle ∧
      (unbacked.saturate Reduction.cycle).saturate Reduction.cycle =
        unbacked.saturate Reduction.cycle := by
  have hparticipants : unbacked.participants.length = Reduction.cycle.voters.length := by
    decide +kernel
  have hincluded : unbacked.included.length = Reduction.cycle.attestations.length := by
    decide +kernel
  have hsecond : Reduction.cycle.confirmedByAll unbacked.participants 1 = false := by
    decide +kernel
  have hunbacked : ¬ unbacked.Backed Reduction.cycle := fun hbacked => by
    have hconfirmed := hbacked 1 rfl
    rw [hsecond] at hconfirmed
    exact absurd hconfirmed (by decide)
  obtain ⟨-, -, -, -, hmaximal, hagain⟩ := saturate_completes hparticipants hincluded
  exact ⟨hparticipants, hincluded, hunbacked, by decide +kernel, hmaximal, hagain⟩

end BallotConsensus.Assignment
