import Mathlib.Data.List.GetD
import BallotConsensus.Proofs.Agreement.Splitting

/-!
# Minorities steer nothing

An attestation that no majority confirms is excluded before anything is
searched.  More is true: it leaves no trace.  Striking it out of the round,
together with its fee and with what every ballot says about it, changes neither
who participates nor what else is included nor the worth, whatever the budget
and the seed.  So a minority cannot steer the search, however large the fee of
what it confirms.

* `Ballot.without` — a ballot with one attestation struck out;
* `Reduction.ofRound_without` — the round without the attestation reduces alike;
* `Agreement.reach_without_minority` — **minorities steer nothing.**
-/

namespace BallotConsensus

variable {votes : List WeightedBallot} {fees : List Nat} {total a : Nat}

/-! ## Striking out an attestation -/

/-- A ballot with one attestation struck out; those behind it move up. -/
def Ballot.without (ballot : Ballot) (a : Nat) : Ballot where
  length := (ballot.flags.eraseIdx a).length
  bits := Flags.toBits (ballot.flags.eraseIdx a)
  length_le := by
    refine Nat.le_trans (List.length_eraseIdx_le _ _) ?_
    exact ballot.length_flags ▸ ballot.length_le
  bits_lt := Flags.toBits_lt _

/-- A vote with one attestation struck out. -/
def WeightedBallot.without (vote : WeightedBallot) (a : Nat) : WeightedBallot :=
  { vote with ballot := vote.ballot.without a }

/-- The position at which an attestation stood before one was struck out. -/
def beforeStrike (a x : Nat) : Nat := if x < a then x else x + 1

theorem Ballot.length_without {ballot : Ballot} (ha : a < ballot.length) :
    (ballot.without a).length = ballot.length - 1 := by
  simp [without, List.length_eraseIdx, ha]

theorem Ballot.confirms_without (ballot : Ballot) (a x : Nat) :
    (ballot.without a).confirms x = ballot.confirms (beforeStrike a x) := by
  rw [confirms, without, Flags.testBit_toBits, ← getD_flags, List.getD_eq_getElem?_getD,
    List.getElem?_eraseIdx, List.getD_eq_getElem?_getD, beforeStrike]
  split <;> rfl

/-- The positions of the attestations that remain, before one is struck out. -/
def remaining (count a : Nat) : List Nat := (List.range count).eraseIdx a

theorem getD_remaining {count x : Nat} (hx : x < (remaining count a).length) :
    (remaining count a).getD x 0 = beforeStrike a x := by
  rw [List.getD_eq_getElem _ _ hx, beforeStrike]
  simp only [remaining, List.getElem_eraseIdx, List.getElem_range]
  split <;> rfl

theorem eraseIdx_eq_remaining (fees : List Nat) (a : Nat) :
    fees.eraseIdx a = (remaining fees.length a).map (fees.getD · 0) := by
  rw [remaining, ← List.eraseIdx_map, Flags.map_getD_range rfl]

theorem nodup_remaining (count a : Nat) : (remaining count a).Nodup :=
  List.nodup_range.sublist (List.eraseIdx_sublist _ _)

theorem lt_of_mem_remaining {count x : Nat} (hx : x ∈ remaining count a) : x < count :=
  List.mem_range.mp ((List.eraseIdx_sublist _ _).subset hx)

theorem filter_range_eq_remaining {count : Nat} (ha : a < count) :
    (List.range count).filter (· != a) = remaining count a := by
  have herase := List.nodup_range.erase_getElem a (by simpa using ha : a < (List.range count).length)
  rw [List.getElem_range] at herase
  rw [remaining, ← herase, List.nodup_range.erase_eq_filter]

/-- Flags of what remains are the flags without the one struck out. -/
theorem inOrder_remaining (flags : List Bool) (a : Nat) :
    Flags.inOrder (remaining flags.length a) flags = flags.eraseIdx a := by
  have hall := Flags.inOrder_range flags
  rw [Flags.inOrder] at hall ⊢
  rw [remaining, ← List.eraseIdx_map, hall]

/-- What no majority confirms is never included. -/
theorem Outcome.Stands.excludes_minority {o : Outcome} (h : o.Stands votes fees total)
    (ha : a < fees.length) (hminority : backing votes {a} ≤ total / 2) :
    o.included[a]? = some false := by
  have hlt : a < o.included.length := h.included_length ▸ ha
  rw [List.getElem?_eq_getElem hlt, Option.some.injEq, Bool.eq_false_iff]
  intro hincluded
  have hflag : o.included[a]? = some true := by rw [List.getElem?_eq_getElem hlt, hincluded]
  have hmember : {a} ⊆ o.inclusionSet :=
    Finset.singleton_subset_iff.mpr (mem_inclusionSet.mpr hflag)
  have hmajority := h.lt_weight hflag
  have hbacking := h.weight_le_backing.trans (backing_anti hmember)
  omega

/-! ## The round without the attestation -/

theorem weights_without (votes : List WeightedBallot) (a : Nat) :
    (votes.map (·.without a)).map (·.weight) = votes.map (·.weight) := by
  rw [List.map_map]
  rfl

/-- Whoever confirms an attestation that remains still does. -/
theorem confirmsAt_without (votes : List WeightedBallot) (a v x : Nat) :
    ConfirmsAt (votes.map (·.without a)) v x ↔ ConfirmsAt votes v (beforeStrike a x) := by
  simp only [ConfirmsAt, List.getElem?_map, Option.map_eq_some_iff]
  constructor
  · intro hconfirms vote hvote
    rw [← hconfirms (vote.without a) ⟨vote, hvote, rfl⟩]
    exact (Ballot.confirms_without _ _ _).symm
  · intro hconfirms vote' hvote'
    obtain ⟨vote, hvote, rfl⟩ := hvote'
    rw [← hconfirms vote hvote]
    exact Ballot.confirms_without _ _ _

/-- The contract is met without an attestation. -/
theorem Contract.Met.without (hmet : Contract.Met votes fees total) (ha : a < fees.length) :
    Contract.Met (votes.map (·.without a)) (fees.eraseIdx a) total where
  fees_le := (List.length_eraseIdx_le _ _).trans hmet.fees_le
  length_eq := by
    intro vote' hvote'
    obtain ⟨vote, hvote, rfl⟩ := List.mem_map.mp hvote'
    have hlength := hmet.length_eq vote hvote
    rw [List.length_eraseIdx_of_lt ha, ← hlength]
    exact Ballot.length_without (hlength ▸ ha)
  weight_le := by
    rw [weights_without]
    exact hmet.weight_le

/-- The attestations that remain are parts of themselves. -/
theorem remaining_parts (votes votes' : List WeightedBallot) (ha : a < fees.length) :
    Parts Attestation.position Attestation.fee (remaining fees.length a)
      (Standing.start votes' (fees.eraseIdx a)).attestations
      ((Standing.start votes fees).attestations.filter (·.position != a)) := by
  have hpositions : ((Standing.start votes fees).attestations.filter (·.position != a)).map
      (·.position) = remaining fees.length a := by
    rw [← filter_range_eq_remaining ha, ← Standing.start_attestation_positions votes fees,
      List.filter_map]
    rfl
  have hcount : (fees.eraseIdx a).length = (remaining fees.length a).length := by
    rw [eraseIdx_eq_remaining, List.length_map]
  refine .of_origin ?_ ?_ fun attestation hmem => ?_
  · rw [Standing.start_attestation_positions, hcount]
  · rw [hpositions, eraseDups_of_nodup (nodup_remaining _ _)]
  · have hremains : attestation.position ∈ remaining fees.length a := by
      rw [← hpositions]
      exact List.mem_map_of_mem hmem
    have hfee : fees.getD attestation.position 0 = attestation.fee := by
      rw [List.getD_eq_getElem?_getD,
        Standing.mem_start_attestations (List.mem_filter.mp hmem).1, Option.getD_some]
    rw [Standing.start_attestation_fees, eraseIdx_eq_remaining,
      Flags.sum_select_once (nodup_remaining _ _) hremains, hfee]

/-- **A round reduces alike without an attestation that no majority confirms.** -/
theorem Reduction.ofRound_without (ha : a < fees.length)
    (hminority : backing votes {a} ≤ total / 2) :
    (ofRound (votes.map (·.without a)) (fees.eraseIdx a) total).Finer (ofRound votes fees total)
      (List.range votes.length) (remaining fees.length a) := by
  have hsplits : Splits (List.range votes.length)
      ((votes.map (·.without a)).map (·.weight)) (votes.map (·.weight)) := by
    rw [weights_without]
    simpa using Splits.refl (votes.map (·.weight))
  refine ofRound_finer (·.position != a) ?_ (hsplits.voterParts _ _) (remaining_parts _ _ ha) ?_
  · intro attestation hkept
    have hmajority := (Standing.mem_kept.mp hkept).2
    rw [Standing.support_start] at hmajority
    have hother : attestation.position ≠ a := by
      intro heq
      rw [heq] at hmajority
      omega
    simpa using hother
  · intro v hv x hx
    have hremains : x < (remaining fees.length a).length := by
      rwa [eraseIdx_eq_remaining, List.length_map] at hx
    have hvoter : (List.range votes.length).getD v 0 = v := by
      have hlt : v < (List.range votes.length).length := by simpa using hv
      rw [List.getD_eq_getElem _ _ hlt, List.getElem_range]
    rw [getD_remaining hremains, hvoter]
    exact confirmsAt_without votes a v x

namespace Agreement

/-- **Minorities steer nothing.**  Where there is more than one attestation,
striking out one that no majority confirms changes neither the participants nor
the worth nor whether the outcome is optimal; what is included is the same but
for the attestation itself, which was not.  This holds whatever the budget and
the seed. -/
theorem reach_without_minority (hmet : Contract.Met votes fees total) (ha : a < fees.length)
    (hfees : 2 ≤ fees.length) (hminority : backing votes {a} ≤ total / 2) (budget : Nat)
    (seed : Seed) :
    ∃ before after, reach votes fees total budget seed = .ok before ∧
      reach (votes.map (·.without a)) (fees.eraseIdx a) total budget seed = .ok after ∧
      after.outcome.participants = before.outcome.participants ∧
      after.outcome.worth = before.outcome.worth ∧
      after.outcome.optimal = before.outcome.optimal ∧
      before.outcome.included[a]? = some false ∧
      after.outcome.included = before.outcome.included.eraseIdx a := by
  have hcount : (fees.eraseIdx a).length = fees.length - 1 := List.length_eraseIdx_of_lt ha
  have hnone : fees.eraseIdx a = [] ↔ fees = [] := by
    rw [← List.length_eq_zero_iff, ← List.length_eq_zero_iff, hcount]
    omega
  obtain ⟨before, after, hbefore, hafter, houtcome⟩ := reach_finer hmet (hmet.without ha)
    List.map_eq_nil_iff hnone (by simp)
    (by rw [eraseIdx_eq_remaining, List.length_map]) (fun v hv => List.mem_range.mp hv)
    (fun x hx => lt_of_mem_remaining hx) (Reduction.ofRound_without ha hminority) budget seed
  obtain ⟨agreement, hagreement, hstands⟩ := reach_stands hmet budget seed
  obtain rfl : before = agreement := Except.ok.inj (hbefore.symm.trans hagreement)
  refine ⟨before, after, hbefore, hafter, ?_, ?_, ?_, hstands.excludes_minority ha hminority, ?_⟩
  · rw [houtcome]
    change Flags.inOrder (List.range votes.length) before.outcome.participants = _
    rw [← hstands.participants_length, Flags.inOrder_range]
  · rw [houtcome]
    rfl
  · rw [houtcome]
    rfl
  · rw [houtcome]
    change Flags.inOrder (remaining fees.length a) before.outcome.included = _
    rw [← hstands.included_length, inOrder_remaining]

theorem reach_without_minority_of_nested :
    Contract.Met nestedVotes [1000, 5] 10 ∧ backing nestedVotes {0} ≤ 10 / 2 ∧
      ∃ before after, reach nestedVotes [1000, 5] 10 3 (.ofNumber 0) = .ok before ∧
        reach (nestedVotes.map (·.without 0)) [5] 10 3 (.ofNumber 0) = .ok after ∧
        after.outcome.participants = before.outcome.participants ∧
        after.outcome.worth = before.outcome.worth ∧
        after.outcome.included = before.outcome.included.eraseIdx 0 := by
  have hmet : Contract.Met nestedVotes [1000, 5] 10 := ⟨by decide, by decide, by decide⟩
  have hminority : backing nestedVotes {0} ≤ 10 / 2 := by decide
  obtain ⟨before, after, hbefore, hafter, hparticipants, hworth, -, -, hincluded⟩ :=
    reach_without_minority hmet (by decide : 0 < [1000, 5].length) (by decide) hminority 3
      (.ofNumber 0)
  exact ⟨hmet, hminority, before, after, hbefore, hafter, hparticipants, hworth, hincluded⟩

end Agreement

end BallotConsensus
