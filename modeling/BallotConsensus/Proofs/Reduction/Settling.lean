import Mathlib.Algebra.BigOperators.Group.List.Basic
import BallotConsensus.Reduction.Settling

/-!
# One pass settles everything

Passes over the open voters and attestations are repeated for as long as they
decide something, but the second pass never does.  Excluding and including
attestations and letting voters participate all leave the support of what
stays open as it was, and what one pass leaves open has a reason to stay
open that outlives the pass: an attestation that an undecided voter does not
confirm is itself undecided.

* `Standing.kept`, `Standing.certain`, … — the five lists that a pass makes,
  in closed form (`Standing.pass_eq`);
* `Standing.support_pass` — a pass keeps the support of what it keeps;
* `Standing.settle_eq_pass` — **settling is one pass**.
-/

namespace BallotConsensus.Standing

variable (s : Standing) (half : Nat)

/-- The open attestations with a majority behind them. -/
def kept : List Attestation := s.attestations.filter fun a => decide (half < s.support a)

/-- The open attestations without one. -/
def hopeless : List Attestation := s.attestations.filter fun a => !decide (half < s.support a)

/-- The open voters that confirm everything kept. -/
def certain : List Voter := s.voters.filter fun v => (s.kept half).all v.confirms

/-- The other open voters. -/
def undecided : List Voter := s.voters.filter fun v => !(s.kept half).all v.confirms

/-- What all undecided voters confirm, among what is kept. -/
def granted : List Attestation :=
  (s.kept half).filter fun a => (s.undecided half).all (·.confirms a)

/-- What some undecided voter does not confirm. -/
def contested : List Attestation :=
  (s.kept half).filter fun a => !(s.undecided half).all (·.confirms a)

/-- A pass in closed form. -/
theorem pass_eq : s.pass half =
    { voters := s.undecided half
      attestations := s.contested half
      settled := {
        weight := s.settled.weight + ((s.certain half).map (·.vote.weight)).sum
        fees := s.settled.fees + ((s.granted half).map (·.fee)).sum
        participants := s.settled.participants ++ (s.certain half).map (·.position)
        included := s.settled.included ++ (s.granted half).map (·.position)
        excluded := s.settled.excluded ++ (s.hopeless half).map (·.position) } } := by
  simp only [pass, List.partition_eq_filter_filter, kept, hopeless, certain, undecided, granted,
    contested]
  rfl

theorem voters_perm : (s.certain half ++ s.undecided half).Perm s.voters :=
  List.filter_append_perm _ _

theorem kept_perm : (s.granted half ++ s.contested half).Perm (s.kept half) :=
  List.filter_append_perm _ _

theorem attestations_perm : (s.kept half ++ s.hopeless half).Perm s.attestations :=
  List.filter_append_perm _ _

variable {s half}

theorem mem_kept {a : Attestation} : a ∈ s.kept half ↔ a ∈ s.attestations ∧ half < s.support a := by
  simp [kept]

theorem mem_certain {v : Voter} :
    v ∈ s.certain half ↔ v ∈ s.voters ∧ ∀ a ∈ s.kept half, v.confirms a = true := by
  simp [certain]

theorem mem_undecided {v : Voter} :
    v ∈ s.undecided half ↔ v ∈ s.voters ∧ ∃ a ∈ s.kept half, v.confirms a = false := by
  simp [undecided]

theorem mem_granted {a : Attestation} :
    a ∈ s.granted half ↔ a ∈ s.kept half ∧ ∀ v ∈ s.undecided half, v.confirms a = true := by
  simp [granted]

theorem mem_contested {a : Attestation} :
    a ∈ s.contested half ↔ a ∈ s.kept half ∧ ∃ v ∈ s.undecided half, v.confirms a = false := by
  simp [contested]

/-- **A pass keeps the support of what it keeps.**  The voters it lets
participate confirm everything kept, so they count before and after. -/
theorem support_pass {a : Attestation} (ha : a ∈ s.kept half) :
    (s.pass half).support a = s.support a := by
  have hcertain : (s.certain half).filter (·.confirms a) = s.certain half :=
    List.filter_eq_self.mpr fun v hv => (mem_certain.mp hv).2 a ha
  have hsplit : ((s.voters.filter (·.confirms a)).map (·.vote.weight)).sum =
      ((s.certain half).map (·.vote.weight)).sum +
        (((s.undecided half).filter (·.confirms a)).map (·.vote.weight)).sum := by
    have hperm := (voters_perm s half).filter (·.confirms a)
    rw [List.filter_append, hcertain] at hperm
    rw [← (hperm.map _).sum_eq, List.map_append, List.sum_append]
  rw [support, support, pass_eq, hsplit, Nat.add_assoc]

/-- A second pass keeps everything. -/
theorem kept_pass : (s.pass half).kept half = (s.pass half).attestations := by
  apply List.filter_eq_self.mpr
  intro a ha
  rw [pass_eq] at ha
  obtain ⟨hkept, -⟩ := mem_contested.mp ha
  rw [support_pass hkept]
  simpa using (mem_kept.mp hkept).2

/-- Who stays open has something open that it does not confirm. -/
theorem exists_unconfirmed_pass {v : Voter} (hv : v ∈ (s.pass half).voters) :
    ∃ a ∈ (s.pass half).attestations, v.confirms a = false := by
  rw [pass_eq] at hv ⊢
  obtain ⟨-, a, hkept, hnot⟩ := mem_undecided.mp hv
  exact ⟨a, mem_contested.mpr ⟨hkept, v, hv, hnot⟩, hnot⟩

/-- What stays open has somebody open that does not confirm it. -/
theorem exists_unconfirming_pass {a : Attestation} (ha : a ∈ (s.pass half).attestations) :
    ∃ v ∈ (s.pass half).voters, v.confirms a = false := by
  rw [pass_eq] at ha ⊢
  exact (mem_contested.mp ha).2

/-- After a second pass everybody is still undecided. -/
theorem undecided_pass : (s.pass half).undecided half = (s.pass half).voters := by
  apply List.filter_eq_self.mpr
  intro v hv
  obtain ⟨a, hopen, hnot⟩ := exists_unconfirmed_pass hv
  simp only [kept_pass, Bool.not_eq_true', List.all_eq_false]
  exact ⟨a, hopen, by simp [hnot]⟩

/-- After a second pass everything is still contested. -/
theorem contested_pass : (s.pass half).contested half = (s.pass half).attestations := by
  rw [contested, kept_pass]
  apply List.filter_eq_self.mpr
  intro a ha
  obtain ⟨v, hopen, hnot⟩ := exists_unconfirming_pass ha
  simp only [undecided_pass, Bool.not_eq_true', List.all_eq_false]
  exact ⟨v, hopen, by simp [hnot]⟩

/-- A pass that shortens nothing changes nothing. -/
theorem pass_eq_self (h : s.openCount ≤ (s.pass half).openCount) : s.pass half = s := by
  have hvoters : (s.undecided half).length ≤ s.voters.length := List.length_filter_le _ _
  have hkept : (s.kept half).length ≤ s.attestations.length := List.length_filter_le _ _
  have hcontested : (s.contested half).length ≤ (s.kept half).length := List.length_filter_le _ _
  have hcertain := (voters_perm s half).length_eq
  have hgranted := (kept_perm s half).length_eq
  have hhopeless := (attestations_perm s half).length_eq
  simp only [openCount, pass_eq, List.length_append] at h hcertain hgranted hhopeless
  have hnobody : s.certain half = [] := List.length_eq_zero_iff.mp (by omega)
  have hnothing : s.granted half = [] := List.length_eq_zero_iff.mp (by omega)
  have hnone : s.hopeless half = [] := List.length_eq_zero_iff.mp (by omega)
  have hall : s.undecided half = s.voters :=
    List.filter_sublist.eq_of_length (show (s.undecided half).length = _ by omega)
  have hevery : s.kept half = s.attestations :=
    List.filter_sublist.eq_of_length (show (s.kept half).length = _ by omega)
  have hopen : s.contested half = s.kept half :=
    List.filter_sublist.eq_of_length (show (s.contested half).length = _ by omega)
  rw [pass_eq, hnobody, hnothing, hnone, hall, hopen, hevery]
  simp

/-- **Settling is one pass.**  The second pass decides nothing. -/
theorem settle_eq_pass (s : Standing) (half : Nat) : s.settle half = s.pass half := by
  have hsecond : ¬ ((s.pass half).pass half).openCount < (s.pass half).openCount := by
    rw [openCount, pass_eq (s.pass half), undecided_pass, contested_pass]
    exact Nat.lt_irrefl _
  rw [settle]
  split
  · rw [settle, if_neg hsecond]
  · next hlast => exact (pass_eq_self (Nat.le_of_not_lt hlast)).symm

end BallotConsensus.Standing
