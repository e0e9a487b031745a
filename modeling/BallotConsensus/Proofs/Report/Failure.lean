import BallotConsensus.Proofs.Admission
import BallotConsensus.Proofs.Exploration.Nodes
import BallotConsensus.Proofs.Report

/-!
# What a round can fail for

A round fails for what its organisers decide: a signing policy that weighs too
much, or too many fees.  It never fails for what its voters send.  Whatever
messages a collector was sent, the ballots that it counts pass every check of the
agreement, the searches look up nothing in vain and outweigh nobody, and what they
agree on fits into a ballot.

* `Collector.Prepared`, `Reception.Collected.prepared` — **what can be relied on
  after any messages**;
* `Collector.agree_eq_error_iff` — agreeing fails for too many fees only;
* `Report.ofRound_eq_error_iff` — the two reasons, and which of them is told;
* `Report.ofRound_fails_iff` — **no message makes a round fail.**
-/

namespace BallotConsensus

variable {c : Collector} {fees : List Nat} {messages : List Submission} {r : Reception}

/-- The reduction of the ballots that a collector counts. -/
def Collector.reduction (c : Collector) (fees : List Nat) : Reduction :=
  Reduction.ofRound (c.counted fees.length) fees c.total

/-- **A collector that is prepared for an agreement** on some fees. -/
structure Collector.Prepared (c : Collector) (fees : List Nat) (budget : Nat) : Prop where
  /-- Every counted ballot covers the attestations of the round and has weight. -/
  covers : ∀ vote ∈ c.counted fees.length, vote.ballot.length = fees.length ∧ 0 < vote.weight
  weight_le : ((c.counted fees.length).map (·.weight)).sum ≤ c.total
  /-- At no node of a search by attestations is anything looked up in vain or too
  heavy. -/
  attestation_nodes : ∀ rest node, (c.reduction fees).byAttestations.IsNode
    ((c.reduction fees).entriesAt ((c.reduction fees).drawnOrder (Seed.ofRound c.round)))
    (c.reduction fees).wholeCoalition rest node → node.Within (c.reduction fees) rest
  /-- Nor at any node of a search by voters. -/
  voter_nodes : ∀ rest node, (c.reduction fees).byVoters.IsNode (c.reduction fees).voters
    (c.reduction fees).wholeSupport rest node → node.Within (c.reduction fees) rest
  /-- Agreeing fails for too many fees only. -/
  agree_error : ∀ error, c.agree fees budget = .error error ↔
    ballotCapacity < fees.length ∧ error = .contract (.tooManyAttestations fees.length)
  /-- What is agreed has one flag for each counted ballot, and fits into one. -/
  agreed : ∀ agreement, c.agree fees budget = .ok agreement →
    agreement.outcome.participants.length = (c.counted fees.length).length ∧
      ∃ ballot, agreement.outcome.ballot = .ok ballot

/-- Too many fees are refused before anything else is looked at. -/
theorem Agreement.reach_of_too_many_fees (votes : List WeightedBallot)
    (hfees : ballotCapacity < fees.length) (total budget : Nat) (seed : Seed) :
    reach votes fees total budget seed =
      .error (.contract (.tooManyAttestations fees.length)) := by
  have hcheck : Contract.check votes fees total = .error (.tooManyAttestations fees.length) :=
    if_pos hfees
  simp only [reach, hcheck]

namespace Reception.Collected

/-- **Agreeing fails for too many fees only**, whatever messages were received. -/
theorem agree_eq_error_iff (h : Collected c messages r) (budget : Nat) (error : AgreementError) :
    r.collector.agree fees budget = .error error ↔
      ballotCapacity < fees.length ∧ error = .contract (.tooManyAttestations fees.length) := by
  rcases Nat.lt_or_ge ballotCapacity fees.length with hfees | hfees
  · rw [Collector.agree, Agreement.reach_of_too_many_fees _ hfees, Except.error.injEq, eq_comm]
    exact (and_iff_right hfees).symm
  · obtain ⟨agreement, hreach, -⟩ :=
      Agreement.reach_stands (h.met hfees) budget (Seed.ofRound r.collector.round)
    rw [Collector.agree, hreach]
    constructor
    · intro herror
      cases herror
    · intro hmany
      exact absurd hmany.1 (Nat.not_lt.mpr hfees)

/-- **A collector is prepared for an agreement**, whatever messages it
received. -/
theorem prepared (h : Collected c messages r) (fees : List Nat) (budget : Nat) :
    r.collector.Prepared fees budget where
  covers vote hvote := ⟨eq_of_beq (List.mem_filter.mp hvote).2, vote.weight_pos⟩
  weight_le := h.counted_weight_le fees.length
  attestation_nodes _ _ := Reduction.within_byAttestations
    (Reduction.weight_ofRound_le fees (h.counted_weight_le fees.length))
    (Reduction.drawnOrder_perm _ _)
  voter_nodes _ _ := Reduction.within_byVoters
    (Reduction.weight_ofRound_le fees (h.counted_weight_le fees.length))
  agree_error := h.agree_eq_error_iff budget
  agreed agreement hagree := by
    have hfees := Agreement.fees_le_of_reach hagree
    obtain ⟨other, hreach, hstands⟩ :=
      Agreement.reach_stands (h.met hfees) budget (Seed.ofRound r.collector.round)
    obtain rfl := Except.ok.inj (hagree.symm.trans hreach)
    exact ⟨hstands.participants_length, _, dif_pos (hstands.included_length ▸ hfees)⟩

end Reception.Collected

namespace Report

open Reception

variable {d : RoundDescription} {report : Report}

/-- A round that its signing policy does not keep from being opened has a
report unless it has too many fees. -/
theorem ofReception_eq_error_iff (h : Collected c messages r) (budget : Nat)
    (error : ReportError) : ofReception r fees budget = .error error ↔
      ballotCapacity < fees.length ∧
        error = .agreement (.contract (.tooManyAttestations fees.length)) := by
  rcases Nat.lt_or_ge ballotCapacity fees.length with hfees | hfees
  · rw [ofReception, (h.agree_eq_error_iff budget _).mpr ⟨hfees, rfl⟩, Except.error.injEq, eq_comm]
    exact (and_iff_right hfees).symm
  · obtain ⟨outcome, ballot, -, -, hreport⟩ := exists_ofReception h hfees budget
    rw [hreport]
    constructor
    · intro herror
      cases herror
    · intro hmany
      exact absurd hmany.1 (Nat.not_lt.mpr hfees)

/-- **What a round fails for**, and which of two reasons is told. -/
theorem ofRound_eq_error_iff (d : RoundDescription) (budget : Nat) (error : ReportError) :
    (ofRound d budget).1 = .error error ↔
      largestWeight < d.weights.sum ∧ error = .signingPolicy ∨
      d.weights.sum ≤ largestWeight ∧ ballotCapacity < d.fees.length ∧
        error = .agreement (.contract (.tooManyAttestations d.fees.length)) := by
  rcases Nat.lt_or_ge largestWeight d.weights.sum with hweights | hweights
  · have hopen : Collector.open? d.round d.weights = none := if_neg (Nat.not_le.mpr hweights)
    rw [ofRound_eq_error hopen, Except.error.injEq, eq_comm]
    simp [hweights]
  · have hopen : Collector.open? d.round d.weights = some ⟨d.round, d.weights, []⟩ :=
      Collector.open?_eq_some.mpr ⟨hweights, rfl⟩
    have hcollected := ofMessages_collected (c := ⟨d.round, d.weights, []⟩) rfl d.messages
    rw [ofRound_eq hopen, ofReception_eq_error_iff hcollected]
    simp [hweights]

/-- Every message is refused or accepted. -/
theorem refused_add_accepted (h : Collected c messages r) {budget : Nat}
    (hreport : ofReception r fees budget = .ok report) :
    report.refused + messages.countP c.accepts = messages.length := by
  obtain ⟨outcome, ballot, -, -, hother⟩ :=
    exists_ofReception h (fees_le_of_ofReception hreport) budget
  obtain rfl := Except.ok.inj (hother.symm.trans hreport)
  have hrefused : r.refused = messages.countP fun m => decide ¬ c.accepts m = true := by
    rw [h.refused_eq]
    exact List.countP_congr fun m _ => by simp
  change r.refused + _ = _
  rw [hrefused, Nat.add_comm]
  exact (List.length_eq_countP_add_countP c.accepts).symm

/-- **No message makes a round fail.**  It fails if and only if its signing policy
weighs too much or it has too many fees.  Where it does not fail, every message is
refused or accepted; and whatever messages a collector has been sent before, it
accepts the same ones and is prepared for an agreement. -/
theorem ofRound_fails_iff (d : RoundDescription) (budget : Nat) :
    ((∃ error, (ofRound d budget).1 = .error error) ↔
      largestWeight < d.weights.sum ∨ ballotCapacity < d.fees.length) ∧
    (∀ report, (ofRound d budget).1 = .ok report →
      ∃ c, Collector.open? d.round d.weights = some c ∧
        report.refused + d.messages.countP c.accepts = d.messages.length) ∧
    ∀ c, Collector.open? d.round d.weights = some c → ∀ (messages : List Submission),
      (∀ m, (ofMessages c messages).collector.accepts m = c.accepts m) ∧
      ∀ fees, (ofMessages c messages).collector.Prepared fees budget := by
  refine ⟨?_, ?_, ?_⟩
  · simp only [ofRound_eq_error_iff]
    constructor
    · rintro ⟨error, ⟨hweights, -⟩ | ⟨-, hfees, -⟩⟩
      · exact Or.inl hweights
      · exact Or.inr hfees
    · intro hfails
      rcases Nat.lt_or_ge largestWeight d.weights.sum with hweights | hweights
      · exact ⟨_, Or.inl ⟨hweights, rfl⟩⟩
      · exact ⟨_, Or.inr ⟨hweights, hfails.resolve_left (Nat.not_lt.mpr hweights), rfl⟩⟩
  · intro report hreport
    cases hopen : Collector.open? d.round d.weights with
    | none => simp [ofRound_eq_error hopen] at hreport
    | some c =>
        have hcollected := ofMessages_collected (Collector.held_of_opened hopen) d.messages
        rw [ofRound_eq hopen] at hreport
        exact ⟨c, rfl, refused_add_accepted hcollected hreport⟩
  · intro c hopen messages
    have hcollected := ofMessages_collected (Collector.held_of_opened hopen) messages
    refine ⟨fun m => ?_, fun fees => hcollected.prepared fees budget⟩
    rw [Bool.eq_iff_iff, Collector.accepts_iff, Collector.accepts_iff, hcollected.round_eq,
      hcollected.weights_eq]

/-- Five of seven messages are refused, and there is a report. -/
theorem ofRound_fails_iff_of_retraction :
    ∃ report, (ofRound ⟨300, [1, 0, 2], [5], retracted⟩ 100).1 = .ok report ∧
      report.refused = 5 := by
  obtain ⟨hfails, hcount, -⟩ := ofRound_fails_iff ⟨300, [1, 0, 2], [5], retracted⟩ 100
  have hlimits : ¬ (largestWeight < [1, 0, 2].sum ∨ ballotCapacity < [5].length) := by decide
  cases hreport : (ofRound ⟨300, [1, 0, 2], [5], retracted⟩ 100).1 with
  | error error => exact absurd (hfails.mp ⟨error, hreport⟩) hlimits
  | ok report =>
      obtain ⟨c, hopen, hsum⟩ := hcount report hreport
      obtain rfl := (Collector.open?_eq_some.mp hopen).2
      have haccepted : retracted.countP (Collector.accepts ⟨300, [1, 0, 2], []⟩) = 2 := by
        decide +kernel
      rw [haccepted] at hsum
      exact ⟨report, rfl, Nat.add_right_cancel (hsum : report.refused + 2 = 5 + 2)⟩

end Report

end BallotConsensus
