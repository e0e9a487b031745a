import BallotConsensus.Proofs.Agreement
import BallotConsensus.Proofs.Ballot.Payload
import BallotConsensus.Proofs.Reception

/-!
# What a report can be relied on for

Everything that is published for a round follows from what its reception comes
to.  So nodes that receive the messages of each voter in the same order publish
the same report, in whatever order the voters come.  And what is published is
true of the messages themselves: the participating voters did confirm, in their
last accepted messages, all that is included, they are a majority if anything
is, and the payload reads back as the inclusions.

* `Report.ofReception` — the report that a reception comes to;
* `Report.ofRound_arrival` — **the order of arrival does not matter** across
  voters;
* `Report.Sound`, `Report.ofRound_sound` — **reports are sound.**
-/

namespace BallotConsensus.Report

open Reception

variable {c : Collector} {d : RoundDescription} {budget : Nat} {fees : List Nat}
  {messages : List Submission} {r r' : Reception} {report : Report}

/-! ## Reports follow from receptions -/

/-- The report that a reception comes to. -/
def ofReception (r : Reception) (fees : List Nat) (budget : Nat) : Except ReportError Report :=
  match r.collector.agree fees budget with
  | .error error => .error (.agreement error)
  | .ok agreement => ofAgreement r (r.collector.counted fees.length) agreement

theorem ofRound_eq_error (h : Collector.open? d.round d.weights = none) (budget : Nat) :
    (ofRound d budget).1 = .error .signingPolicy := by
  simp only [ofRound, h]

theorem ofRound_eq (h : Collector.open? d.round d.weights = some c) (budget : Nat) :
    (ofRound d budget).1 = ofReception (ofMessages c d.messages) d.fees budget := by
  simp only [ofRound, h, ofReception]
  cases (ofMessages c d.messages).collector.agree d.fees budget <;> rfl

/-- What is held and how much was refused is all that is reported. -/
theorem ofReception_congr (hcollector : r.collector = r'.collector)
    (hrefused : r.refused = r'.refused) (fees : List Nat) (budget : Nat) :
    ofReception r fees budget = ofReception r' fees budget := by
  simp only [ofReception, ofAgreement, hcollector, hrefused]

/-- A reception without too many fees has the report on an outcome that stands
up to the counted ballots. -/
theorem exists_ofReception (h : Collected c messages r) (hfees : fees.length ≤ ballotCapacity)
    (budget : Nat) :
    ∃ (outcome : Outcome) (ballot : Ballot),
      outcome.Stands (r.collector.counted fees.length) fees c.weights.sum ∧
        outcome.ballot = .ok ballot ∧
        ofReception r fees budget = .ok {
          round := c.round
          payload := ballot.payload c.round
          voters := outcome.voters (r.collector.counted fees.length)
          refused := r.refused
          outcome } := by
  have htotal : r.collector.total = c.weights.sum := by rw [Collector.total, h.weights_eq]
  obtain ⟨agreement, hreach, hstands⟩ :=
    Agreement.reach_stands (h.met hfees) budget (Seed.ofRound c.round)
  have hballot : agreement.outcome.ballot = .ok _ := dif_pos (hstands.included_length ▸ hfees)
  refine ⟨agreement.outcome, _, htotal ▸ hstands, hballot, ?_⟩
  simp only [ofReception, Collector.agree, h.round_eq, hreach, ofAgreement, hballot]

/-- Only rounds without too many fees have a report. -/
theorem fees_le_of_ofReception (h : ofReception r fees budget = .ok report) :
    fees.length ≤ ballotCapacity := by
  unfold ofReception at h
  cases hagree : r.collector.agree fees budget with
  | error error => simp [hagree] at h
  | ok agreement => exact Agreement.fees_le_of_reach hagree

/-! ## The order of arrival -/

/-- Messages to a round of four voters: the first voter changes its mind, and
two messages are refused. -/
def revised : List Submission :=
  [⟨0, 700, "bc000303"⟩, ⟨1, 700, "bc000305"⟩, ⟨3, 699, "bb000307"⟩, ⟨0, 700, "bc000305"⟩,
    ⟨4, 700, "bc000307"⟩, ⟨2, 700, "bc000306"⟩]

/-- The same messages, but those of the first voter come last. -/
def delayed : List Submission :=
  [⟨4, 700, "bc000307"⟩, ⟨2, 700, "bc000306"⟩, ⟨1, 700, "bc000305"⟩, ⟨3, 699, "bb000307"⟩,
    ⟨0, 700, "bc000303"⟩, ⟨0, 700, "bc000305"⟩]

/-- **The order of arrival does not matter** across voters: as long as the
messages of each voter come in the same order, the round comes to the same
report, or to the same error. -/
theorem ofRound_arrival {messages messages' : List Submission} (hperm : messages.Perm messages')
    (hsender : ∀ sender, messages.filter (·.sender == sender) =
      messages'.filter (·.sender == sender)) (round : Nat) (weights fees : List Nat)
    (budget : Nat) :
    (ofRound ⟨round, weights, fees, messages⟩ budget).1 =
      (ofRound ⟨round, weights, fees, messages'⟩ budget).1 := by
  cases hopen : Collector.open? round weights with
  | none => rw [ofRound_eq_error hopen, ofRound_eq_error hopen]
  | some c =>
      have hempty : c.held = [] := by rw [(Collector.open?_eq_some.mp hopen).2]
      have h := ofMessages_collected hempty messages
      have h' := ofMessages_collected hempty messages'
      rw [ofRound_eq hopen, ofRound_eq hopen]
      exact ofReception_congr (h.collector_eq h' hsender) (h.refused_eq_of_perm h' hperm) fees
        budget

theorem ofRound_arrival_of_delay :
    revised.Perm delayed ∧
      (∀ sender, revised.filter (·.sender == sender) = delayed.filter (·.sender == sender)) ∧
      (ofRound ⟨700, [2, 2, 1, 1], [10, 1, 4], revised⟩ 100).1 =
        (ofRound ⟨700, [2, 2, 1, 1], [10, 1, 4], delayed⟩ 100).1 := by
  have hperm : revised.Perm delayed := by decide
  have hsender : ∀ sender, revised.filter (·.sender == sender) =
      delayed.filter (·.sender == sender) := by
    intro sender
    rcases sender with _ | _ | _ | _ | _ | sender <;> rfl
  exact ⟨hperm, hsender, ofRound_arrival hperm hsender 700 [2, 2, 1, 1] [10, 1, 4] 100⟩

/-! ## Soundness -/

/-- **A report that holds of the messages of its round.** -/
structure Sound (report : Report) (c : Collector) (fees : List Nat)
    (messages : List Submission) : Prop where
  ascending : report.voters.Pairwise (· < ·)
  /-- The last accepted message of a participating voter covers the attestations
  of the round and confirms all inclusions. -/
  confirms : ∀ voter ∈ report.voters, ∃ m ballot,
    c.lastAccepted messages voter = some m ∧
      Ballot.ofPayload m.payload = .ok (ballot, checkByte c.round) ∧
      ballot.length = fees.length ∧
      ∀ x : Nat, report.outcome.included[x]? = some true → ballot.confirms x = true
  /-- If anything is included, the participating voters weigh more than half. -/
  majority : (∃ x : Nat, report.outcome.included[x]? = some true) →
    c.weights.sum < 2 * (report.voters.map (c.weights.getD · 0)).sum
  /-- The payload reads back as the inclusions, with the check of the round. -/
  readable : ∃ ballot, Ballot.ofPayload report.payload = .ok (ballot, c.round % 256) ∧
    ballot.length = fees.length ∧
    ∀ x : Nat, ballot.confirms x = true ↔ report.outcome.included[x]? = some true
  /-- Whatever is held in the round, the payload is accepted from any voter with
  weight. -/
  acceptable : ∀ (other : Collector) (sender weight : Nat), other.round = c.round →
    other.weights = c.weights → c.weights[sender]? = some weight → 0 < weight →
      ∃ next, other.receive ⟨sender, c.round, report.payload⟩ = .ok next

/-- Participants have a counted ballot, and confirm what is included. -/
theorem of_mem_participating {outcome : Outcome} {n total : Nat}
    (hstands : outcome.Stands (r.collector.counted n) fees total) {vote : WeightedBallot}
    (hvote : vote ∈ outcome.participating (r.collector.counted n)) :
    vote ∈ r.collector.held ∧ vote.ballot.length = n ∧
      ∀ x : Nat, outcome.included[x]? = some true → vote.confirms x = true := by
  rw [Outcome.participating_eq] at hvote
  obtain ⟨v, hv, hflag⟩ := Flags.mem_select.mp hvote
  obtain ⟨hheld, hcovers⟩ := List.mem_filter.mp (List.mem_of_getElem? hv)
  exact ⟨hheld, eq_of_beq hcovers, fun x hx => hstands.confirms v x hflag hx vote hv⟩

/-- The report that a reception comes to is sound. -/
theorem sound_of_ofReception (hcollected : Collected c messages r)
    (h : ofReception r fees budget = .ok report) : report.Sound c fees messages := by
  obtain ⟨outcome, ballot, hstands, hballot, hreport⟩ :=
    exists_ofReception hcollected (fees_le_of_ofReception h) budget
  obtain rfl := Except.ok.inj (hreport.symm.trans h)
  have hlength : ballot.length = fees.length :=
    (Ballot.ofFlags_eq_ok hballot).1.trans hstands.included_length
  have hread := Ballot.ofPayload_payload ballot c.round
  refine ⟨?_, ?_, ?_, ?_, ?_⟩
  · change ((outcome.participating _).map _).Pairwise _
    rw [List.pairwise_map, Outcome.participating_eq]
    exact (hcollected.counted_ascending fees.length).sublist (Flags.select_sublist _ _)
  · intro voter hvoter
    obtain ⟨vote, hvote, rfl⟩ := List.mem_map.mp hvoter
    obtain ⟨hheld, hcovers, hconfirms⟩ := of_mem_participating hstands hvote
    obtain ⟨m, hlast, hm⟩ := (hcollected.mem_held vote).mp hheld
    exact ⟨m, vote.ballot, hlast, (Collector.examine_eq_ok.mp hm).2.2.2, hcovers, hconfirms⟩
  · intro hincluded
    obtain ⟨x, hx⟩ := hincluded
    have hweight : outcome.weight (r.collector.counted fees.length) =
        ((outcome.voters (r.collector.counted fees.length)).map (c.weights.getD · 0)).sum := by
      rw [Outcome.weight, Outcome.voters, Collector.map_weight_eq]
      intro vote hvote
      exact hcollected.weight_eq (of_mem_participating hstands hvote).1
    exact hweight ▸ hstands.lt_weight hx
  · exact ⟨ballot, hread, hlength, Outcome.confirms_ballot hballot⟩
  · intro other sender weight hround hweights hsender hpos
    have hexamine : c.examine ⟨sender, c.round, ballot.payload c.round⟩ =
        .ok ⟨sender, weight, ballot, hpos⟩ :=
      Collector.examine_eq_ok.mpr ⟨rfl, rfl, hsender, hread⟩
    rw [Collector.receive, Collector.examine_eq hround hweights, hexamine]
    exact ⟨_, rfl⟩

/-- **Reports are sound.** -/
theorem ofRound_sound (h : (ofRound d budget).1 = .ok report) :
    ∃ c, Collector.open? d.round d.weights = some c ∧ report.Sound c d.fees d.messages := by
  cases hopen : Collector.open? d.round d.weights with
  | none => simp [ofRound_eq_error hopen] at h
  | some c =>
      have hempty : c.held = [] := by rw [(Collector.open?_eq_some.mp hopen).2]
      rw [ofRound_eq hopen] at h
      exact ⟨c, rfl, sound_of_ofReception (ofMessages_collected hempty d.messages) h⟩

theorem ofRound_sound_of_revision :
    ∃ report, (ofRound ⟨700, [2, 2, 1, 1], [10, 1, 4], revised⟩ 100).1 = .ok report ∧
      report.voters = [0, 1] ∧ report.payload = "bc000305" ∧
      ∃ c, Collector.open? 700 [2, 2, 1, 1] = some c ∧ report.Sound c [10, 1, 4] revised := by
  have hrun : (ofRound ⟨700, [2, 2, 1, 1], [10, 1, 4], revised⟩ 100).1.toOption.map
      (fun report => (report.voters, report.payload)) = some ([0, 1], "bc000305") := by
    decide +kernel
  cases hreport : (ofRound ⟨700, [2, 2, 1, 1], [10, 1, 4], revised⟩ 100).1 with
  | error error =>
      rw [hreport] at hrun
      cases hrun
  | ok report =>
      rw [hreport] at hrun
      obtain ⟨hvoters, hpayload⟩ := Prod.mk.inj (Option.some.inj hrun)
      exact ⟨report, rfl, hvoters, hpayload, ofRound_sound hreport⟩

end BallotConsensus.Report
