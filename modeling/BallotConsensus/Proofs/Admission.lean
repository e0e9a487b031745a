import BallotConsensus.Proofs.Reception

/-!
# Admission: what a round accepts, and what it then holds

Five tests stand between a message and the collector of its round: the round it
names, the sender, the payload, the check of the round and the weight of the
sender, in this order.  They look at the message and at the signing policy and at
nothing else, so they come out the same at any time of the round.  A message that
fails one of them is refused for the first one that it fails and leaves no trace.

* `Acceptable`, `Refuses` — the messages a round accepts, and the reasons it
  refuses the others for;
* `Collector.exists_receive_iff`, `Collector.receive_eq_error_iff` — **a
  collector accepts the one and refuses the other**, whatever it holds;
* `Collector.lastAccepted_eq_some_iff` — the last accepted message of a voter, as
  a position among all messages;
* `Collector.Reached`, `Reception.ofMessages_reached` — **the states of a
  collector**, after any messages.
-/

namespace BallotConsensus

/-- **A message that a round accepts.** -/
structure Acceptable (round : Nat) (weights : List Nat) (m : Submission) : Prop where
  round_eq : m.round = round
  /-- The sender has a position in the signing policy, and some weight there. -/
  weighs : ∃ weight, weights[m.sender]? = some weight ∧ 0 < weight
  /-- The payload is one of a ballot, with the check of the round. -/
  reads : ∃ ballot, Ballot.ofPayload m.payload = .ok (ballot, round % 256)

/-- **Why a round refuses a message**: the first of the five tests that it
fails. -/
inductive Refuses (round : Nat) (weights : List Nat) (m : Submission) : Refusal → Prop
  | wrongRound : m.round ≠ round → Refuses round weights m (.wrongRound round m.round)
  | unknownVoter : m.round = round → weights.length ≤ m.sender →
      Refuses round weights m (.unknownVoter m.sender)
  | payload {error : PayloadError} : m.round = round → m.sender < weights.length →
      Ballot.ofPayload m.payload = .error error → Refuses round weights m (.payload error)
  | wrongCheck {ballot : Ballot} {check : Nat} : m.round = round → m.sender < weights.length →
      Ballot.ofPayload m.payload = .ok (ballot, check) → check ≠ round % 256 →
      Refuses round weights m (.wrongCheck (round % 256) check)
  | zeroWeight {ballot : Ballot} : m.round = round → weights[m.sender]? = some 0 →
      Ballot.ofPayload m.payload = .ok (ballot, round % 256) →
      Refuses round weights m (.zeroWeight m.sender)

namespace Collector

variable {c : Collector} {m : Submission} {refusal : Refusal}

/-! ## The five tests -/

theorem exists_examine_iff :
    (∃ vote, c.examine m = .ok vote) ↔ Acceptable c.round c.weights m := by
  constructor
  · intro hexamine
    obtain ⟨vote, hvote⟩ := hexamine
    obtain ⟨hround, -, hweight, hread⟩ := examine_eq_ok.mp hvote
    exact ⟨hround, ⟨vote.weight, hweight, vote.weight_pos⟩, vote.ballot, hread⟩
  · intro hacceptable
    obtain ⟨hround, ⟨weight, hweight, hpos⟩, ballot, hread⟩ := hacceptable
    exact ⟨⟨m.sender, weight, ballot, hpos⟩, examine_eq_ok.mpr ⟨hround, rfl, hweight, hread⟩⟩

/-- A message that fails a test is refused for the first one that it fails. -/
theorem examine_of_refuses (h : Refuses c.round c.weights m refusal) :
    c.examine m = .error refusal := by
  cases h with
  | wrongRound hround => simp [examine, hround]
  | unknownVoter hround hsender =>
      simp [examine, hround, List.getElem?_eq_none hsender]
  | payload hround hsender hread =>
      simp [examine, hround, List.getElem?_eq_getElem hsender, hread]
  | wrongCheck hround hsender hread hcheck =>
      simp [examine, hround, List.getElem?_eq_getElem hsender, hread, checkByte, hcheck]
  | zeroWeight hround hweight hread =>
      simp [examine, hround, hweight, hread, checkByte, WeightedBallot.of?]

/-- The five tests leave nothing over: what fails none of them is accepted. -/
theorem acceptable_or_refuses (round : Nat) (weights : List Nat) (m : Submission) :
    Acceptable round weights m ∨ ∃ refusal, Refuses round weights m refusal := by
  by_cases hround : m.round = round
  · rcases Nat.lt_or_ge m.sender weights.length with hsender | hsender
    · cases hread : Ballot.ofPayload m.payload with
      | error error => exact Or.inr ⟨_, .payload hround hsender hread⟩
      | ok read =>
          rcases read with ⟨ballot, check⟩
          by_cases hcheck : check = round % 256
          · subst hcheck
            have hweight : weights[m.sender]? = some weights[m.sender] :=
              List.getElem?_eq_getElem hsender
            rcases Nat.eq_zero_or_pos weights[m.sender] with hzero | hpos
            · exact Or.inr ⟨_, .zeroWeight hround (hzero ▸ hweight) hread⟩
            · exact Or.inl ⟨hround, ⟨_, hweight, hpos⟩, ballot, hread⟩
          · exact Or.inr ⟨_, .wrongCheck hround hsender hread hcheck⟩
    · exact Or.inr ⟨_, .unknownVoter hround hsender⟩
  · exact Or.inr ⟨_, .wrongRound hround⟩

theorem examine_eq_error_iff :
    c.examine m = .error refusal ↔ Refuses c.round c.weights m refusal := by
  refine ⟨fun hexamine => ?_, examine_of_refuses⟩
  rcases acceptable_or_refuses c.round c.weights m with hacceptable | ⟨other, hother⟩
  · obtain ⟨vote, hvote⟩ := exists_examine_iff.mpr hacceptable
    rw [hvote] at hexamine
    cases hexamine
  · rw [examine_of_refuses hother] at hexamine
    cases hexamine
    exact hother

/-- **A collector accepts exactly the acceptable messages**, whatever it
holds. -/
theorem exists_receive_iff :
    (∃ next, c.receive m = .ok next) ↔ Acceptable c.round c.weights m := by
  rw [← exists_examine_iff, receive]
  cases c.examine m <;> simp [Except.map]

/-- **A collector refuses a message for the first test that it fails**, whatever
it holds. -/
theorem receive_eq_error_iff :
    c.receive m = .error refusal ↔ Refuses c.round c.weights m refusal := by
  rw [← examine_eq_error_iff, receive]
  cases c.examine m <;> simp [Except.map]

theorem accepts_iff : c.accepts m = true ↔ Acceptable c.round c.weights m := by
  rw [← exists_receive_iff, accepts]
  cases c.receive m <;> simp [Except.isOk, Except.toBool]

/-! ## Last accepted messages -/

variable {messages : List Submission} {voter : Nat}

/-- The last accepted message is the first one that is found from behind. -/
theorem lastAccepted_eq (c : Collector) (messages : List Submission) (voter : Nat) :
    c.lastAccepted messages voter =
      messages.reverse.find? fun x => c.accepts x && x.sender == voter := by
  rw [lastAccepted, List.filter_filter, List.getLast?_filter]

theorem accepts_and_sender_iff : (c.accepts m && m.sender == voter) = true ↔
    Acceptable c.round c.weights m ∧ m.sender = voter := by
  rw [Bool.and_eq_true, accepts_iff, beq_iff_eq]

/-- A voter has a last accepted message if it has any accepted message. -/
theorem exists_lastAccepted_iff : (∃ m, c.lastAccepted messages voter = some m) ↔
    ∃ m ∈ messages, m.sender = voter ∧ Acceptable c.round c.weights m := by
  rw [← Option.isSome_iff_exists, lastAccepted_eq, List.find?_isSome]
  simp only [accepts_and_sender_iff, List.mem_reverse, and_comm]

/-- **The last accepted message of a voter** comes before none that is accepted
from the same voter. -/
theorem lastAccepted_eq_some_iff : c.lastAccepted messages voter = some m ↔
    m.sender = voter ∧ Acceptable c.round c.weights m ∧
      ∃ before after, messages = before ++ m :: after ∧
        ∀ later ∈ after, later.sender = voter → ¬ Acceptable c.round c.weights later := by
  rw [lastAccepted_eq, List.find?_eq_some_iff_append, accepts_and_sender_iff]
  constructor
  · intro hlast
    obtain ⟨⟨hacceptable, hsender⟩, after, before, hsplit, hnone⟩ := hlast
    refine ⟨hsender, hacceptable, before.reverse, after.reverse, ?_, ?_⟩
    · rw [← List.reverse_reverse messages, hsplit]
      simp
    · intro later hlater hvoter hlaterAcceptable
      have hfails := hnone later (List.mem_reverse.mp hlater)
      rw [accepts_and_sender_iff.mpr ⟨hlaterAcceptable, hvoter⟩] at hfails
      cases hfails
  · intro hlast
    obtain ⟨hsender, hacceptable, before, after, rfl, hnone⟩ := hlast
    refine ⟨⟨hacceptable, hsender⟩, after.reverse, before.reverse, by simp, ?_⟩
    intro later hlater
    rw [Bool.not_eq_true', Bool.eq_false_iff, ne_eq, accepts_and_sender_iff]
    intro hfails
    exact hnone later (List.mem_reverse.mp hlater) hfails.2 hfails.1

/-! ## The states of a collector -/

/-- **What a collector has come to** after the messages of its round. -/
structure Reached (round : Nat) (weights : List Nat) (messages : List Submission)
    (c : Collector) : Prop where
  round_eq : c.round = round
  weights_eq : c.weights = weights
  ascending : c.held.Pairwise fun a b => a.voter < b.voter
  /-- A ballot is held of exactly the voters with an accepted message … -/
  held_iff : ∀ voter, (∃ vote ∈ c.held, vote.voter = voter) ↔
    ∃ m ∈ messages, m.sender = voter ∧ Acceptable round weights m
  /-- … and it is the ballot in the last one of them. -/
  latest : ∀ vote ∈ c.held, ∃ before m after, messages = before ++ m :: after ∧
    m.sender = vote.voter ∧ Acceptable round weights m ∧
    Ballot.ofPayload m.payload = .ok (vote.ballot, round % 256) ∧
    ∀ later ∈ after, later.sender = vote.voter → ¬ Acceptable round weights later
  weighs : ∀ vote ∈ c.held, weights[vote.voter]? = some vote.weight ∧ 0 < vote.weight
  confirms_lt : ∀ vote ∈ c.held, ∀ x, vote.confirms x = true → x < vote.ballot.length
  weight_le : (c.held.map (·.weight)).sum ≤ c.total
  /-- The total weight is that of the whole signing policy, and it is a word. -/
  total_eq : c.total = weights.sum ∧ c.total ≤ largestWeight

end Collector

namespace Reception

open Collector

variable {c : Collector} {messages : List Submission} {r : Reception} {round : Nat}
  {weights : List Nat}

/-- A reception of a collector that was opened has reached one of its states. -/
theorem Collected.reached (h : Collected c messages r) (hweights : c.weights.sum ≤ largestWeight) :
    r.collector.Reached c.round c.weights messages where
  round_eq := h.round_eq
  weights_eq := h.weights_eq
  ascending := h.ascending
  held_iff voter := by
    rw [← exists_lastAccepted_iff]
    constructor
    · rintro ⟨vote, hvote, rfl⟩
      obtain ⟨m, hlast, -⟩ := (h.mem_held vote).mp hvote
      exact ⟨m, hlast⟩
    · intro hlast
      obtain ⟨m, hlast⟩ := hlast
      obtain ⟨hsender, hacceptable, -⟩ := lastAccepted_eq_some_iff.mp hlast
      obtain ⟨vote, hvote⟩ := exists_examine_iff.mpr hacceptable
      have hvoter : vote.voter = voter := (examine_eq_ok.mp hvote).2.1.trans hsender
      exact ⟨vote, (h.mem_held vote).mpr ⟨m, hvoter ▸ hlast, hvote⟩, hvoter⟩
  latest vote hvote := by
    obtain ⟨m, hlast, hm⟩ := (h.mem_held vote).mp hvote
    obtain ⟨hsender, hacceptable, before, after, hsplit, hnone⟩ :=
      lastAccepted_eq_some_iff.mp hlast
    exact ⟨before, m, after, hsplit, hsender, hacceptable, (examine_eq_ok.mp hm).2.2.2, hnone⟩
  weighs vote hvote := ⟨h.weight_eq hvote, vote.weight_pos⟩
  confirms_lt vote _ _ hx := Ballot.confirms_lt hx
  weight_le := by
    rw [total, h.weights_eq]
    exact sum_weight_le h.ascending fun vote hvote => h.weight_eq hvote
  total_eq := by
    rw [total, h.weights_eq]
    exact ⟨rfl, hweights⟩

/-- **The states of a collector.**  After any messages, accepted or refused, a
collector holds the ballots of the last accepted message of each voter; whatever
it holds, it accepts exactly the acceptable messages, refuses every other one for
the first test that it fails, and is left as it was by a message that it
refuses. -/
theorem ofMessages_reached (hopen : open? round weights = some c) (messages : List Submission) :
    (ofMessages c messages).collector.Reached round weights messages ∧
      (∀ m, (∃ next, (ofMessages c messages).collector.receive m = .ok next) ↔
        Acceptable round weights m) ∧
      (∀ m refusal, (ofMessages c messages).collector.receive m = .error refusal ↔
        Refuses round weights m refusal) ∧
      ∀ m refusal, (ofMessages c messages).collector.receive m = .error refusal →
        (ofMessages c (messages ++ [m])).collector = (ofMessages c messages).collector := by
  obtain ⟨hweights, rfl⟩ := open?_eq_some.mp hopen
  have hcollected := ofMessages_collected (c := ⟨round, weights, []⟩) rfl messages
  have hreached := hcollected.reached hweights
  refine ⟨hreached, ?_, ?_, ?_⟩
  · intro m
    rw [exists_receive_iff, hreached.round_eq, hreached.weights_eq]
  · intro m refusal
    rw [receive_eq_error_iff, hreached.round_eq, hreached.weights_eq]
  · intro m refusal hm
    rw [ofMessages, List.foldl_append]
    change ((ofMessages _ messages).next m).collector = _
    rw [next, hm]

/-- Messages to a round of three voters, the second of them without weight.  The
third voter takes back what it confirmed first; nobody else gets a message
accepted. -/
def retracted : List Submission :=
  [⟨2, 300, "2c000101"⟩, ⟨0, 301, "2d000101"⟩, ⟨3, 300, "2c000101"⟩, ⟨2, 300, "0x2C0001"⟩,
    ⟨0, 300, "2b000101"⟩, ⟨1, 300, "2c000101"⟩, ⟨2, 300, "2c00010"⟩]

theorem ofMessages_reached_of_retraction :
    open? 300 [1, 0, 2] = some ⟨300, [1, 0, 2], []⟩ ∧
      (ofMessages ⟨300, [1, 0, 2], []⟩ retracted).collector.Reached 300 [1, 0, 2] retracted ∧
      (ofMessages ⟨300, [1, 0, 2], []⟩ retracted).collector.held.map
        (fun vote => (vote.voter, vote.ballot.bits)) = [(2, 0)] ∧
      (ofMessages ⟨300, [1, 0, 2], []⟩ retracted).collector.receive ⟨1, 300, "2c000101"⟩ =
        .error (.zeroWeight 1) := by
  have hopen : open? 300 [1, 0, 2] = some ⟨300, [1, 0, 2], []⟩ := rfl
  have hread : Ballot.ofPayload "2c000101" =
      .ok (⟨1, 1, by decide, by decide⟩, 300 % 256) := by
    rfl
  obtain ⟨hreached, -, hrefused, -⟩ := ofMessages_reached hopen retracted
  exact ⟨hopen, hreached, by decide +kernel, (hrefused _ _).mpr (.zeroWeight rfl rfl hread)⟩

end Reception

end BallotConsensus
