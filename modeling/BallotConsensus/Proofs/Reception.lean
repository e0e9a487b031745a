import BallotConsensus.Proofs.Collector
import BallotConsensus.Report

/-!
# What a reception comes to

After any messages, a reception has refused exactly those that the round does
not accept, and its collector holds, in ascending order, exactly the ballots of
the last accepted messages.  One message keeps this true; so it is true of all
messages of a round, in whatever order they arrive.  Hence the order matters
only among the messages of one voter.

* `Reception.Collected` — a reception after some messages, with
  `Reception.Collected.next`: **the next message keeps it**, and
  `Reception.ofMessages_collected`: all of them do;
* `Reception.Collected.met` — counted ballots **meet the contract of a round**;
* `Reception.Collected.collector_eq`, `Reception.Collected.refused_eq_of_perm`
  — what two orders of arrival come to.
-/

namespace BallotConsensus.Reception

open Collector

/-- **A reception after some messages** to a collector. -/
structure Collected (c : Collector) (messages : List Submission) (r : Reception) : Prop where
  round_eq : r.collector.round = c.round
  weights_eq : r.collector.weights = c.weights
  ascending : Ascending r.collector.held
  /-- The ballots held are those of the last accepted messages. -/
  mem_held : ∀ vote, vote ∈ r.collector.held ↔
    ∃ m, c.lastAccepted messages vote.voter = some m ∧ c.examine m = .ok vote
  /-- The messages refused are those that are not accepted. -/
  refused_eq : r.refused = messages.countP fun m => !c.accepts m

variable {c : Collector} {messages : List Submission} {r : Reception}

theorem next_of_ok {m : Submission} {vote : WeightedBallot}
    (h : r.collector.examine m = .ok vote) :
    (r.next m).collector = { r.collector with held := place vote r.collector.held } ∧
      (r.next m).refused = r.refused := by
  simp [next, receive, h, Except.map]

theorem next_of_error {m : Submission} {refusal : Refusal}
    (h : r.collector.examine m = .error refusal) :
    (r.next m).collector = r.collector ∧ (r.next m).refused = r.refused + 1 := by
  simp [next, receive, h, Except.map]

/-- An accepted message puts its ballot in place. -/
theorem Collected.next_accepted (h : Collected c messages r) {m : Submission}
    {vote : WeightedBallot} (hm : c.examine m = .ok vote) :
    Collected c (messages ++ [m]) (r.next m) := by
  obtain ⟨hcollector, hrefused⟩ :=
    next_of_ok ((examine_eq h.round_eq h.weights_eq m).trans hm)
  have haccepts : c.accepts m = true := accepts_of_ok hm
  have hvoter : vote.voter = m.sender := (examine_eq_ok.mp hm).2.1
  refine ⟨?_, ?_, ?_, ?_, ?_⟩
  · rw [hcollector]
    exact h.round_eq
  · rw [hcollector]
    exact h.weights_eq
  · rw [hcollector]
    exact h.ascending.place vote
  · intro other
    rw [hcollector, mem_place h.ascending]
    by_cases hsame : other.voter = vote.voter
    · rw [hsame, hvoter, lastAccepted_append_of_accepted messages haccepts]
      simp [hm, eq_comm]
    · have hother : c.lastAccepted (messages ++ [m]) other.voter =
          c.lastAccepted messages other.voter := by
        apply lastAccepted_append_of_other
        intro hsender
        exact absurd (hsender.symm.trans hvoter.symm) hsame
      rw [hother, ← h.mem_held other]
      constructor
      · intro hplaced
        rcases hplaced with rfl | ⟨hheld, -⟩
        · exact absurd rfl hsame
        · exact hheld
      · intro hheld
        exact Or.inr ⟨hheld, hsame⟩
  · rw [hrefused, h.refused_eq, List.countP_append]
    simp [haccepts]

/-- A refused message is counted, and nothing else changes. -/
theorem Collected.next_refused (h : Collected c messages r) {m : Submission} {refusal : Refusal}
    (hm : c.examine m = .error refusal) : Collected c (messages ++ [m]) (r.next m) := by
  obtain ⟨hcollector, hrefused⟩ :=
    next_of_error ((examine_eq h.round_eq h.weights_eq m).trans hm)
  have haccepts : c.accepts m = false := accepts_of_error hm
  refine ⟨?_, ?_, ?_, ?_, ?_⟩
  · rw [hcollector]
    exact h.round_eq
  · rw [hcollector]
    exact h.weights_eq
  · rw [hcollector]
    exact h.ascending
  · intro other
    rw [hcollector, lastAccepted_append_of_other messages fun _ => haccepts]
    exact h.mem_held other
  · rw [hrefused, h.refused_eq, List.countP_append]
    simp [haccepts]

/-- **The next message keeps a reception what it is.** -/
theorem Collected.next (h : Collected c messages r) (m : Submission) :
    Collected c (messages ++ [m]) (r.next m) := by
  cases hm : c.examine m with
  | ok vote => exact h.next_accepted hm
  | error refusal => exact h.next_refused hm

/-- **After all messages** of a round. -/
theorem ofMessages_collected (hempty : c.held = []) (messages : List Submission) :
    Collected c messages (ofMessages c messages) := by
  induction messages using List.reverseRecOn with
  | nil =>
      refine ⟨rfl, rfl, ?_, ?_, rfl⟩
      · change Ascending c.held
        rw [hempty]
        exact List.Pairwise.nil
      · intro vote
        simp [ofMessages, hempty, lastAccepted]
  | append_singleton messages m ih =>
      have hlast : ofMessages c (messages ++ [m]) = (ofMessages c messages).next m := by
        simp [ofMessages, List.foldl_append]
      rw [hlast]
      exact ih.next m

namespace Collected

/-- Held ballots weigh what the signing policy says. -/
theorem weight_eq (h : Collected c messages r) {vote : WeightedBallot}
    (hvote : vote ∈ r.collector.held) : c.weights[vote.voter]? = some vote.weight := by
  obtain ⟨m, -, hm⟩ := (h.mem_held vote).mp hvote
  obtain ⟨-, hvoter, hweight, -⟩ := examine_eq_ok.mp hm
  rw [hvoter]
  exact hweight

theorem counted_ascending (h : Collected c messages r) (attestations : Nat) :
    Ascending (r.collector.counted attestations) :=
  List.Pairwise.filter _ h.ascending

/-- Counted ballots do not outweigh the signing policy. -/
theorem counted_weight_le (h : Collected c messages r) (attestations : Nat) :
    ((r.collector.counted attestations).map (·.weight)).sum ≤ r.collector.total := by
  rw [total, h.weights_eq]
  refine sum_weight_le (h.counted_ascending attestations) ?_
  intro vote hvote
  exact h.weight_eq (List.mem_filter.mp hvote).1

/-- **Counted ballots meet the contract of a round** that has not too many
fees. -/
theorem met (h : Collected c messages r) {fees : List Nat}
    (hfees : fees.length ≤ ballotCapacity) :
    Contract.Met (r.collector.counted fees.length) fees r.collector.total where
  fees_le := hfees
  length_eq vote hvote := by
    have hcovers := (List.mem_filter.mp hvote).2
    exact eq_of_beq hcovers
  weight_le := h.counted_weight_le fees.length

/-- The last accepted messages do not change if each voter's messages come in
the same order. -/
theorem lastAccepted_eq {messages' : List Submission}
    (hsender : ∀ sender, messages.filter (·.sender == sender) =
      messages'.filter (·.sender == sender)) (voter : Nat) :
    c.lastAccepted messages voter = c.lastAccepted messages' voter := by
  rw [lastAccepted, lastAccepted, hsender]

variable {messages' : List Submission} {r' : Reception}

/-- **What is held does not depend on the order of arrival**, as long as each
voter's messages come in the same order. -/
theorem collector_eq (h : Collected c messages r) (h' : Collected c messages' r')
    (hsender : ∀ sender, messages.filter (·.sender == sender) =
      messages'.filter (·.sender == sender)) : r.collector = r'.collector := by
  have hheld : r.collector.held = r'.collector.held := by
    refine h.ascending.eq h'.ascending ?_
    intro vote
    rw [h.mem_held, h'.mem_held, lastAccepted_eq hsender]
  have hround := h.round_eq.trans h'.round_eq.symm
  have hweights := h.weights_eq.trans h'.weights_eq.symm
  rcases hr : r.collector with ⟨round, weights, held⟩
  rcases hr' : r'.collector with ⟨round', weights', held'⟩
  simp only [hr, hr'] at hheld hround hweights
  rw [hround, hweights, hheld]

/-- How many messages are refused does not depend on their order. -/
theorem refused_eq_of_perm (h : Collected c messages r) (h' : Collected c messages' r')
    (hperm : messages.Perm messages') : r.refused = r'.refused := by
  rw [h.refused_eq, h'.refused_eq]
  exact hperm.countP_eq _

end Collected

end BallotConsensus.Reception
