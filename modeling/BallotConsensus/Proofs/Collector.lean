import Mathlib.Algebra.Order.BigOperators.Group.List
import BallotConsensus.Collector
import BallotConsensus.Proofs.Round

/-!
# What a collector holds

A collector holds one ballot for each voter that got a message accepted: the
ballot of the last one.  Whether a message is accepted hangs on the message
and the round alone, and the ballots are held in the order of their voters, so
what is held is a function of the last accepted messages and of nothing else.

* `Collector.examine_eq_ok` — **which messages a round accepts**, and as which
  ballots;
* `Collector.Ascending` — the order in which ballots are held, with
  `Collector.mem_place` and `Collector.Ascending.place`: a ballot is put over
  the earlier one of its voter, and the order is kept;
* `Collector.lastAccepted` — the message of a voter that counts in the end;
* `Collector.sum_weight_le` — ballots of different voters of a signing policy
  do not outweigh it.
-/

namespace BallotConsensus.Collector

variable {c : Collector} {m : Submission} {vote : WeightedBallot}

/-! ## Accepted messages -/

/-- A collector is opened unless its voters weigh too much, and holds nothing. -/
theorem open?_eq_some {round : Nat} {weights : List Nat} :
    open? round weights = some c ↔ weights.sum ≤ largestWeight ∧ c = ⟨round, weights, []⟩ := by
  simp [open?, eq_comm]

theorem held_of_opened {round : Nat} {weights : List Nat} (h : open? round weights = some c) :
    c.held = [] := by
  rw [(open?_eq_some.mp h).2]

/-- **Which messages a round accepts.**  They name the round, come from a voter
with a positive weight, and carry a ballot with the check of the round. -/
theorem examine_eq_ok : c.examine m = .ok vote ↔
    m.round = c.round ∧ vote.voter = m.sender ∧ c.weights[m.sender]? = some vote.weight ∧
      Ballot.ofPayload m.payload = .ok (vote.ballot, checkByte c.round) := by
  unfold examine
  by_cases hround : m.round = c.round
  · rw [if_neg (not_not.mpr hround)]
    cases hweight : c.weights[m.sender]? with
    | none => simp
    | some weight =>
        cases hpayload : Ballot.ofPayload m.payload with
        | error error => simp
        | ok read =>
            rcases read with ⟨ballot, check⟩
            by_cases hcheck : check = checkByte c.round
            · subst hcheck
              rcases vote with ⟨voter, voteWeight, voteBallot, hpos⟩
              by_cases hzero : 0 < weight
              · simp [hround, WeightedBallot.of?, hzero, eq_comm]
              · have hne : weight ≠ voteWeight := by omega
                simp [WeightedBallot.of?, hzero, hne]
            · simp [hcheck]
  · simp [hround]

/-- Whether a round accepts a message. -/
def accepts (c : Collector) (m : Submission) : Bool := (c.receive m).isOk

theorem accepts_of_ok (h : c.examine m = .ok vote) : c.accepts m = true := by
  rw [accepts, receive, h]
  rfl

theorem accepts_of_error {refusal : Refusal} (h : c.examine m = .error refusal) :
    c.accepts m = false := by
  rw [accepts, receive, h]
  rfl

/-- What is held has no say in whether a message is accepted. -/
theorem examine_eq {other : Collector} (hround : other.round = c.round)
    (hweights : other.weights = c.weights) (m : Submission) : other.examine m = c.examine m := by
  simp only [examine, hround, hweights]

/-- The last message of a voter that a round accepts. -/
def lastAccepted (c : Collector) (messages : List Submission) (voter : Nat) :
    Option Submission :=
  ((messages.filter (·.sender == voter)).filter c.accepts).getLast?

/-- An accepted message of a voter becomes its last one. -/
theorem lastAccepted_append_of_accepted (messages : List Submission)
    (h : c.accepts m = true) :
    c.lastAccepted (messages ++ [m]) m.sender = some m := by
  simp [lastAccepted, h]

/-- Messages of other voters and refused ones change nothing. -/
theorem lastAccepted_append_of_other (messages : List Submission) {voter : Nat}
    (h : m.sender = voter → c.accepts m = false) :
    c.lastAccepted (messages ++ [m]) voter = c.lastAccepted messages voter := by
  by_cases hsender : m.sender = voter
  · simp [lastAccepted, hsender, h hsender]
  · simp [lastAccepted, hsender]

/-! ## Held ballots -/

/-- Ballots in strictly ascending order of their voters. -/
def Ascending (held : List WeightedBallot) : Prop :=
  held.Pairwise fun a b => a.voter < b.voter

/-- Ballots in ascending order are determined by which ones they are. -/
theorem Ascending.eq {held held' : List WeightedBallot} (h : Ascending held)
    (h' : Ascending held') (hmem : ∀ vote, vote ∈ held ↔ vote ∈ held') : held = held' := by
  have hne : ∀ {a b : WeightedBallot}, a.voter < b.voter → a ≠ b := by
    intro a b hlt heq
    exact absurd (congrArg WeightedBallot.voter heq) (Nat.ne_of_lt hlt)
  have hperm : held.Perm held' :=
    (List.perm_ext_iff_of_nodup (h.imp hne) (h'.imp hne)).mpr hmem
  refine hperm.eq_of_pairwise ?_ h h'
  intro a b _ _ hab hba
  exact absurd hab (Nat.lt_asymm hba)

variable {held : List WeightedBallot}

/-- **A ballot is put over the earlier one of its voter**, and all others
stay. -/
theorem mem_place (h : Ascending held) {other : WeightedBallot} :
    other ∈ place vote held ↔ other = vote ∨ other ∈ held ∧ other.voter ≠ vote.voter := by
  induction held with
  | nil => simp [place]
  | cons first held ih =>
      obtain ⟨hfirst, hheld⟩ := List.pairwise_cons.mp h
      unfold place
      by_cases hlt : vote.voter < first.voter
      · rw [if_pos hlt]
        have hothers : ∀ other ∈ first :: held, other.voter ≠ vote.voter := by
          intro other hmem
          rcases List.mem_cons.mp hmem with rfl | hmem
          · omega
          · have := hfirst other hmem
            omega
        rw [List.mem_cons]
        exact or_congr_right ⟨fun hmem => ⟨hmem, hothers other hmem⟩, And.left⟩
      · rw [if_neg hlt]
        by_cases heq : vote.voter = first.voter
        · rw [if_pos heq, List.mem_cons, List.mem_cons]
          refine or_congr_right ⟨fun hmem => ⟨Or.inr hmem, ?_⟩, ?_⟩
          · have := hfirst other hmem
            omega
          · intro hmem
            refine hmem.1.resolve_left ?_
            intro hsame
            exact hmem.2 (hsame ▸ heq.symm)
        · rw [if_neg heq, List.mem_cons, List.mem_cons, ih hheld]
          constructor
          · intro hmem
            rcases hmem with rfl | rfl | ⟨hmem, hne⟩
            · exact Or.inr ⟨Or.inl rfl, fun h => heq h.symm⟩
            · exact Or.inl rfl
            · exact Or.inr ⟨Or.inr hmem, hne⟩
          · intro hmem
            rcases hmem with rfl | ⟨rfl | hmem, hne⟩
            · exact Or.inr (Or.inl rfl)
            · exact Or.inl rfl
            · exact Or.inr (Or.inr ⟨hmem, hne⟩)

/-- Putting a ballot in its place keeps the order. -/
theorem Ascending.place (h : Ascending held) (vote : WeightedBallot) :
    Ascending (place vote held) := by
  induction held with
  | nil => exact List.pairwise_singleton _ _
  | cons first held ih =>
      obtain ⟨hfirst, hheld⟩ := List.pairwise_cons.mp h
      unfold Collector.place
      by_cases hlt : vote.voter < first.voter
      · rw [if_pos hlt]
        refine List.pairwise_cons.mpr ⟨?_, h⟩
        intro other hmem
        rcases List.mem_cons.mp hmem with rfl | hmem
        · exact hlt
        · exact Nat.lt_trans hlt (hfirst other hmem)
      · rw [if_neg hlt]
        by_cases heq : vote.voter = first.voter
        · rw [if_pos heq]
          exact List.pairwise_cons.mpr ⟨fun other hmem => heq ▸ hfirst other hmem, hheld⟩
        · rw [if_neg heq]
          refine List.pairwise_cons.mpr ⟨?_, ih hheld⟩
          intro other hmem
          rcases (mem_place hheld).mp hmem with rfl | ⟨hmem, -⟩
          · omega
          · exact hfirst other hmem

/-- Voters of a signing policy weigh what it says. -/
theorem map_weight_eq {weights : List Nat} {votes : List WeightedBallot}
    (h : ∀ vote ∈ votes, weights[vote.voter]? = some vote.weight) :
    votes.map (·.weight) = (votes.map (·.voter)).map (weights.getD · 0) := by
  rw [List.map_map]
  refine List.map_congr_left fun vote hvote => ?_
  simp [List.getD_eq_getElem?_getD, h vote hvote]

/-- **Different voters of a signing policy do not outweigh it.** -/
theorem sum_weight_le {weights : List Nat} (hheld : Ascending held)
    (h : ∀ vote ∈ held, weights[vote.voter]? = some vote.weight) :
    (held.map (·.weight)).sum ≤ weights.sum := by
  have hnodup : (held.map (·.voter)).Nodup :=
    List.pairwise_map.mpr (hheld.imp fun hlt => Nat.ne_of_lt hlt)
  have hsubset : held.map (·.voter) ⊆ List.range weights.length := by
    intro voter hvoter
    obtain ⟨vote, hvote, rfl⟩ := List.mem_map.mp hvoter
    exact List.mem_range.mpr (List.getElem?_eq_some_iff.mp (h vote hvote)).1
  obtain ⟨voters, hperm, hsub⟩ := hnodup.subperm hsubset
  calc (held.map (·.weight)).sum
      = ((held.map (·.voter)).map (weights.getD · 0)).sum := by rw [map_weight_eq h]
    _ = (voters.map (weights.getD · 0)).sum := (hperm.map _).sum_eq.symm
    _ ≤ ((List.range weights.length).map (weights.getD · 0)).sum :=
        (hsub.map _).sum_le_sum (by simp)
    _ = weights.sum := by rw [Flags.map_getD_range rfl]

end BallotConsensus.Collector
