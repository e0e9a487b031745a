import BallotConsensus.Proofs.Exploration.Evaluations
import BallotConsensus.Proofs.Exploration.Optimum
import BallotConsensus.Proofs.Exploration.Nodes

/-!
# What a search finds and its bound stay in step

A search has two accounts of the best leaf so far.  One is the bound, which both visits
below a node raise one after the other, in the order that a coin decides.  The other is
the leaf that is handed up from the visits, of which the better one is kept, with the
decision against the entry in front.  Nothing makes the two agree but that every leaf is
evaluated against the bound in force when the search comes to it, and that a leaf that
reaches it counts, even if it only ties.

They agree at every node and whatever the search has been through before: any bound, any
number of operations spent, any draws left, and any budget, spent or not.

* `boundAfter` — the bound that some evaluations lead to, the greatest of their worths
  and of the bound to start from;
* `InForce` — logs in which every leaf is evaluated against the bound that the earlier
  ones have led to, and `InForce.append`: one log after the other;
* `Logged`, with `Logged.join` — a search next to its evaluations, and
  `explore_logged`: **the log of a search accounts for its bound**;
* `InStep` — a search of which both accounts agree;
* `Reduction.explore_in_step` — **both searches are in step at every node.**
-/

namespace BallotConsensus

variable {Entry Node : Type}

/-! ## The bound in force -/

/-- The bound that evaluations lead to: the greatest of their worths and of the bound to
start from. -/
def boundAfter (start : Worth) (log : List Evaluation) : Worth :=
  (log.map (·.worth)).foldl max start

@[simp] theorem boundAfter_singleton (start : Worth) (e : Evaluation) :
    boundAfter start [e] = max start e.worth := rfl

theorem boundAfter_append (start : Worth) (earlier later : List Evaluation) :
    boundAfter start (earlier ++ later) = boundAfter (boundAfter start earlier) later := by
  rw [boundAfter, List.map_append, List.foldl_append]
  rfl

/-- Every leaf is evaluated against the bound that the earlier evaluations have led
to. -/
def InForce (start : Worth) (log : List Evaluation) : Prop :=
  ∀ earlier e later, log = earlier ++ e :: later → e.bound = boundAfter start earlier

theorem InForce.nil (start : Worth) : InForce start [] := by
  intro earlier e later h
  simp at h

theorem InForce.singleton {start : Worth} {e : Evaluation} (h : e.bound = start) :
    InForce start [e] := by
  intro earlier other later hlog
  rcases List.append_eq_singleton_iff.mp hlog.symm with ⟨rfl, hone⟩ | ⟨-, hnone⟩
  · obtain rfl := (List.cons.inj hone).1
    exact h
  · simp at hnone

/-- **One log after the other**: the second one starts from the bound that the first one
leads to. -/
theorem InForce.append {start : Worth} {first second : List Evaluation}
    (h₁ : InForce start first) (h₂ : InForce (boundAfter start first) second) :
    InForce start (first ++ second) := by
  intro earlier e later hlog
  rcases List.append_eq_append_iff.mp hlog with ⟨rest, rfl, hsecond⟩ | ⟨rest, rfl, hrest⟩
  · rw [boundAfter_append]
    exact h₂ rest e later hsecond
  · cases rest with
    | nil =>
        rw [List.nil_append] at hrest
        rw [h₂ [] e later hrest.symm, List.append_nil]
        rfl
    | cons x rest =>
        obtain ⟨rfl, -⟩ := List.cons.inj hrest
        exact h₁ earlier e rest rfl

/-! ## Logs of a search -/

/-- A search among `leaves` that started with `p`, next to its evaluations. -/
structure Logged (leaves : Leaf → Prop) (p : Progress) (result : Option Leaf × Progress)
    (log : List Evaluation) : Prop where
  /-- What is evaluated is a leaf. -/
  evaluated : ∀ e ∈ log, ∃ leaf, leaves leaf ∧ leaf.worth = e.worth
  in_force : InForce p.bound log
  bound_eq : result.2.bound = boundAfter p.bound log

namespace Logged

variable {leaves : Leaf → Prop} {p q : Progress}

/-- Where nothing is evaluated, the bound stays. -/
theorem idle (hbound : q.bound = p.bound) : Logged leaves p (none, q) [] where
  evaluated := by simp
  in_force := .nil _
  bound_eq := hbound

/-- Only the bound matters of what a search starts with. -/
theorem of_start {result : Option Leaf × Progress} {log : List Evaluation}
    (h : Logged leaves q result log) (hbound : q.bound = p.bound) :
    Logged leaves p result log :=
  ⟨h.evaluated, hbound ▸ h.in_force, hbound ▸ h.bound_eq⟩

/-- **One visit after the other.** -/
theorem join {beyond : Bool → Leaf → Prop} {heads : Bool}
    {first second : Option Leaf × Progress} {earlier later : List Evaluation}
    (h₁ : Logged (beyond (!heads)) p first earlier)
    (h₂ : Logged (beyond heads) first.2 second later) :
    Logged (fun leaf => ∃ taken below, beyond taken below ∧ leaf = below.decided taken) p
      (betterVisit heads first.1 second.1, second.2) (earlier ++ later) where
  evaluated e he := by
    rcases List.mem_append.mp he with hearlier | hlater
    · obtain ⟨below, hbelow, hworth⟩ := h₁.evaluated e hearlier
      exact ⟨_, ⟨_, below, hbelow, rfl⟩, hworth⟩
    · obtain ⟨below, hbelow, hworth⟩ := h₂.evaluated e hlater
      exact ⟨_, ⟨_, below, hbelow, rfl⟩, hworth⟩
  in_force := h₁.in_force.append (h₁.bound_eq ▸ h₂.in_force)
  bound_eq := by rw [boundAfter_append, ← h₁.bound_eq, h₂.bound_eq]

end Logged

/-- A leaf raises the bound to its worth or leaves it alone. -/
theorem Progress.evaluate_logged {p : Progress} {scope : Scope} (fees : Nat) {weight : Nat}
    (hweight : weight ≤ scope.total) :
    Logged (· = ⟨[], scope.worth fees weight⟩) p (p.evaluate scope fees weight)
      [⟨scope.worth fees weight, p.bound⟩] := by
  refine ⟨by simp, .singleton rfl, ?_⟩
  rw [boundAfter_singleton]
  by_cases hlt : scope.worth fees weight < p.bound
  · rw [evaluate, if_neg (Nat.not_lt.mpr hweight), if_pos hlt]
    exact (max_eq_left (le_of_lt hlt)).symm
  · rw [evaluate, if_neg (Nat.not_lt.mpr hweight), if_neg hlt]
    exact (max_eq_right (not_lt.mp hlt)).symm

/-- **The log of a search accounts for its bound.**  The induction is on the entries left
to decide; what the first visit makes of the bound is what the second one starts
from. -/
theorem explore_logged {b : Branching Entry Node} {Sound : Node → Prop} (hb : b.Shrinking Sound)
    {scope : Scope} {node : Node} (hnode : Sound node) (hweight : b.weight node ≤ scope.total)
    (entries : List Entry) (p : Progress) :
    Logged (b.IsLeaf scope entries node) p (explore b scope entries node p)
      (evaluations b scope entries node p) := by
  induction entries generalizing node p with
  | nil =>
      rw [Branching.isLeaf_nil_eq]
      exact ((p.spend 1).evaluate_logged (b.fees node) hweight).of_start rfl
  | cons entry entries ih =>
      cases hback : (p.spend 1).turnsBack scope (b.fees node) (b.weight node) with
      | true =>
          rw [explore_turned_back hback, evaluations_turned_back hback]
          exact .idle rfl
      | false =>
          have hvisit : ∀ taken (q : Progress),
              Logged (b.IsLeafBeyond scope entries node entry taken) q
                (visit b scope entries node entry taken q)
                (visitEvaluations b scope entries node entry taken q) := by
            intro taken q
            rw [visit_eq, visitEvaluations]
            cases hdecide : b.decide node entry taken with
            | none => exact .idle rfl
            | some child =>
                have hchild := Nat.le_trans (hb.weight_le hnode hdecide) hweight
                rw [Branching.isLeafBeyond_eq hdecide]
                exact (ih (hb.sound hnode hdecide) hchild _).of_start rfl
          rw [explore_visited hback rfl rfl rfl, evaluations_visited hback,
            Branching.isLeaf_cons_eq]
          have hfirst := hvisit (!(p.spend 1).flip.1) (p.spend 1).flip.2
          exact (hfirst.join (hvisit (p.spend 1).flip.1 _)).of_start rfl

/-! ## Both accounts -/

/-- **A search in step with its bound**: what it finds, next to what it evaluates. -/
structure InStep (leaves : Leaf → Prop) (p : Progress) (result : Option Leaf × Progress)
    (log : List Evaluation) : Prop extends Logged leaves p result log where
  /-- Something is found iff some leaf reached the bound in force. -/
  found_iff : (∃ leaf, result.1 = some leaf) ↔ ∃ e ∈ log, e.bound ≤ e.worth
  /-- What is found is a leaf, and it is worth the bound. -/
  found : ∀ leaf, result.1 = some leaf → leaves leaf ∧ leaf.worth = result.2.bound
  /-- Nothing found leaves the bound alone. -/
  missed : result.1 = none → result.2.bound = p.bound
  /-- Operations and bound never sink. -/
  advances : p.Advances result.2
  /-- No coalition is found to outweigh everybody. -/
  overweight : result.2.overweight = none

/-- A search from any node of a tree is in step, if decisions only shrink what can still
be had and the root does not outweigh everybody. -/
theorem Branching.IsNode.in_step {b : Branching Entry Node} {entries rest : List Entry}
    {root node : Node} (hisNode : b.IsNode entries root rest node) {Sound : Node → Prop}
    (hb : b.Shrinking Sound) (hroot : Sound root) {scope : Scope}
    (hweight : b.weight root ≤ scope.total) {p : Progress} (hp : p.overweight = none) :
    InStep (b.IsLeaf scope rest node) p (explore b scope rest node p)
      (evaluations b scope rest node p) := by
  obtain ⟨hnode, hle⟩ := hb.of_isNode hroot hisNode
  have hlight := Nat.le_trans hle hweight
  have hsearched : Searched scope (b.IsLeaf scope rest node) p (explore b scope rest node p) :=
    explore_searched hb hnode hlight hp
  have hrecorded : Recorded p (explore b scope rest node p) (evaluations b scope rest node p) :=
    explore_recorded hb hnode hlight
  exact
    { explore_logged hb hnode hlight rest p with
      found_iff := by rw [← Option.isSome_iff_exists, hrecorded.found_iff]
      found := hsearched.found
      missed := hsearched.missed
      advances := hsearched.advances
      overweight := hsearched.overweight }

namespace Reduction

variable {votes : List WeightedBallot} {total : Nat}

/-- **Both searches are in step at every node**, by attestations in any order of all
groups and by voters.  The search may come to the node with any bound, with any number of
operations spent and with any draws left; only it must not have found a coalition before
that outweighs everybody. -/
theorem explore_in_step (fees : List Nat) (hweight : (votes.map (·.weight)).sum ≤ total)
    (budget : Nat) {p : Progress} (hp : p.overweight = none) :
    (∀ order rest node,
      (ofRound votes fees total).byAttestations.IsNode
        ((ofRound votes fees total).entriesAt order) (ofRound votes fees total).wholeCoalition
        rest node →
      InStep ((ofRound votes fees total).byAttestations.IsLeaf ⟨budget, total⟩ rest node) p
        (explore (ofRound votes fees total).byAttestations ⟨budget, total⟩ rest node p)
        (BallotConsensus.evaluations (ofRound votes fees total).byAttestations ⟨budget, total⟩
          rest node p)) ∧
    ∀ rest node,
      (ofRound votes fees total).byVoters.IsNode (ofRound votes fees total).voters
        (ofRound votes fees total).wholeSupport rest node →
      InStep ((ofRound votes fees total).byVoters.IsLeaf ⟨budget, total⟩ rest node) p
        (explore (ofRound votes fees total).byVoters ⟨budget, total⟩ rest node p)
        (BallotConsensus.evaluations (ofRound votes fees total).byVoters ⟨budget, total⟩
          rest node p) := by
  have hlight : (ofRound votes fees total).weight ≤ total := weight_ofRound_le fees hweight
  constructor
  · intro order rest node hisNode
    have hroot : (ofRound votes fees total).Weighed (ofRound votes fees total).wholeCoalition := rfl
    exact hisNode.in_step (byAttestations_shrinking _) hroot (by exact hlight) hp
  · intro rest node hisNode
    exact hisNode.in_step (byVoters_shrinking _) trivial (by exact hlight) hp

/-- A search under way, with some bound. -/
def underWay (bound : Worth) : Progress := ⟨bound, 5, .ofSeed (.ofNumber 7), none⟩

/-- By voters, with the first voter participating and nine operations to spend, the search
evaluates one leaf before it is cut off, and finds it.  By attestations, with the first
group of the order left out, it evaluates three leaves, none of which reaches the bound. -/
theorem explore_in_step_of_cycle :
    (Agreement.cycleVotes.map (·.weight)).sum ≤ 3 ∧
      (∃ node leaf,
        cycle.byVoters.IsNode cycle.voters cycle.wholeSupport (cycle.voters.drop 1) node ∧
        BallotConsensus.evaluations cycle.byVoters ⟨9, 3⟩ (cycle.voters.drop 1) node
          (underWay ⟨1, 1⟩) = [⟨⟨2, 2⟩, ⟨1, 1⟩⟩] ∧
        (explore cycle.byVoters ⟨9, 3⟩ (cycle.voters.drop 1) node (underWay ⟨1, 1⟩)).1 =
          some leaf ∧
        leaf.worth = ⟨2, 2⟩) ∧
      ∃ node,
        cycle.byAttestations.IsNode (cycle.entriesAt [2, 0, 1]) cycle.wholeCoalition
          ((cycle.entriesAt [2, 0, 1]).drop 1) node ∧
        BallotConsensus.evaluations cycle.byAttestations ⟨100, 3⟩
          ((cycle.entriesAt [2, 0, 1]).drop 1) node (underWay ⟨2, 3⟩) =
            [⟨⟨2, 2⟩, ⟨2, 3⟩⟩, ⟨⟨0, 0⟩, ⟨2, 3⟩⟩, ⟨⟨2, 2⟩, ⟨2, 3⟩⟩] ∧
        (explore cycle.byAttestations ⟨100, 3⟩ ((cycle.entriesAt [2, 0, 1]).drop 1) node
          (underWay ⟨2, 3⟩)).1 = none ∧
        (explore cycle.byAttestations ⟨100, 3⟩ ((cycle.entriesAt [2, 0, 1]).drop 1) node
          (underWay ⟨2, 3⟩)).2.bound = ⟨2, 3⟩ := by
  have hweight : (Agreement.cycleVotes.map (·.weight)).sum ≤ 3 := by decide
  have hp : ∀ bound, (underWay bound).overweight = none := fun _ => rfl
  refine ⟨hweight, ?_, ?_⟩
  · have hnode : (cycle.byVoters.follow cycle.wholeSupport (cycle.voters.take 1) [true]).map
        (fun node => BallotConsensus.evaluations cycle.byVoters ⟨9, 3⟩ (cycle.voters.drop 1) node
          (underWay ⟨1, 1⟩)) = some [⟨⟨2, 2⟩, ⟨1, 1⟩⟩] := by decide +kernel
    obtain ⟨node, hfollow, hlog⟩ := Option.map_eq_some_iff.mp hnode
    have hisNode : cycle.byVoters.IsNode cycle.voters cycle.wholeSupport (cycle.voters.drop 1)
        node := ⟨_, _, (List.take_append_drop 1 _).symm, hfollow⟩
    have hstep : InStep (cycle.byVoters.IsLeaf ⟨9, 3⟩ (cycle.voters.drop 1) node)
        (underWay ⟨1, 1⟩)
        (explore cycle.byVoters ⟨9, 3⟩ (cycle.voters.drop 1) node (underWay ⟨1, 1⟩))
        (BallotConsensus.evaluations cycle.byVoters ⟨9, 3⟩ (cycle.voters.drop 1) node
          (underWay ⟨1, 1⟩)) :=
      (explore_in_step [1, 1, 1] hweight 9 (hp _)).2 _ node hisNode
    rw [hlog] at hstep
    obtain ⟨leaf, hleaf⟩ := hstep.found_iff.mpr ⟨_, List.mem_cons_self, by decide⟩
    refine ⟨node, leaf, hisNode, hlog, hleaf, ?_⟩
    rw [(hstep.found leaf hleaf).2, hstep.bound_eq]
    decide
  · have hnode : (cycle.byAttestations.follow cycle.wholeCoalition
        ((cycle.entriesAt [2, 0, 1]).take 1) [false]).map
        (fun node => BallotConsensus.evaluations cycle.byAttestations ⟨100, 3⟩
          ((cycle.entriesAt [2, 0, 1]).drop 1) node (underWay ⟨2, 3⟩)) =
        some [⟨⟨2, 2⟩, ⟨2, 3⟩⟩, ⟨⟨0, 0⟩, ⟨2, 3⟩⟩, ⟨⟨2, 2⟩, ⟨2, 3⟩⟩] := by decide +kernel
    obtain ⟨node, hfollow, hlog⟩ := Option.map_eq_some_iff.mp hnode
    have hisNode : cycle.byAttestations.IsNode (cycle.entriesAt [2, 0, 1]) cycle.wholeCoalition
        ((cycle.entriesAt [2, 0, 1]).drop 1) node :=
      ⟨_, _, (List.take_append_drop 1 _).symm, hfollow⟩
    have hstep : InStep
        (cycle.byAttestations.IsLeaf ⟨100, 3⟩ ((cycle.entriesAt [2, 0, 1]).drop 1) node)
        (underWay ⟨2, 3⟩)
        (explore cycle.byAttestations ⟨100, 3⟩ ((cycle.entriesAt [2, 0, 1]).drop 1) node
          (underWay ⟨2, 3⟩))
        (BallotConsensus.evaluations cycle.byAttestations ⟨100, 3⟩
          ((cycle.entriesAt [2, 0, 1]).drop 1) node (underWay ⟨2, 3⟩)) :=
      (explore_in_step [1, 1, 1] hweight 100 (hp _)).1 _ _ node hisNode
    rw [hlog] at hstep
    have hnone : (explore cycle.byAttestations ⟨100, 3⟩ ((cycle.entriesAt [2, 0, 1]).drop 1) node
        (underWay ⟨2, 3⟩)).1 = none := by
      rw [Option.eq_none_iff_forall_ne_some]
      intro leaf hleaf
      exact absurd (hstep.found_iff.mp ⟨leaf, hleaf⟩) (by decide)
    exact ⟨node, hisNode, hlog, hnone, hstep.missed hnone⟩

end Reduction

end BallotConsensus
