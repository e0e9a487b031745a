import BallotConsensus.Proofs.Exploration.Optimum

/-!
# What a search spends

A search notices that its budget is spent only when it comes to the next inner
node.  By then it may have paid for one more decision, and on the way back it
still enters every decision that it has put off, pays for it and turns back at
once.  So it can spend more than its budget, but never by more than one charge
and one operation for each entry.

Without a budget every decision is entered.  Then the operations double with
each entry, but still there is an end.

* `Branching.Narrowing` — searches in which no decision makes the next one
  dearer;
* `explore_operations_le` — **the budget bounds the work** below a node;
* `explore_operations_le_pow` — the work below a node, whatever the budget;
* `Reduction.search_operations_le` — the work of a whole search of a round.
-/

namespace BallotConsensus

section Operations

variable {Entry Node : Type} {b : Branching Entry Node} {scope : Scope} {entries : List Entry}
  {node : Node} {entry : Entry} {taken : Bool} {p : Progress} {m : Nat}

/-- **Narrowing searches**: no decision makes the next one dearer. -/
def Branching.Narrowing (b : Branching Entry Node) : Prop :=
  ∀ {node entry taken child}, b.decide node entry taken = some child →
    b.charge child ≤ b.charge node

/-- Evaluating a leaf costs nothing beyond coming to it. -/
@[simp] theorem Progress.evaluate_operations (p : Progress) (scope : Scope) (fees weight : Nat) :
    (p.evaluate scope fees weight).2.operations = p.operations := by
  unfold evaluate
  split
  · rfl
  · split <;> rfl

/-- What is spent at an inner node: one operation, and if the budget is not spent
with it, the two visits, in some order. -/
theorem explore_operations_cases (b : Branching Entry Node) (scope : Scope) (entry : Entry)
    (entries : List Entry) (node : Node) (p : Progress) :
    (explore b scope (entry :: entries) node p).2.operations = p.operations + 1 ∨
    p.operations + 1 < scope.budget ∧ ∃ heads q, q.operations = p.operations + 1 ∧
      (explore b scope (entry :: entries) node p).2 =
        (visit b scope entries node entry heads
          (visit b scope entries node entry (!heads) q).2).2 := by
  cases hback : (p.spend 1).turnsBack scope (b.fees node) (b.weight node) with
  | true =>
      rw [explore_turned_back hback]
      exact Or.inl rfl
  | false =>
      have hneither := mt Progress.turnsBack_iff.mpr (Bool.not_eq_true _ ▸ hback)
      have hopen : p.operations + 1 < scope.budget :=
        Nat.not_le.mp fun hspent => hneither (Or.inr (Or.inl hspent))
      rw [explore_visited hback rfl rfl rfl]
      exact Or.inr ⟨hopen, _, _, rfl, rfl⟩

/-- Once the budget is spent, a visit costs its toll and no more. -/
theorem visit_operations_of_spent (hspent : scope.budget ≤ p.operations) :
    (visit b scope entries node entry taken p).2.operations =
      p.operations + b.toll node entry taken := by
  cases entries with
  | nil =>
      rw [visit_eq, Branching.toll]
      cases b.decide node entry taken with
      | none => rfl
      | some child => simp [explore, Nat.add_assoc]
  | cons next rest =>
      rw [visit_spent (List.cons_ne_nil next rest) hspent]
      rfl

theorem Branching.toll_le (b : Branching Entry Node) (node : Node) (entry : Entry) (taken : Bool) :
    b.toll node entry taken ≤ (if taken then b.charge node else 0) + 1 := by
  refine Nat.add_le_add_left ?_ _
  split <;> omega

/-- A visit spends what is charged for it, and then what the search behind it
spends. -/
theorem visit_operations_le (limit : Nat → Nat) (hlimit : ∀ n, n ≤ limit n)
    (hbehind : ∀ child q, b.decide node entry taken = some child →
      (explore b scope entries child q).2.operations ≤ limit q.operations) :
    (visit b scope entries node entry taken p).2.operations ≤
      limit (p.operations + if taken then b.charge node else 0) := by
  rw [visit_eq]
  cases hdecide : b.decide node entry taken with
  | none => exact hlimit _
  | some child => exact hbehind child _ hdecide

/-- Of the two decisions on an entry, one is charged for. -/
theorem charge_once (heads : Bool) (charge : Nat) :
    (if !heads then charge else 0) + (if heads then charge else 0) = charge := by
  cases heads <;> simp

/-- **The budget bounds the work** below a node.  The induction is on the entries:
what is put off at one of them costs one charge and one operation after the
budget is spent. -/
theorem explore_operations_le (hb : b.Narrowing) (hm : b.charge node ≤ m) (scope : Scope)
    (entries : List Entry) (p : Progress) :
    (explore b scope entries node p).2.operations ≤
      max scope.budget (p.operations + 1) + entries.length * (m + 1) := by
  induction entries generalizing node p with
  | nil => simp [explore]
  | cons entry entries ih =>
      rw [List.length_cons, Nat.succ_mul]
      rcases explore_operations_cases b scope entry entries node p with
        hback | ⟨hopen, heads, q, hq, hvisited⟩
      · omega
      · have hvisit : ∀ taken (q : Progress),
            (visit b scope entries node entry taken q).2.operations ≤
              max scope.budget (q.operations + (if taken then b.charge node else 0) + 1) +
                entries.length * (m + 1) := fun taken q =>
          visit_operations_le (fun n => max scope.budget (n + 1) + entries.length * (m + 1))
            (fun n => by omega) fun child q hdecide => ih (Nat.le_trans (hb hdecide) hm) q
        have hfirst := hvisit (!heads) q
        have hcharge := charge_once heads (b.charge node)
        rw [hvisited]
        generalize visit b scope entries node entry (!heads) q = first at *
        rcases Nat.lt_or_ge first.2.operations scope.budget with hwithin | hspent
        · have hsecond := hvisit heads first.2
          omega
        · have htoll := b.toll_le node entry heads
          rw [visit_operations_of_spent hspent]
          omega

/-- **The work below a node, whatever the budget**: it doubles with each entry. -/
theorem explore_operations_le_pow (hb : b.Narrowing) (hm : b.charge node ≤ m) (scope : Scope)
    (entries : List Entry) (p : Progress) :
    (explore b scope entries node p).2.operations + (m + 1) ≤
      p.operations + (m + 2) * 2 ^ entries.length := by
  induction entries generalizing node p with
  | nil =>
      simp only [explore, Progress.evaluate_operations, Progress.spend_operations,
        List.length_nil, Nat.pow_zero]
      omega
  | cons entry entries ih =>
      have hdouble : (m + 2) * 2 ^ (entry :: entries).length =
          (m + 2) * 2 ^ entries.length + (m + 2) * 2 ^ entries.length := by
        rw [List.length_cons, Nat.pow_succ, Nat.mul_two, Nat.mul_add]
      have hpos : m + 2 ≤ (m + 2) * 2 ^ entries.length :=
        Nat.le_mul_of_pos_right _ (Nat.two_pow_pos _)
      rw [hdouble]
      generalize (m + 2) * 2 ^ entries.length = below at *
      rcases explore_operations_cases b scope entry entries node p with
        hback | ⟨-, heads, q, hq, hvisited⟩
      · omega
      · have hvisit : ∀ taken (q : Progress),
            (visit b scope entries node entry taken q).2.operations ≤
              q.operations + (if taken then b.charge node else 0) + below - (m + 1) :=
          fun taken q => visit_operations_le (fun n => n + below - (m + 1))
            (fun n => by omega) fun child q hdecide => by
              have := ih (Nat.le_trans (hb hdecide) hm) q
              omega
        have hfirst := hvisit (!heads) q
        have hsecond := hvisit heads (visit b scope entries node entry (!heads) q).2
        have hcharge := charge_once heads (b.charge node)
        rw [hvisited]
        omega

end Operations

/-! ## Whole searches -/

/-- The other subject. -/
def Subject.other : Subject → Subject
  | .attestations => .voters
  | .voters => .attestations

namespace Reduction

variable {r : Reduction} {subject : Subject}

/-- How many groups of a subject are open. -/
def groupCount (r : Reduction) : Subject → Nat
  | .attestations => r.attestations.length
  | .voters => r.voters.length

/-- Coalitions only lose voters. -/
theorem byAttestations_narrowing (r : Reduction) : r.byAttestations.Narrowing := by
  intro node entry taken child hdecide
  rcases byAttestations_cases hdecide with ⟨-, -, rfl⟩ | ⟨-, rfl⟩
  · exact List.length_filter_le ..
  · exact Nat.le_refl _

/-- What is supported only gets less. -/
theorem byVoters_narrowing (r : Reduction) : r.byVoters.Narrowing := by
  intro node entry taken child hdecide
  rcases byVoters_cases hdecide with ⟨-, rfl⟩ | ⟨-, -, rfl⟩
  · exact List.length_filter_le ..
  · exact Nat.le_refl _

theorem length_entriesAt {order : List Nat}
    (horder : order.Perm (List.range r.attestations.length)) :
    (r.entriesAt order).length = r.attestations.length := by
  have hpositions : (r.entriesAt order).map (·.2) = order :=
    entriesAt_positions fun j hj => List.mem_range.mp (horder.mem_iff.mp hj)
  rw [← List.length_map (·.2), hpositions, horder.length_eq, List.length_range]

/-- **What a search is, whatever its subject**: idle if there is no majority, and
otherwise an exploration that decides the groups of its subject, with a charge for
the groups of the other one. -/
theorem search_cases {motive : (Nat → Run) → Prop} (seed : Seed) (bound : Worth)
    (hidle : motive fun budget => ⟨subject, none, 0, decide (0 < budget), none⟩)
    (hexplores : ∀ {Entry Node : Type} (b : Branching Entry Node) (entries : List Entry)
      (node : Node) (p : Progress) (read : Leaf → Assignment), b.Narrowing →
      entries.length = r.groupCount subject → b.charge node = r.groupCount subject.other →
      p.operations = 0 →
      motive fun budget => runOf subject budget read (explore b ⟨budget, r.total⟩ entries node p)) :
    motive fun budget => r.search subject budget seed bound := by
  by_cases hmajority : r.half < r.weight
  · cases subject with
    | attestations =>
        simp only [search_attestations hmajority]
        exact hexplores r.byAttestations _ _ _ _ r.byAttestations_narrowing
          (length_entriesAt (r.drawnOrder_perm seed)) rfl rfl
    | voters =>
        simp only [search_voters hmajority]
        exact hexplores r.byVoters _ _ _ _ r.byVoters_narrowing rfl List.length_zipIdx rfl
  · simp only [search_no_majority (Nat.not_lt.mp hmajority)]
    exact hidle

/-- **The budget bounds the work** of a search. -/
theorem search_operations_le (r : Reduction) (subject : Subject) (budget : Nat) (seed : Seed)
    (bound : Worth) : (r.search subject budget seed bound).operations ≤
      max budget 1 + r.groupCount subject * (r.groupCount subject.other + 1) := by
  refine search_cases (motive := fun runs => ∀ budget, (runs budget).operations ≤
    max budget 1 + r.groupCount subject * (r.groupCount subject.other + 1)) seed bound ?_ ?_ budget
  · exact fun _ => Nat.zero_le _
  · intro Entry Node b entries node p read hb hentries hcharge hp budget
    have hspent := explore_operations_le hb (Nat.le_of_eq hcharge) ⟨budget, r.total⟩ entries p
    rwa [hp, hentries] at hspent

/-- **The work of a search, whatever its budget.** -/
theorem search_operations_le_pow (r : Reduction) (subject : Subject) (budget : Nat) (seed : Seed)
    (bound : Worth) : (r.search subject budget seed bound).operations ≤
      (r.groupCount subject.other + 2) * 2 ^ r.groupCount subject := by
  refine search_cases (motive := fun runs => ∀ budget, (runs budget).operations ≤
    (r.groupCount subject.other + 2) * 2 ^ r.groupCount subject) seed bound ?_ ?_ budget
  · exact fun _ => Nat.zero_le _
  · intro Entry Node b entries node p read hb hentries hcharge hp budget
    have hspent := explore_operations_le_pow hb (Nat.le_of_eq hcharge) ⟨budget, r.total⟩ entries p
    rw [hp, hentries, Nat.zero_add] at hspent
    exact Nat.le_trans (Nat.le_add_right _ _) hspent

/-- **The budget bounds the work** of searching a round, and no coalition is found
on the way that outweighs everybody. -/
theorem search_within_budget {votes : List WeightedBallot} {total : Nat} (fees : List Nat)
    (hweight : (votes.map (·.weight)).sum ≤ total) (subject : Subject) (budget : Nat)
    (seed : Seed) (bound : Worth) :
    ((ofRound votes fees total).search subject budget seed bound).overweight = none ∧
      ((ofRound votes fees total).search subject budget seed bound).operations ≤
        max budget 1 + (ofRound votes fees total).groupCount subject *
          ((ofRound votes fees total).groupCount subject.other + 1) :=
  ⟨(search_answers (weight_ofRound_le fees hweight) subject budget seed bound).overweight,
    search_operations_le _ subject budget seed bound⟩

/-- A search by attestations that may spend fourteen operations and spends
twenty-two. -/
theorem search_within_budget_of_cycle :
    (Agreement.cycleVotes.map (·.weight)).sum ≤ 3 ∧
      (cycle.search .attestations 14 (.ofNumber 7) .zero).operations = 22 ∧
      cycle.groupCount .attestations = 3 ∧ cycle.groupCount .voters = 3 ∧
      (cycle.search .attestations 14 (.ofNumber 7) .zero).overweight = none ∧
      22 ≤ max 14 1 + 3 * (3 + 1) := by
  have hweight : (Agreement.cycleVotes.map (·.weight)).sum ≤ 3 := by decide
  have hattestations : cycle.groupCount .attestations = 3 := by decide +kernel
  have hvoters : cycle.groupCount .voters = 3 := by decide +kernel
  have hspent : (cycle.search .attestations 14 (.ofNumber 7) .zero).operations = 22 := by
    decide +kernel
  obtain ⟨hlight, hwithin⟩ := search_within_budget [1, 1, 1] hweight .attestations 14
    (.ofNumber 7) .zero
  change (cycle.search _ _ _ _).operations ≤ max 14 1 + cycle.groupCount .attestations *
    (cycle.groupCount .voters + 1) at hwithin
  rw [hspent, hattestations, hvoters] at hwithin
  exact ⟨hweight, hspent, hattestations, hvoters, hlight, hwithin⟩

end Reduction

end BallotConsensus
