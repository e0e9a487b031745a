import Mathlib.Algebra.BigOperators.Group.List.Basic
import Mathlib.Data.List.Forall2
import BallotConsensus.Proofs.Expansion

/-!
# Lists split into parts

An entry of a list can be split into several that share its amount out among
them.  Each part then has an **origin**, the position of the whole that it comes
from, and the wholes are met in their own order when the list of parts is read
from the front: only later parts may stand anywhere.

Whatever reads a part like its whole cannot tell the two lists apart.  It keeps
and drops whole entries with all their parts, adds up the same amounts, and
finds the same groups in the same order.

* `Parts` — a list of parts and the list of their wholes;
* `Traces` — positions among the parts and among the wholes that mean the same;
* `Parts.filter`, `Parts.sum_eq`, `Parts.all_eq` — what is kept, what it adds up
  to and what holds of all of it;
* `Parts.groups` — **grouping parts groups their wholes.**
-/

namespace BallotConsensus

variable {α κ : Type}

/-- **Parts and their wholes.**  Entries have a position and an amount.  Entry
`v` of `origin` is the position of the whole that the part at position `v` comes
from. -/
structure Parts (position amount : α → Nat) (origin : List Nat) (parts wholes : List α) :
    Prop where
  /-- The first parts stand in the order of their wholes. -/
  firsts : (parts.map fun y => origin.getD (position y) 0).eraseDups = wholes.map position
  /-- The parts of a whole add up to it. -/
  sums : ∀ x ∈ wholes,
    ((parts.filter fun y => origin.getD (position y) 0 == position x).map amount).sum = amount x
  /-- No part of a whole is missing. -/
  complete : ∀ v < origin.length, ∀ x ∈ wholes, origin.getD v 0 = position x →
    ∃ y ∈ parts, position y = v

/-- Every part reads like its whole. -/
def ReadAlike (position : α → Nat) (origin : List Nat) (parts wholes : List α)
    (readPart read : α → κ) : Prop :=
  ∀ y ∈ parts, ∀ x ∈ wholes, origin.getD (position y) 0 = position x → readPart y = read x

/-- What is made of a reading does not tell parts from wholes either. -/
theorem ReadAlike.comp {ρ : Type} {position : α → Nat} {origin : List Nat} {parts wholes : List α}
    {readPart read : α → κ} (h : ReadAlike position origin parts wholes readPart read)
    (f : κ → ρ) :
    ReadAlike position origin parts wholes (fun y => f (readPart y)) (fun x => f (read x)) :=
  fun y hy x hx heq => congrArg f (h y hy x hx heq)

/-- Positions of parts that are listed exactly where their origins are. -/
def Traces (origin positionsOfParts positions : List Nat) : Prop :=
  ∀ v < origin.length, (v ∈ positionsOfParts ↔ origin.getD v 0 ∈ positions)

namespace Traces

theorem nil (origin : List Nat) : Traces origin [] [] := fun _ _ => by simp

theorem append {origin parts₁ parts₂ wholes₁ wholes₂ : List Nat}
    (h₁ : Traces origin parts₁ wholes₁) (h₂ : Traces origin parts₂ wholes₂) :
    Traces origin (parts₁ ++ parts₂) (wholes₁ ++ wholes₂) := by
  intro v hv
  rw [List.mem_append, List.mem_append, h₁ v hv, h₂ v hv]

/-- The members of flagged groups trace those of flagged groups. -/
theorem membersOf {origin : List Nat} {groupsOfParts groups : List (List Nat)}
    (h : List.Forall₂ (Traces origin) groupsOfParts groups) (flags : List Bool) :
    Traces origin (Outcome.membersOf groupsOfParts flags) (Outcome.membersOf groups flags) := by
  rw [Outcome.membersOf_eq, Outcome.membersOf_eq]
  induction h generalizing flags with
  | nil => simpa using nil origin
  | cons hmembers _ ih =>
      cases flags with
      | nil => simpa using nil origin
      | cons flag flags =>
          cases flag
          · simpa using ih flags
          · simpa using hmembers.append (ih flags)

/-- The flags of traced positions are those of their origins. -/
theorem ofPositions_eq {origin positionsOfParts positions : List Nat} {count : Nat}
    (h : Traces origin positionsOfParts positions) (hcount : ∀ n ∈ origin, n < count) :
    Flags.ofPositions origin.length positionsOfParts =
      Flags.inOrder origin (Flags.ofPositions count positions) := by
  refine List.ext_getElem (by simp [Flags.inOrder]) fun v hv _ => ?_
  have hlt : v < origin.length := by simpa using hv
  have hcounted : origin.getD v 0 < count := by
    simpa [hlt] using hcount _ (List.getElem_mem hlt)
  have hread : (Flags.inOrder origin (Flags.ofPositions count positions))[v] =
      (Flags.ofPositions count positions).getD (origin.getD v 0) false := by
    simp [Flags.inOrder, hlt]
  rw [hread, Bool.eq_iff_iff, Flags.getD_eq_true, Flags.getElem?_ofPositions,
    ← Option.some.injEq, ← List.getElem?_eq_getElem hv, Flags.getElem?_ofPositions, h v hlt]
  simp only [hlt, hcounted, true_and]

end Traces

namespace Parts

variable {position amount : α → Nat} {origin : List Nat} {parts wholes : List α}

/-- Parts that are listed by position, each with its origin. -/
theorem of_origin (hparts : parts.map position = List.range origin.length)
    (hfirsts : origin.eraseDups = wholes.map position)
    (hsums : ∀ x ∈ wholes,
      (Flags.select (parts.map amount) (origin.map (· == position x))).sum = amount x) :
    Parts position amount origin parts wholes := by
  have horigin : (parts.map fun y => origin.getD (position y) 0) = origin := by
    calc (parts.map fun y => origin.getD (position y) 0)
        = (parts.map position).map (origin.getD · 0) := by rw [List.map_map]; rfl
      _ = origin := by rw [hparts, Flags.map_getD_range rfl]
  refine ⟨by rw [horigin, hfirsts], ?_, ?_⟩
  · intro x hx
    have htest : (parts.map fun y => origin.getD (position y) 0 == position x) =
        origin.map (· == position x) := by
      conv_rhs => rw [← horigin, List.map_map]
      rfl
    rw [← hsums x hx, ← htest, ← Flags.map_select, Flags.select_map]
  · intro v hv x _ _
    refine List.mem_map.mp ?_
    rw [hparts]
    exact List.mem_range.mpr hv

theorem nodup (h : Parts position amount origin parts wholes) : (wholes.map position).Nodup :=
  h.firsts ▸ nodup_eraseDups _

/-- Every part is a part of something. -/
theorem exists_whole (h : Parts position amount origin parts wholes) {y : α} (hy : y ∈ parts) :
    ∃ x ∈ wholes, origin.getD (position y) 0 = position x := by
  have hmem : origin.getD (position y) 0 ∈ wholes.map position := by
    rw [← h.firsts, List.mem_eraseDups]
    exact List.mem_map.mpr ⟨y, hy, rfl⟩
  obtain ⟨x, hx, heq⟩ := List.mem_map.mp hmem
  exact ⟨x, hx, heq.symm⟩

/-- Everything has a part. -/
theorem exists_part (h : Parts position amount origin parts wholes) {x : α} (hx : x ∈ wholes) :
    ∃ y ∈ parts, origin.getD (position y) 0 = position x := by
  have hmem : position x ∈ (parts.map fun y => origin.getD (position y) 0).eraseDups := by
    rw [h.firsts]
    exact List.mem_map_of_mem hx
  obtain ⟨y, hy, heq⟩ := List.mem_map.mp (List.mem_eraseDups.mp hmem)
  exact ⟨y, hy, heq⟩

/-- The positions of the parts trace those of the wholes. -/
theorem traces (h : Parts position amount origin parts wholes) :
    Traces origin (parts.map position) (wholes.map position) := by
  intro v hv
  constructor
  · intro hmem
    obtain ⟨y, hy, rfl⟩ := List.mem_map.mp hmem
    obtain ⟨x, hx, heq⟩ := h.exists_whole hy
    exact List.mem_map.mpr ⟨x, hx, heq.symm⟩
  · intro hmem
    obtain ⟨x, hx, heq⟩ := List.mem_map.mp hmem
    obtain ⟨y, hy, heq⟩ := h.complete v hv x hx heq.symm
    exact List.mem_map.mpr ⟨y, hy, heq⟩

/-- Filters that read parts like their wholes are one filter on positions. -/
theorem exists_positions_filter (h : Parts position amount origin parts wholes)
    {keepPart keep : α → Bool} (halike : ReadAlike position origin parts wholes keepPart keep) :
    ∃ p : Nat → Bool, (∀ y ∈ parts, keepPart y = p (origin.getD (position y) 0)) ∧
      ∀ x ∈ wholes, keep x = p (position x) := by
  have hkeep : ∀ x ∈ wholes,
      keep x = wholes.any fun x' => position x' == position x && keep x' := by
    intro x hx
    rw [Bool.eq_iff_iff, List.any_eq_true]
    constructor
    · intro hkeep
      exact ⟨x, hx, by simp [hkeep]⟩
    · intro hsome
      obtain ⟨x', hx', hboth⟩ := hsome
      obtain ⟨heq, hkeep⟩ := Bool.and_eq_true_iff.mp hboth
      rw [← List.inj_on_of_nodup_map h.nodup hx' hx (eq_of_beq heq), hkeep]
  refine ⟨fun n => wholes.any fun x => position x == n && keep x, ?_, hkeep⟩
  intro y hy
  obtain ⟨x, hx, heq⟩ := h.exists_whole hy
  rw [halike y hy x hx heq, hkeep x hx, heq]

/-- **Whatever reads parts like their wholes keeps all parts of what it
keeps.** -/
theorem filter (h : Parts position amount origin parts wholes) {keepPart keep : α → Bool}
    (halike : ReadAlike position origin parts wholes keepPart keep) :
    Parts position amount origin (parts.filter keepPart) (wholes.filter keep) where
  firsts := by
    obtain ⟨p, hparts, hwholes⟩ := h.exists_positions_filter halike
    rw [List.filter_congr hparts, List.filter_congr hwholes]
    calc ((parts.filter fun y => p (origin.getD (position y) 0)).map
          fun y => origin.getD (position y) 0).eraseDups
        = ((parts.map fun y => origin.getD (position y) 0).filter p).eraseDups := by
          rw [List.filter_map]
          rfl
      _ = (wholes.map position).filter p := by rw [eraseDups_filter, h.firsts]
      _ = (wholes.filter fun x => p (position x)).map position := by
          rw [List.filter_map]
          rfl
  sums := by
    intro x hx
    obtain ⟨hmem, hkeep⟩ := List.mem_filter.mp hx
    rw [← h.sums x hmem, List.filter_filter]
    congr 2
    refine List.filter_congr fun y hy => ?_
    by_cases heq : origin.getD (position y) 0 = position x
    · rw [halike y hy x hmem heq, hkeep, Bool.and_true]
    · rw [beq_eq_false_iff_ne.mpr heq, Bool.false_and]
  complete := by
    intro v hv x hx heq
    obtain ⟨hmem, hkeep⟩ := List.mem_filter.mp hx
    obtain ⟨y, hy, rfl⟩ := h.complete v hv x hmem heq
    exact ⟨y, List.mem_filter.mpr ⟨hy, (halike y hy x hmem heq).trans hkeep⟩, rfl⟩

/-- Parts add up to what their wholes add up to. -/
theorem sum_eq (h : Parts position amount origin parts wholes) :
    (parts.map amount).sum = (wholes.map amount).sum := by
  have hsplit : ((wholes.map position).map fun n =>
      parts.filter fun y => origin.getD (position y) 0 == n).flatten.Perm parts := by
    refine flatten_filter_perm h.nodup fun y hy => ?_
    obtain ⟨x, hx, heq⟩ := h.exists_whole hy
    exact List.mem_map.mpr ⟨x, hx, heq.symm⟩
  rw [← (hsplit.map amount).sum_eq, List.map_flatten, List.sum_flatten, List.map_map,
    List.map_map, List.map_map]
  congr 1
  exact List.map_congr_left h.sums

/-- What holds of all parts holds of all wholes. -/
theorem all_eq (h : Parts position amount origin parts wholes) {testPart test : α → Bool}
    (halike : ReadAlike position origin parts wholes testPart test) :
    parts.all testPart = wholes.all test := by
  rw [Bool.eq_iff_iff, List.all_eq_true, List.all_eq_true]
  constructor
  · intro hall x hx
    obtain ⟨y, hy, heq⟩ := h.exists_part hx
    rw [← halike y hy x hx heq]
    exact hall y hy
  · intro hall y hy
    obtain ⟨x, hx, heq⟩ := h.exists_whole hy
    rw [halike y hy x hx heq]
    exact hall x hx

/-! ## Groups of parts -/

section Groups

variable [BEq κ] [LawfulBEq κ] {keyPart key : α → κ}

/-- Two parts have one key exactly if their wholes have one. -/
def KeysAlike (position : α → Nat) (origin : List Nat) (parts wholes : List α)
    (keyPart key : α → κ) : Prop :=
  ∀ y₁ ∈ parts, ∀ y₂ ∈ parts, ∀ x₁ ∈ wholes, ∀ x₂ ∈ wholes,
    origin.getD (position y₁) 0 = position x₁ → origin.getD (position y₂) 0 = position x₂ →
      (keyPart y₁ = keyPart y₂ ↔ key x₁ = key x₂)

/-- Keys of a part and its whole. -/
def KeysOfPart (position : α → Nat) (origin : List Nat) (parts wholes : List α)
    (keyPart key : α → κ) (kPart k : κ) : Prop :=
  ∃ y ∈ parts, ∃ x ∈ wholes,
    origin.getD (position y) 0 = position x ∧ keyPart y = kPart ∧ key x = k

/-- Keys of parts come in the order of the keys of their wholes. -/
theorem keys (h : Parts position amount origin parts wholes)
    (hkeys : KeysAlike position origin parts wholes keyPart key) :
    List.Forall₂ (KeysOfPart position origin parts wholes keyPart key)
      (parts.map keyPart).eraseDups (wholes.map key).eraseDups := by
  induction hn : wholes.length using Nat.strongRecOn generalizing parts wholes with
  | ind n ih =>
      cases wholes with
      | nil =>
          have hnone : parts = [] := List.eq_nil_iff_forall_not_mem.mpr fun y hy => by
            simpa using h.exists_whole hy
          simp [hnone]
      | cons x wholes =>
          cases parts with
          | nil => simpa using h.firsts
          | cons y parts =>
              -- The first part belongs to the first whole; the entries with
              -- other keys are parts and wholes again, and fewer.
              have hfirst : origin.getD (position y) 0 = position x := by
                have := h.firsts
                rw [List.map_cons, List.eraseDups_cons, List.map_cons] at this
                exact (List.cons.inj this).1
              have hothers : ReadAlike position origin (y :: parts) (x :: wholes)
                  (fun y' => !(keyPart y' == keyPart y)) (fun x' => !(key x' == key x)) := by
                intro y' hy' x' hx' heq
                have := hkeys y' hy' y List.mem_cons_self x' hx' x List.mem_cons_self heq hfirst
                rw [Bool.eq_iff_iff]
                simpa using not_congr this
              have hrest := h.filter hothers
              rw [List.filter_cons_of_neg (by simp), List.filter_cons_of_neg (by simp)] at hrest
              have hlength : (wholes.filter fun x' => !(key x' == key x)).length < n := by
                rw [← hn]
                exact Nat.lt_succ_of_le (List.length_filter_le _ _)
              have hparts : ∀ y' ∈ parts.filter fun y' => !(keyPart y' == keyPart y),
                  y' ∈ y :: parts :=
                fun y' hy' => List.mem_cons_of_mem _ (List.mem_filter.mp hy').1
              have hwholes : ∀ x' ∈ wholes.filter fun x' => !(key x' == key x),
                  x' ∈ x :: wholes :=
                fun x' hx' => List.mem_cons_of_mem _ (List.mem_filter.mp hx').1
              have htail := ih _ hlength hrest (fun y₁ hy₁ y₂ hy₂ x₁ hx₁ x₂ hx₂ =>
                hkeys y₁ (hparts y₁ hy₁) y₂ (hparts y₂ hy₂) x₁ (hwholes x₁ hx₁)
                  x₂ (hwholes x₂ hx₂)) rfl
              rw [List.map_cons, List.map_cons, List.eraseDups_cons, List.eraseDups_cons,
                List.filter_map, List.filter_map]
              refine .cons ⟨y, List.mem_cons_self, x, List.mem_cons_self, hfirst, rfl, rfl⟩
                (htail.imp fun kPart k hpart => ?_)
              obtain ⟨y', hy', x', hx', hpart⟩ := hpart
              exact ⟨y', hparts y' hy', x', hwholes x' hx', hpart⟩

/-- A group of parts and the group of their wholes. -/
structure Grouped (position amount : α → Nat) (origin : List Nat) (parts wholes : List α)
    (keyPart key : α → κ) (groupOfParts group : κ × List α) : Prop where
  keys : KeysOfPart position origin parts wholes keyPart key groupOfParts.1 group.1
  members : Parts position amount origin groupOfParts.2 group.2
  mem_parts : ∀ y ∈ groupOfParts.2, y ∈ parts
  mem_wholes : ∀ x ∈ group.2, x ∈ wholes

/-- **Grouping parts groups their wholes**: the groups correspond one by one,
and each group of parts holds all the parts of a group of wholes. -/
theorem groups (h : Parts position amount origin parts wholes)
    (hkeys : KeysAlike position origin parts wholes keyPart key) :
    List.Forall₂ (Grouped position amount origin parts wholes keyPart key)
      (groupsBy keyPart parts) (groupsBy key wholes) := by
  rw [groupsBy_eq, groupsBy_eq, List.forall₂_map_left_iff, List.forall₂_map_right_iff]
  refine (h.keys hkeys).imp fun kPart k hpart => ⟨hpart, h.filter ?_,
    fun y hy => (List.mem_filter.mp hy).1, fun x hx => (List.mem_filter.mp hx).1⟩
  obtain ⟨y₁, hy₁, x₁, hx₁, heq₁, rfl, rfl⟩ := hpart
  intro y hy x hx heq
  rw [Bool.eq_iff_iff, beq_iff_eq, beq_iff_eq]
  exact hkeys y hy y₁ hy₁ x hx x₁ hx₁ heq heq₁

end Groups

end Parts

end BallotConsensus
