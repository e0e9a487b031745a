import Mathlib.Algebra.BigOperators.Intervals
import Mathlib.Algebra.Order.BigOperators.Group.List
import BallotConsensus.Flags

/-!
# Selecting by flags

Participation and inclusion are flag lists, and everything that is summed up
over participants or inclusions is a sum over the entries that a flag list
**selects**.  This file states once what such a selection contains and what
it sums up to, so that sums over groups, over ballots and over fees can be
compared position by position.

* `mem_select`, `select_sublist_select` — what is selected, and that more
  flags select more;
* `sum_select_ofPositions` — a sum over the flags of a list of positions is
  the sum over those positions;
* `getElem?_ofPositions`, `testBit_toBits` — the flags of a list of positions
  and the digits of a list of flags;
* `inOrder`, with `inOrder_ofPositions` and `ofPositions_inOrder` — flags as
  they read in another order of their positions, back and forth.
-/

namespace BallotConsensus.Flags

variable {α β : Type}

/-- The entries whose flag is set. -/
def select (entries : List α) (flags : List Bool) : List α :=
  ((entries.zip flags).filter (·.2)).map (·.1)

@[simp] theorem select_nil (flags : List Bool) : select ([] : List α) flags = [] := by
  simp [select]

@[simp] theorem select_no_flags (entries : List α) : select entries [] = [] := by
  simp [select]

@[simp] theorem select_cons (entry : α) (entries : List α) (flag : Bool) (flags : List Bool) :
    select (entry :: entries) (flag :: flags) =
      if flag then entry :: select entries flags else select entries flags := by
  cases flag <;> simp [select]

/-- An entry is selected through the flag at its position. -/
theorem mem_select {entries : List α} {flags : List Bool} {entry : α} :
    entry ∈ select entries flags ↔
      ∃ i : Nat, entries[i]? = some entry ∧ flags[i]? = some true := by
  have hzip : entry ∈ select entries flags ↔ (entry, true) ∈ entries.zip flags := by
    simp [select]
  rw [hzip, List.mem_iff_getElem?]
  simp only [List.getElem?_zip_eq_some]

/-- Of distinct entries, those at flagged positions are selected. -/
theorem getElem_mem_select {entries : List α} (hnodup : entries.Nodup) {flags : List Bool}
    {i : Nat} {hi : i < entries.length} : entries[i] ∈ select entries flags ↔
      flags[i]? = some true := by
  rw [mem_select]
  constructor
  · intro hmem
    obtain ⟨k, hk, hflag⟩ := hmem
    obtain ⟨hlt, hk⟩ := List.getElem?_eq_some_iff.mp hk
    obtain rfl := (List.getElem_inj hnodup).mp hk
    exact hflag
  · intro hflag
    exact ⟨i, List.getElem?_eq_getElem hi, hflag⟩

theorem select_sublist (entries : List α) (flags : List Bool) :
    (select entries flags).Sublist entries := by
  induction entries generalizing flags with
  | nil => simp
  | cons entry entries ih =>
      cases flags with
      | nil => simp
      | cons flag flags =>
          cases flag
          · simpa using (ih flags).cons entry
          · simpa using ih flags

/-- More flags select more. -/
theorem select_sublist_select {entries : List α} {fewer more : List Bool}
    (h : ∀ i, i < entries.length → fewer[i]? = some true → more[i]? = some true) :
    (select entries fewer).Sublist (select entries more) := by
  induction entries generalizing fewer more with
  | nil => simp
  | cons entry entries ih =>
      cases fewer with
      | nil => simp
      | cons f fewer =>
          have hhead := h 0 (by simp)
          have htail : ∀ i, i < entries.length → fewer[i]? = some true →
              more.tail[i]? = some true := by
            intro i hi hf
            simpa using h (i + 1) (by simpa using hi) (by simpa using hf)
          cases more with
          | nil =>
              cases f
              · simpa using ih htail
              · simp at hhead
          | cons m more =>
              have hsub : (select entries fewer).Sublist (select entries more) := ih htail
              cases f <;> cases m
              · simpa using hsub
              · simpa using hsub.cons entry
              · simp at hhead
              · simpa using hsub

theorem select_append {entries : List α} {flags : List Bool}
    (h : entries.length = flags.length) (moreEntries : List α) (moreFlags : List Bool) :
    select (entries ++ moreEntries) (flags ++ moreFlags) =
      select entries flags ++ select moreEntries moreFlags := by
  rw [select, List.zip_append h, List.filter_append, List.map_append]
  rfl

/-- Flags that a test on the entries sets select what passes the test. -/
theorem select_map (entries : List α) (p : α → Bool) :
    select entries (entries.map p) = entries.filter p := by
  induction entries with
  | nil => simp
  | cons entry entries ih => cases h : p entry <;> simp [h, ih]

theorem map_select (f : α → β) (entries : List α) (flags : List Bool) :
    (select entries flags).map f = select (entries.map f) flags := by
  induction entries generalizing flags with
  | nil => simp
  | cons entry entries ih =>
      cases flags with
      | nil => simp
      | cons flag flags => cases flag <;> simp [ih]

/-- Flags that a test on entries and positions sets select what passes the
test. -/
theorem select_map_zipIdx (entries : List α) (p : α × Nat → Bool) :
    select entries (entries.zipIdx.map p) = (entries.zipIdx.filter p).map (·.1) := by
  conv_lhs => rw [← List.zipIdx_map_fst 0 entries]
  rw [← map_select, List.zipIdx_map_fst, select_map]

/-- Selecting one of several distinct entries sums up to its amount. -/
theorem sum_select_once [BEq α] [LawfulBEq α] {entries : List α} (hnodup : entries.Nodup) {x : α}
    (hx : x ∈ entries) (amount : α → Nat) :
    (select (entries.map amount) (entries.map (· == x))).sum = amount x := by
  rw [← map_select, select_map, List.filter_beq, List.count_eq_one_of_mem hnodup hx]
  simp

/-- More flags sum up to more. -/
theorem sum_select_le {entries : List α} {fewer more : List Bool} (f : α → Nat)
    (h : ∀ i, i < entries.length → fewer[i]? = some true → more[i]? = some true) :
    ((select entries fewer).map f).sum ≤ ((select entries more).map f).sum :=
  ((select_sublist_select h).map f).sum_le_sum (by simp)

/-- The entries of a list by position. -/
theorem map_getD_range {ns : List Nat} {n : Nat} (hlen : ns.length = n) :
    (List.range n).map (ns.getD · 0) = ns := by
  refine List.ext_getElem (by simp [hlen]) fun i _ hi => ?_
  simp [hi]

/-- Selecting by flags is selecting by position. -/
theorem sum_select (ns : List Nat) (flags : List Bool) :
    (select ns flags).sum =
      ∑ i ∈ Finset.range ns.length, if flags[i]? = some true then ns.getD i 0 else 0 := by
  induction ns generalizing flags with
  | nil => simp
  | cons n ns ih =>
      cases flags with
      | nil => simp
      | cons flag flags =>
          rw [List.length_cons, Finset.sum_range_succ']
          cases flag <;> simp [ih flags, Nat.add_comm]

/-- A position is flagged iff it is listed. -/
theorem getElem?_ofPositions {n i : Nat} {chosen : List Nat} :
    (ofPositions n chosen)[i]? = some true ↔ i < n ∧ i ∈ chosen := by
  have go : ∀ (l : List Nat) (a : Array Bool),
      (l.foldl (fun flags position => flags.setIfInBounds position true) a)[i]? = some true ↔
        a[i]? = some true ∨ i < a.size ∧ i ∈ l := by
    intro l
    induction l with
    | nil => intro a; simp
    | cons x l ih =>
        intro a
        rw [List.foldl_cons, ih, Array.getElem?_setIfInBounds, Array.size_setIfInBounds]
        by_cases hx : x = i
        · subst x
          by_cases hi : i < a.size
          · simp [hi]
          · simp [hi]
        · simp [hx, Ne.symm hx]
  rw [ofPositions, Array.getElem?_toList, go]
  simp [Array.getElem?_replicate]

/-- **Sums over listed positions.**  Selecting by the flags of distinct
positions sums up what stands at those positions. -/
theorem sum_select_ofPositions {ns : List Nat} {n : Nat} {chosen : List Nat}
    (hlen : ns.length = n) (hnodup : chosen.Nodup) (hlt : ∀ i ∈ chosen, i < n) :
    (select ns (ofPositions n chosen)).sum = (chosen.map (ns.getD · 0)).sum := by
  have hset : (Finset.range n).filter (· ∈ chosen) = chosen.toFinset := by
    ext i
    simp only [Finset.mem_filter, Finset.mem_range, List.mem_toFinset]
    exact ⟨And.right, fun hi => ⟨hlt i hi, hi⟩⟩
  rw [sum_select, hlen, ← List.sum_toFinset _ hnodup, ← hset, Finset.sum_filter]
  refine Finset.sum_congr rfl fun i hi => ?_
  simp only [getElem?_ofPositions, Finset.mem_range.mp hi, true_and]

/-- Digit `i` of a list of flags is flag `i`. -/
theorem testBit_toBits (flags : List Bool) (i : Nat) :
    (toBits flags).testBit i = flags.getD i false := by
  induction flags generalizing i with
  | nil => simp
  | cons flag flags ih =>
      cases i with
      | zero => cases flag <;> simp [Nat.testBit_zero]
      | succ i =>
          have hhalf : (2 * toBits flags + flag.toNat) / 2 = toBits flags := by
            have := flag.toNat_lt
            omega
          rw [toBits_cons, Nat.testBit_succ, hhalf, ih]
          simp

/-- Two tests on a list are written as one number exactly if they agree on all
of it. -/
theorem toBits_map_inj {entries : List α} {p q : α → Bool} :
    toBits (entries.map p) = toBits (entries.map q) ↔ ∀ x ∈ entries, p x = q x := by
  constructor
  · intro h x hx
    obtain ⟨i, hi⟩ := List.mem_iff_getElem?.mp hx
    have hdigit := congrArg (Nat.testBit · i) h
    simpa [testBit_toBits, List.getD_eq_getElem?_getD, hi] using hdigit
  · intro h
    rw [List.map_congr_left h]

/-- What lies beyond the flags is not flagged. -/
theorem getD_eq_true {flags : List Bool} {i : Nat} :
    flags.getD i false = true ↔ flags[i]? = some true := by
  rw [List.getD_eq_getElem?_getD]
  cases flags[i]? <;> simp

/-- Flags are known by how many they are and which of them are set. -/
theorem ext_flagged {flags others : List Bool} (hlength : flags.length = others.length)
    (h : ∀ i : Nat, flags[i]? = some true ↔ others[i]? = some true) : flags = others := by
  refine List.ext_getElem hlength fun i hi hother => ?_
  have hflag := h i
  rw [List.getElem?_eq_getElem hi, List.getElem?_eq_getElem hother, Option.some.injEq,
    Option.some.injEq] at hflag
  exact Bool.eq_iff_iff.mpr hflag

/-- The set positions are the ones with a flag. -/
theorem mem_positions {flags : List Bool} {i : Nat} :
    i ∈ positions flags ↔ flags[i]? = some true := by
  simp only [positions, List.mem_filterMap, Prod.exists, Option.ite_none_right_eq_some,
    Option.some.injEq, List.mk_mem_zipIdx_iff_getElem?]
  grind

/-! ## Flags in another order -/

/-- Flags read in some order of their positions. -/
def inOrder (order : List Nat) (flags : List Bool) : List Bool :=
  order.map (flags.getD · false)

/-- Flags read in their own order. -/
theorem inOrder_range (flags : List Bool) : inOrder (List.range flags.length) flags = flags := by
  refine List.ext_getElem (by simp [inOrder]) fun i _ hi => ?_
  simp [inOrder, hi]

/-- Flags of which none is set read unset in any order. -/
theorem inOrder_replicate_false (order : List Nat) (n : Nat) :
    inOrder order (List.replicate n false) = List.replicate order.length false := by
  rw [inOrder, List.map_eq_replicate_iff]
  intro i _
  rw [List.getD_eq_getElem?_getD, List.getElem?_replicate]
  split <;> rfl

/-- Flags that are set from how they read in an order read that way. -/
theorem inOrder_ofPositions {order : List Nat} {n : Nat} {decisions : List Bool}
    (horder : order.Perm (List.range n)) (hlength : decisions.length = order.length) :
    inOrder order (ofPositions n (select order decisions)) = decisions := by
  have hnodup : order.Nodup := horder.nodup_iff.mpr List.nodup_range
  refine List.ext_getElem (by simp [inOrder, hlength]) fun i _ hi => ?_
  have hlt : order[i] < n := List.mem_range.mp (horder.mem_iff.mp (List.getElem_mem _))
  have hread : (inOrder order (ofPositions n (select order decisions)))[i] =
      (ofPositions n (select order decisions)).getD order[i] false := by
    simp [inOrder]
  rw [hread, Bool.eq_iff_iff, getD_eq_true, getElem?_ofPositions, getElem_mem_select hnodup,
    List.getElem?_eq_getElem hi]
  simp [hlt]

/-- Flags are set from how they read in an order of all their positions. -/
theorem ofPositions_inOrder {order : List Nat} {flags : List Bool}
    (horder : order.Perm (List.range flags.length)) :
    ofPositions flags.length (select order (inOrder order flags)) = flags := by
  refine ext_flagged (by simp) fun i => ?_
  rw [getElem?_ofPositions, inOrder, select_map, List.mem_filter, horder.mem_iff,
    List.mem_range, getD_eq_true]
  refine ⟨fun hset => hset.2.2, fun hflag => ?_⟩
  have hi := (List.getElem?_eq_some_iff.mp hflag).1
  exact ⟨hi, hi, hflag⟩

end BallotConsensus.Flags
