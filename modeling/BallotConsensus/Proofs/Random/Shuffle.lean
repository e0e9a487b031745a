import Mathlib.Data.List.Induction
import Mathlib.Data.List.Perm.Basic
import Mathlib.Logic.ExistsUnique
import Mathlib.Logic.Function.Iterate
import BallotConsensus.Random.Draws
import BallotConsensus.Random.Shuffle

/-!
# Shuffles are as fair as their draws

A draw matters only through the place that it decides: number `i` is inserted at
draw `i` modulo `i + 1`.  Different places lead to different orders and every order
is reached, so there are as many orders as there are sequences of places, and none
is preferred to another one.

The places are read back from the end.  The last number to be inserted is the
greatest one, and it stands where it was inserted; whatever stood there before has
moved to the end.  Swap both and drop the greatest number, and the order before the
insertion is back.

* `Draws.take_eq` — several draws at once are the next ones of the sequence, and
  no more;
* `Shuffle.getElem?_insert` — one insertion, place by place;
* `Shuffle.IsOrder.insert_inj`, `Shuffle.IsOrder.exists_insert_eq` — insertions can
  be told apart and taken back;
* `Shuffle.inPlace`, with `Shuffle.inPlace_eq` — the same order, drawn in slots that
  are there from the start;
* `Shuffle.ofDraws_bijective` — **one sequence of places for each order.**
-/

namespace BallotConsensus

/-! ## Sequences of draws -/

namespace Draws

/-- The sequence that is left after `n` draws. -/
def after (draws : Draws) (n : Nat) : Draws := (fun draws => draws.next.2)^[n] draws

/-- Draw `i` of a sequence, counted from zero. -/
def nth (draws : Draws) (i : Nat) : UInt64 := (draws.after i).next.1

/-- Taking `n` draws takes the first `n`, one after the other, and no more. -/
theorem take_eq (n : Nat) (draws : Draws) :
    draws.take n = ((List.range n).map draws.nth, draws.after n) := by
  induction n generalizing draws with
  | zero => rfl
  | succ n ih =>
      change (draws.next.1 :: (take n draws.next.2).1, (take n draws.next.2).2) = _
      rw [ih, List.range_succ_eq_map, List.map_cons, List.map_map]
      rfl

/-- Any words are the first draws of some sequence. -/
theorem exists_take_eq (words : List UInt64) :
    ∃ draws : Draws, (draws.take words.length).1 = words := by
  have hpending : ∀ draws : Draws,
      ({ draws with pending := words }.take words.length).1 = words := by
    intro draws
    induction words with
    | nil => rfl
    | cons word words ih => exact congrArg (word :: ·) ih
  exact ⟨_, hpending (ofSeed (.ofNumber 0))⟩

end Draws

namespace Shuffle

/-! ## One insertion -/

/-- An insertion swaps two places that there are. -/
theorem insert_eq_swap (order : Array Nat) (draw : Nat) :
    ∃ hlast hdrawn, insert order draw =
      (order.push order.size).swap order.size (draw % (order.size + 1)) hlast hdrawn := by
  have hlast : order.size < (order.push order.size).size := by simp
  have hdrawn : draw % (order.size + 1) < (order.push order.size).size := by
    rw [Array.size_push]
    exact Nat.mod_lt _ (Nat.succ_pos _)
  refine ⟨hlast, hdrawn, ?_⟩
  rw [insert, Array.swapIfInBounds, dif_pos hlast, dif_pos hdrawn]

@[simp] theorem size_insert (order : Array Nat) (draw : Nat) :
    (insert order draw).size = order.size + 1 := by
  obtain ⟨hlast, hdrawn, heq⟩ := insert_eq_swap order draw
  rw [heq, Array.size_swap, Array.size_push]

/-- **One insertion, place by place**: the next number stands at the drawn place,
and what stood there has moved to the end. -/
theorem getElem?_insert (order : Array Nat) (draw k : Nat) :
    (insert order draw)[k]? =
      if k = draw % (order.size + 1) then some order.size
      else if k = order.size then order[draw % (order.size + 1)]?
      else order[k]? := by
  obtain ⟨hlast, hdrawn, heq⟩ := insert_eq_swap order draw
  rw [heq, Array.getElem?_swap]
  by_cases hplace : k = draw % (order.size + 1)
  · simp [hplace]
  · by_cases hend : k = order.size
    · subst k
      rw [if_neg (Ne.symm hplace), if_pos rfl, if_neg hplace, if_pos rfl,
        ← Array.getElem?_eq_getElem hdrawn, Array.getElem?_push, if_neg (Ne.symm hplace)]
    · rw [if_neg (Ne.symm hplace), if_neg (Ne.symm hend), if_neg hplace, if_neg hend,
        Array.getElem?_push, if_neg hend]

/-- Of a draw only the place matters that it decides. -/
theorem insert_mod (order : Array Nat) (draw : Nat) :
    insert order (draw % (order.size + 1)) = insert order draw := by
  rw [insert, insert, Nat.mod_mod]

/-- An array that lists the numbers below its size, each of them once. -/
def IsOrder (order : Array Nat) : Prop := order.toList.Perm (List.range order.size)

theorem IsOrder.lt_size {order : Array Nat} (h : IsOrder order) {k n : Nat}
    (hk : order[k]? = some n) : n < order.size := by
  have hmem : n ∈ order.toList := Array.mem_toList_iff.mpr (Array.mem_of_getElem? hk)
  exact List.mem_range.mp (h.mem_iff.mp hmem)

/-- **Insertions can be told apart**: the drawn place is where the greatest number
stands. -/
theorem IsOrder.insert_inj {order other : Array Nat} (hother : IsOrder other)
    (hsize : other.size = order.size) {place place' : Nat} (hplace : place ≤ order.size)
    (hplace' : place' ≤ order.size) (heq : insert order place = insert other place') :
    order = other ∧ place = place' := by
  have hat (k : Nat) : (insert order place)[k]? = (insert other place')[k]? := by rw [heq]
  simp only [getElem?_insert, hsize, Nat.mod_eq_of_lt (Nat.lt_succ_of_le hplace),
    Nat.mod_eq_of_lt (Nat.lt_succ_of_le hplace')] at hat
  have hsame : place = place' := by
    -- Where the greatest number was inserted, the other order has a smaller one.
    by_contra hne
    have hgreatest := hat place
    rw [if_pos rfl, if_neg hne] at hgreatest
    split at hgreatest
    · exact absurd (hother.lt_size hgreatest.symm) (by omega)
    · exact absurd (hother.lt_size hgreatest.symm) (by omega)
  subst place'
  refine ⟨Array.ext_getElem? fun k => ?_, rfl⟩
  by_cases hk : k = order.size
  · rw [hk, Array.getElem?_eq_none (Nat.le_refl _), Array.getElem?_eq_none (by omega)]
  · by_cases hdrawn : k = place
    · have hend := hat order.size
      have hmoved : order.size ≠ place := by omega
      rw [if_neg hmoved, if_neg hmoved, if_pos rfl, if_pos rfl] at hend
      rw [hdrawn, hend]
    · have hkept := hat k
      rwa [if_neg hdrawn, if_neg hdrawn, if_neg hk, if_neg hk] at hkept

/-- **Every insertion can be taken back**: swap the greatest number to the end and
drop it there. -/
theorem IsOrder.exists_insert_eq {order : Array Nat} (h : IsOrder order) {n : Nat}
    (hsize : order.size = n + 1) :
    ∃ earlier place, IsOrder earlier ∧ earlier.size = n ∧ place ≤ n ∧
      insert earlier place = order := by
  have hmem : n ∈ order.toList := h.mem_iff.mpr (List.mem_range.mpr (by omega))
  obtain ⟨place, hplace, hgreatest⟩ := List.mem_iff_getElem.mp hmem
  rw [Array.length_toList] at hplace
  rw [Array.getElem_toList] at hgreatest
  have hlast : n < order.size := by omega
  have hswap : (order.swap n place hlast hplace).size = n + 1 := by rw [Array.size_swap, hsize]
  obtain ⟨earlier, last, hback⟩ := Array.exists_push_of_size_eq_add_one hswap
  have hearlier : earlier.size = n := by
    rw [hback, Array.size_push] at hswap
    omega
  have hend : last = n := by
    have hfirst : (order.swap n place hlast hplace)[n]? = some n := by
      rw [Array.getElem?_eq_getElem (by omega), Array.getElem_swap_left, hgreatest]
    rw [hback, Array.getElem?_push, if_pos hearlier.symm] at hfirst
    exact Option.some.inj hfirst
  rw [hend] at hback
  have hrange : earlier.toList.Perm (List.range n) := by
    have hperm := (Array.swap_perm hlast hplace).toList.trans h
    rw [hback, Array.toList_push, hsize, List.range_succ] at hperm
    exact (List.perm_append_right_iff _).mp hperm
  have hle : place ≤ n := by omega
  refine ⟨earlier, place, by rwa [IsOrder, hearlier], hearlier, hle, ?_⟩
  obtain ⟨hsecond, hdrawn, heq⟩ := insert_eq_swap earlier place
  simp only [hearlier, Nat.mod_eq_of_lt (Nat.lt_succ_of_le hle), ← hback] at heq
  rw [heq, Array.swap_swap]

/-! ## In place -/

/-- One step of drawing an order in place: what stands in the drawn slot moves to the
next one, which may be the drawn one itself, and the next number takes the drawn
slot. -/
def drawInto (slots : Array Nat) (next draw : Nat) : Array Nat :=
  (slots.setIfInBounds next (slots.getD (draw % (next + 1)) 0)).setIfInBounds
    (draw % (next + 1)) next

/-- The first slots hold the order so far, and the step inserts into it. -/
theorem drawInto_append (order : Array Nat) (empty draw : Nat) :
    drawInto (order ++ Array.replicate (empty + 1) 0) order.size draw =
      insert order draw ++ Array.replicate empty 0 := by
  have hplace : draw % (order.size + 1) ≤ order.size :=
    Nat.le_of_lt_succ (Nat.mod_lt _ (Nat.succ_pos _))
  refine Array.ext_getElem? fun k => ?_
  simp only [drawInto, Array.getElem?_setIfInBounds, Array.getElem?_append, getElem?_insert,
    size_insert, Array.size_setIfInBounds, Array.size_append, Array.size_replicate,
    Array.getElem?_replicate, Array.getD_eq_getD_getElem?]
  grind

/-- An order drawn in place, in one slot for each draw. -/
def inPlace (draws : List Nat) : List Nat :=
  (draws.zipIdx.foldl (fun slots step => drawInto slots step.2 step.1)
    (Array.replicate draws.length 0)).toList

/-- Drawn in place, an order is the same. -/
theorem inPlace_eq (draws : List Nat) : inPlace draws = ofDraws draws := by
  have hfilled : ∀ (draws : List Nat) (order : Array Nat),
      (draws.zipIdx order.size).foldl (fun slots step => drawInto slots step.2 step.1)
        (order ++ Array.replicate draws.length 0) = draws.foldl insert order := by
    intro draws
    induction draws with
    | nil => intro order; simp
    | cons draw draws ih =>
        intro order
        have hrest := ih (insert order draw)
        rw [size_insert] at hrest
        rw [List.zipIdx_cons, List.foldl_cons, List.length_cons, drawInto_append, hrest,
          List.foldl_cons]
  have h := hfilled draws #[]
  rw [Array.empty_append] at h
  exact congrArg Array.toList h

/-! ## Places -/

/-- The places that draws decide: number `i` is inserted at draw `i` modulo
`i + 1`. -/
def places (draws : List Nat) : List Nat := draws.mapIdx fun i draw => draw % (i + 1)

/-- Places that there are: number `i` is inserted at one of the places `0, …, i`. -/
def InReach (places : List Nat) : Prop :=
  ∀ (i : Nat) place, places[i]? = some place → place ≤ i

theorem inReach_places (draws : List Nat) : InReach (places draws) := by
  intro i place h
  rw [places, List.getElem?_mapIdx, Option.map_eq_some_iff] at h
  obtain ⟨draw, -, rfl⟩ := h
  exact Nat.le_of_lt_succ (Nat.mod_lt _ (Nat.succ_pos i))

theorem inReach_concat {earlier : List Nat} {place : Nat} :
    InReach (earlier ++ [place]) ↔ InReach earlier ∧ place ≤ earlier.length := by
  simp only [InReach, List.getElem?_append]
  constructor
  · intro h
    constructor
    · intro i p hp
      have := h i p
      grind
    · have := h earlier.length place
      grind
  · grind

/-- After every draw an order has been drawn, of as many numbers. -/
theorem isOrder_foldl (draws : List Nat) :
    IsOrder (draws.foldl insert #[]) ∧ (draws.foldl insert #[]).size = draws.length := by
  have hperm : (draws.foldl insert #[]).toList.Perm (List.range draws.length) := perm_range draws
  have hsize : (draws.foldl insert #[]).size = draws.length := by
    simpa using hperm.length_eq
  exact ⟨by rwa [IsOrder, hsize], hsize⟩

/-- **Draws decide an order through their places alone.** -/
theorem ofDraws_places (draws : List Nat) : ofDraws (places draws) = ofDraws draws := by
  refine congrArg Array.toList ?_
  induction draws using List.reverseRecOn with
  | nil => rfl
  | append_singleton draws draw ih =>
      have hsize := (isOrder_foldl draws).2
      rw [places, List.mapIdx_concat, List.foldl_concat, List.foldl_concat]
      change insert ((places draws).foldl insert #[]) _ = _
      rw [ih, ← hsize, insert_mod]

/-- **Different places lead to different orders.**  The induction is on the last
insertion, which can be told from the order. -/
theorem eq_of_ofDraws_eq {ones others : List Nat} (hlength : ones.length = others.length)
    (hones : InReach ones) (hothers : InReach others) (heq : ofDraws ones = ofDraws others) :
    ones = others := by
  have hfilled : ones.foldl insert #[] = others.foldl insert #[] := Array.toList_inj.mp heq
  clear heq
  induction ones using List.reverseRecOn generalizing others with
  | nil => exact (List.eq_nil_of_length_eq_zero hlength.symm).symm
  | append_singleton ones place ih =>
      rcases List.eq_nil_or_concat others with rfl | ⟨others, place', rfl⟩
      · simp at hlength
      · rw [List.concat_eq_append] at *
        obtain ⟨hreach, hplace⟩ := inReach_concat.mp hones
        obtain ⟨hreach', hplace'⟩ := inReach_concat.mp hothers
        have hsame : ones.length = others.length := by simpa using hlength
        obtain ⟨-, hsize⟩ := isOrder_foldl ones
        obtain ⟨horder, hsize'⟩ := isOrder_foldl others
        rw [List.foldl_concat, List.foldl_concat] at hfilled
        obtain ⟨hbefore, rfl⟩ := horder.insert_inj (by omega) (by omega) (by omega) hfilled
        rw [ih hsame hreach hreach' hbefore]

/-- **Every order is drawn**, by places that are found by taking back one insertion
after the other. -/
theorem exists_ofDraws_eq {n : Nat} {order : List Nat} (h : order.Perm (List.range n)) :
    ∃ places, places.length = n ∧ InReach places ∧ ofDraws places = order := by
  have hfilled : ∀ order : Array Nat, IsOrder order → order.size = n →
      ∃ places, places.length = n ∧ InReach places ∧ places.foldl insert #[] = order := by
    clear h
    induction n with
    | zero =>
        intro order _ hsize
        exact ⟨[], rfl, by simp [InReach], (Array.eq_empty_of_size_eq_zero hsize).symm⟩
    | succ n ih =>
        intro order horder hsize
        obtain ⟨earlier, place, hearlier, hlast, hplace, heq⟩ := horder.exists_insert_eq hsize
        obtain ⟨places, hlength, hreach, hplaces⟩ := ih earlier hearlier hlast
        refine ⟨places ++ [place], by simp [hlength], inReach_concat.mpr ⟨hreach, by omega⟩, ?_⟩
        rw [List.foldl_concat, hplaces, heq]
  have hsize : order.toArray.size = n := by simpa using h.length_eq
  obtain ⟨places, hlength, hreach, hplaces⟩ := hfilled order.toArray (by rwa [IsOrder, hsize]) hsize
  exact ⟨places, hlength, hreach, congrArg Array.toList hplaces⟩

/-- **One sequence of places for each order.**  From any sequence of draws, `n` are taken
and no more, and they decide an order of the numbers below `n`; any `n` words can be the
ones that are taken.  Draws decide an order through their places alone, and the same one
in place: number `i` is inserted at draw `i` modulo `i + 1`, which is no more than `i`.
And every order of the numbers below `n` is decided by exactly one sequence of such
places. -/
theorem ofDraws_bijective (n : Nat) :
    (∀ draws : Draws,
      draws.take n = ((List.range n).map draws.nth, draws.after n) ∧
      (ofDraws ((draws.take n).1.map (·.toNat))).Perm (List.range n) ∧
      places ((draws.take n).1.map (·.toNat)) =
        (List.range n).map fun i => (draws.nth i).toNat % (i + 1)) ∧
    (∀ words : List UInt64, words.length = n → ∃ draws : Draws, (draws.take n).1 = words) ∧
    (∀ draws : List Nat, draws.length = n →
      (ofDraws draws).Perm (List.range n) ∧ ofDraws draws = inPlace draws ∧
      (places draws).length = n ∧ InReach (places draws) ∧
      ofDraws (places draws) = ofDraws draws) ∧
    ∀ order : List Nat, order.Perm (List.range n) →
      ∃! places, places.length = n ∧ InReach places ∧ ofDraws places = order := by
  refine ⟨?_, ?_, ?_, ?_⟩
  · intro draws
    have hperm := perm_range ((draws.take n).1.map (·.toNat))
    rw [List.length_map, Draws.length_take] at hperm
    refine ⟨Draws.take_eq n draws, hperm, List.ext_getElem (by simp [places]) fun i _ _ => ?_⟩
    simp [places, Draws.take_eq]
  · intro words hlength
    subst n
    exact Draws.exists_take_eq words
  · intro draws hlength
    subst n
    exact ⟨perm_range draws, (inPlace_eq draws).symm, by simp [places], inReach_places draws,
      ofDraws_places draws⟩
  · intro order horder
    obtain ⟨places, hlength, hreach, hplaces⟩ := exists_ofDraws_eq horder
    refine ⟨places, ⟨hlength, hreach, hplaces⟩, ?_⟩
    intro others hothers
    obtain ⟨hlength', hreach', hothers⟩ := hothers
    exact eq_of_ofDraws_eq (hlength'.trans hlength.symm) hreach' hreach
      (hothers.trans hplaces.symm)

theorem ofDraws_bijective_of_three :
    [5, 8, 9].length = 3 ∧ [2, 0, 1].Perm (List.range 3) ∧
      (ofDraws [5, 8, 9]).Perm (List.range 3) ∧ ofDraws [5, 8, 9] = [2, 0, 1] ∧
      places [5, 8, 9] = [0, 0, 0] ∧ InReach [0, 0, 0] ∧
      (∃! places, places.length = 3 ∧ InReach places ∧ ofDraws places = [2, 0, 1]) ∧
      ∃ draws : Draws, (draws.take 3).1 = [5, 8, 9] := by
  obtain ⟨-, hwords, hdraws, horders⟩ := ofDraws_bijective 3
  obtain ⟨hperm, -, -, hreach, -⟩ := hdraws [5, 8, 9] rfl
  exact ⟨rfl, by decide, hperm, rfl, rfl, hreach, horders [2, 0, 1] (by decide),
    hwords [5, 8, 9] rfl⟩

end Shuffle

end BallotConsensus
