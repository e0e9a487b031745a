/-!
# Shuffling

An order of `0, …, n - 1` is drawn by **inserting** one number after the
other: number `i` goes to a drawn place `j ≤ i`, and what stood there moves
to the end.  One draw decides each place, so `n` draws decide an order.

* `Shuffle.insert` — one insertion;
* `Shuffle.ofDraws` — the order that a list of draws decides;
* `Shuffle.perm_range` — it lists every number exactly once.
-/

namespace BallotConsensus.Shuffle

/-- Inserts the next number at the drawn place. -/
def insert (order : Array Nat) (draw : Nat) : Array Nat :=
  (order.push order.size).swapIfInBounds order.size (draw % (order.size + 1))

/-- The order of the numbers below `draws.length` that the draws decide. -/
def ofDraws (draws : List Nat) : List Nat := (draws.foldl insert #[]).toList

private theorem swapIfInBounds_perm (a : Array Nat) (i j : Nat) :
    (a.swapIfInBounds i j).toList.Perm a.toList := by
  unfold Array.swapIfInBounds
  split
  · split
    · exact (Array.swap_perm _ _).toList
    · exact .refl _
  · exact .refl _

/-- Inserting adds the next number and loses none. -/
theorem insert_perm (order : Array Nat) (draw : Nat) :
    (insert order draw).toList.Perm (order.toList ++ [order.size]) := by
  have h := swapIfInBounds_perm (order.push order.size) order.size (draw % (order.size + 1))
  rwa [Array.toList_push] at h

/-- **A shuffle is a rearrangement.**  Whatever is drawn, every number below
the number of draws is listed exactly once. -/
theorem perm_range (draws : List Nat) : (ofDraws draws).Perm (List.range draws.length) := by
  have go : ∀ (draws : List Nat) (order : Array Nat),
      order.toList.Perm (List.range order.size) →
      (draws.foldl insert order).toList.Perm (List.range (order.size + draws.length)) := by
    intro draws
    induction draws with
    | nil => intro order h; simpa using h
    | cons draw draws ih =>
        intro order h
        have hperm : (insert order draw).toList.Perm (List.range (order.size + 1)) := by
          rw [List.range_succ]
          exact (insert_perm order draw).trans (h.append_right _)
        have hsize : (insert order draw).size = order.size + 1 := by
          rw [← Array.length_toList, hperm.length_eq, List.length_range]
        have := ih (insert order draw) (by rw [hsize]; exact hperm)
        rw [hsize] at this
        rw [List.foldl_cons, List.length_cons, show order.size + (draws.length + 1)
          = order.size + 1 + draws.length by omega]
        exact this
  have := go draws #[] (by simp)
  simpa [ofDraws] using this

end BallotConsensus.Shuffle
