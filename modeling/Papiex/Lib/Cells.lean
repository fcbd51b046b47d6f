import Mathlib.Algebra.Group.Int.Defs
import Mathlib.Algebra.Group.Nat.Defs
import Mathlib.Data.List.Basic

/-!
# Blocks of memory filled from the front

A block of memory is the list of its cells; a cell that was never written has no content.
A program that enters one element after another keeps the elements in the front cells:
the block is *filled* with them.  Entering the next element needs one more cell, and
`realloc` keeps what was entered as long as it fits.

## Main results

* `store_of_lt`, `store_of_le`: a write inside a block, and one outside.
* `Filled.set`, `Filled.realloc`: entering an element, and making room.
-/

namespace Cells

universe u

variable {α : Type u} {cells : List (Option α)} {entries : List α} {a : α} {i n : ℕ}

/-- A new block. -/
def malloc (n : ℕ) : List (Option α) := List.replicate n none

/-- A block of another size with the same front. -/
def realloc (cells : List (Option α)) (n : ℕ) : List (Option α) :=
  cells.take n ++ List.replicate (n - cells.length) none

/-- Write a cell; there is no block any more if the cell is outside of it. -/
def store (cells : List (Option α)) (i : ℤ) (a : α) : Option (List (Option α)) :=
  if 0 ≤ i ∧ i < cells.length then some (cells.set i.toNat (some a)) else none

@[simp] theorem length_malloc : (malloc n : List (Option α)).length = n := List.length_replicate

@[simp] theorem length_realloc : (realloc cells n).length = n := by
  simp only [realloc, List.length_append, List.length_take, List.length_replicate]
  omega

theorem store_of_lt {i : ℕ} (h : i < cells.length) :
    store cells i a = some (cells.set i (some a)) := by
  have hinside : 0 ≤ (i : ℤ) ∧ (i : ℤ) < cells.length := by omega
  rw [store, if_pos hinside, Int.toNat_natCast]

theorem store_of_le {i : ℕ} (h : cells.length ≤ i) : store cells i a = none := by
  have houtside : ¬ (0 ≤ (i : ℤ) ∧ (i : ℤ) < cells.length) := by omega
  rw [store, if_neg houtside]

/-- The front cells hold these elements. -/
def Filled (cells : List (Option α)) (entries : List α) : Prop :=
  cells.take entries.length = entries.map some

@[simp] theorem filled_nil : Filled cells [] := rfl

namespace Filled

theorem length_le (h : Filled cells entries) : entries.length ≤ cells.length := by
  have hlength := congrArg List.length h
  rw [List.length_take, List.length_map] at hlength
  omega

/-- A filled cell. -/
theorem getElem?_of_lt (h : Filled cells entries) (hi : i < entries.length) :
    cells[i]? = some entries[i]? := by
  rw [← List.getElem?_take_of_lt hi, h, List.getElem?_map, List.getElem?_eq_getElem hi]
  rfl

/-- **Resizing a block keeps what was entered.** -/
theorem realloc (h : Filled cells entries) (hn : entries.length ≤ n) :
    Filled (realloc cells n) entries := by
  have hlength := h.length_le
  have hfront : entries.length ≤ (cells.take n).length := by
    rw [List.length_take]
    omega
  unfold Filled Cells.realloc
  rw [List.take_append_of_le_length hfront, List.take_take, Nat.min_eq_left hn]
  exact h

/-- **Entering an element** in the first cell that is left. -/
theorem set (h : Filled cells entries) (hroom : entries.length < cells.length) :
    Filled (cells.set entries.length (some a)) (entries ++ [a]) := by
  unfold Filled
  rw [List.length_append, List.length_singleton, List.take_add_one, List.map_append,
    List.take_set_of_le (Nat.le_refl _), h, List.getElem?_set_self hroom]
  rfl

end Filled

/-- **Where an element occurs** that was entered behind others, once among those entered
with it. -/
theorem getElem?_append_eq_some_iff {front later : List α} {k : ℕ} (hk : later[k]? = some a)
    (hnodup : later.Nodup) (j : ℕ) :
    (front ++ later)[j]? = some a ↔ j = front.length + k ∨ front[j]? = some a := by
  rcases Nat.lt_or_ge j front.length with hj | hj
  · have hne : j ≠ front.length + k := by omega
    rw [List.getElem?_append_left hj, or_iff_right hne]
  · rw [List.getElem?_append_right hj, List.getElem?_eq_none hj]
    constructor
    · intro heq
      obtain ⟨hlt, -⟩ := List.getElem?_eq_some_iff.mp heq
      have hsame := (List.getElem?_inj hlt hnodup).mp (heq.trans hk.symm)
      exact Or.inl (by omega)
    · rintro (rfl | hnone)
      · rwa [Nat.add_sub_cancel_left]
      · cases hnone

end Cells
