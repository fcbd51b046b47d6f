import Mathlib.Data.List.Basic
import Mathlib.Logic.Function.Basic

/-!
# Loops over an array

An array is a function on its positions, and a loop writes to some of them.  Two kinds
of loops: one whose writes to a position do not depend on the step that makes them, and
one that changes each position that it comes to on its own.

## Main results

* `foldl_write_of_mem`, `foldl_write_of_notMem`: what a loop writes to a position, and where it
  writes nothing.
* `foldl_modify_of_mem`: a loop that changes each of its positions once.
-/

namespace ArrayLoop

universe u v

variable {α : Type u} {V : Type v} {target : α → Option ℕ} {value : ℕ → V} {array : ℕ → V}
variable {steps : List α} {positions : List ℕ} {change : ℕ → V → V} {j : ℕ}

/-- A step writes its position, if it has one. -/
def write (target : α → Option ℕ) (value : ℕ → V) (array : ℕ → V) (step : α) : ℕ → V :=
  match target step with
  | some j => Function.update array j (value j)
  | none => array

theorem write_of_target {step : α} (h : target step = some j) :
    write target value array step j = value j := by
  simp [write, h]

theorem write_of_ne {step : α} (h : target step ≠ some j) :
    write target value array step j = array j := by
  unfold write
  cases hstep : target step with
  | none => rfl
  | some other =>
      have hne : j ≠ other := fun heq => h (heq ▸ hstep)
      exact Function.update_of_ne hne _ _

/-- What is written stays. -/
theorem foldl_write_of_eq (h : array j = value j) :
    steps.foldl (write target value) array j = value j := by
  induction steps generalizing array with
  | nil => exact h
  | cons step steps ih =>
      refine ih ?_
      by_cases hstep : target step = some j
      · exact write_of_target hstep
      · rw [write_of_ne hstep, h]

/-- **A position that a step writes holds the value of the position.** -/
theorem foldl_write_of_mem (h : ∃ step ∈ steps, target step = some j) :
    steps.foldl (write target value) array j = value j := by
  induction steps generalizing array with
  | nil => simp at h
  | cons step steps ih =>
      obtain ⟨other, hmem, hother⟩ := h
      rw [List.foldl_cons]
      rcases List.mem_cons.mp hmem with rfl | hlater
      · exact foldl_write_of_eq (write_of_target hother)
      · exact ih ⟨other, hlater, hother⟩

/-- **A position that no step writes is left alone.** -/
theorem foldl_write_of_notMem (h : ∀ step ∈ steps, target step ≠ some j) :
    steps.foldl (write target value) array j = array j := by
  induction steps generalizing array with
  | nil => rfl
  | cons step steps ih =>
      rw [List.forall_mem_cons] at h
      rw [List.foldl_cons, ih h.2, write_of_ne h.1]

/-- A step changes its position. -/
def modify (change : ℕ → V → V) (array : ℕ → V) (position : ℕ) : ℕ → V :=
  Function.update array position (change position (array position))

theorem foldl_modify_of_notMem (h : j ∉ positions) :
    positions.foldl (modify change) array j = array j := by
  induction positions generalizing array with
  | nil => rfl
  | cons position positions ih =>
      rw [List.mem_cons, not_or] at h
      rw [List.foldl_cons, ih h.2, modify, Function.update_of_ne h.1]

/-- **Each position that the loop comes to is changed once**, if it comes there once. -/
theorem foldl_modify_of_mem (hnodup : positions.Nodup) (h : j ∈ positions) :
    positions.foldl (modify change) array j = change j (array j) := by
  induction positions generalizing array with
  | nil => cases h
  | cons position positions ih =>
      obtain ⟨hnew, hnodup⟩ := List.nodup_cons.mp hnodup
      rw [List.foldl_cons]
      by_cases heq : j = position
      · subst heq
        rw [foldl_modify_of_notMem hnew, modify, Function.update_self]
      · rw [ih hnodup ((List.mem_cons.mp h).resolve_left heq), modify,
          Function.update_of_ne heq]

end ArrayLoop
