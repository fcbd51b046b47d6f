import Mathlib.Algebra.Order.BigOperators.Group.List
import Mathlib.Algebra.Order.Group.Unbundled.Basic
import Mathlib.Data.List.Induction
import Mathlib.Tactic.Abel
import Mathlib.Tactic.GCongr

/-!
# Intervals that follow each other

A list of intervals between two times, each beginning when the one before it has
ended.  They are pairwise disjoint but for their ends, and so their lengths add up
to no more than the time between.

## Main results

* `Consecutive`: the intervals follow each other; `Consecutive.concat` adds one.
* `Consecutive.lengths_le`: their lengths fit between the two times.
-/

namespace Intervals

universe u

section Lengths

variable {G : Type u} [AddCommGroup G]

/-- The lengths of the intervals, added up. -/
def lengths (intervals : List (G × G)) : G :=
  (intervals.map fun interval => interval.2 - interval.1).sum

@[simp] theorem lengths_nil : lengths ([] : List (G × G)) = 0 := rfl

theorem lengths_concat (intervals : List (G × G)) (interval : G × G) :
    lengths (intervals ++ [interval]) = lengths intervals + (interval.2 - interval.1) := by
  simp [lengths]

end Lengths

variable {G : Type u} [LinearOrder G]

/-- **The intervals follow each other** from `first` to `last`. -/
structure Consecutive (first last : G) (intervals : List (G × G)) : Prop where
  le : first ≤ last
  inside : ∀ interval ∈ intervals,
    first ≤ interval.1 ∧ interval.1 ≤ interval.2 ∧ interval.2 ≤ last
  ordered : intervals.Pairwise fun earlier later => earlier.2 ≤ later.1

namespace Consecutive

variable {first last start stop : G} {intervals : List (G × G)}

theorem nil (h : first ≤ last) : Consecutive first last [] :=
  ⟨h, by simp, List.Pairwise.nil⟩

theorem mono (h : Consecutive first last intervals) {later : G} (hle : last ≤ later) :
    Consecutive first later intervals := by
  refine ⟨h.le.trans hle, fun interval hmem => ?_, h.ordered⟩
  obtain ⟨hfirst, hproper, hlast⟩ := h.inside interval hmem
  exact ⟨hfirst, hproper, hlast.trans hle⟩

/-- One more interval, after all the others. -/
theorem concat (h : Consecutive first start intervals) (hle : start ≤ stop) :
    Consecutive first stop (intervals ++ [(start, stop)]) := by
  refine ⟨h.le.trans hle, ?_, ?_⟩
  · intro interval hmem
    rcases List.mem_append.mp hmem with hmem | hmem
    · exact (h.mono hle).inside interval hmem
    · rw [List.mem_singleton.mp hmem]
      exact ⟨h.le, hle, le_rfl⟩
  · rw [List.pairwise_append]
    refine ⟨h.ordered, List.pairwise_singleton _ _, ?_⟩
    intro earlier hearlier later hlater
    rw [List.mem_singleton.mp hlater]
    exact (h.inside earlier hearlier).2.2

/-- Without the last interval they end before that begins. -/
theorem of_concat {interval : G × G} (h : Consecutive first last (intervals ++ [interval])) :
    Consecutive first interval.1 intervals ∧ interval.1 ≤ interval.2 ∧ interval.2 ≤ last := by
  obtain ⟨hfirst, hproper, hlast⟩ := h.inside interval (by simp)
  have hordered := List.pairwise_append.mp h.ordered
  refine ⟨⟨hfirst, fun earlier hearlier => ?_, hordered.1⟩, hproper, hlast⟩
  obtain ⟨hbegin, hmiddle, -⟩ := h.inside earlier (List.mem_append_left _ hearlier)
  exact ⟨hbegin, hmiddle, hordered.2.2 earlier hearlier interval (by simp)⟩

variable [AddCommGroup G] [IsOrderedAddMonoid G]

theorem lengths_nonneg (h : Consecutive first last intervals) : 0 ≤ lengths intervals := by
  refine List.sum_nonneg fun length hlength => ?_
  obtain ⟨interval, hmem, rfl⟩ := List.mem_map.mp hlength
  exact sub_nonneg.mpr (h.inside interval hmem).2.1

/-- **The lengths add up to no more than the time between.** -/
theorem lengths_le (h : Consecutive first last intervals) :
    lengths intervals ≤ last - first := by
  induction intervals using List.reverseRecOn generalizing last with
  | nil => exact sub_nonneg.mpr h.le
  | append_singleton intervals interval ih =>
      obtain ⟨hearlier, -, hlast⟩ := h.of_concat
      rw [lengths_concat]
      calc lengths intervals + (interval.2 - interval.1)
          ≤ (interval.1 - first) + (interval.2 - interval.1) := by gcongr; exact ih hearlier
        _ = interval.2 - first := by abel
        _ ≤ last - first := sub_le_sub_right hlast first

end Consecutive

end Intervals
