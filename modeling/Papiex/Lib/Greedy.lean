import Mathlib.Algebra.BigOperators.Group.Finset.Piecewise
import Mathlib.Algebra.GroupWithZero.Nat
import Mathlib.Data.Fintype.Basic
import Mathlib.Tactic.Common

/-!
# Labelling a list greedily

The items of a list get labels from left to right.  A label may depend on the item
and on the items before it that got one particular label, the ones that were kept.
Nothing is assumed about the rule: an item may fit to few items and not to more, or
the other way round.

## Main results

* `follows_run`: each item is labelled by what was kept before it.
* `sum_labelled`: each occurrence is counted under one label.
-/

namespace Greedy

variable {α L : Type*}

/-- The items with this label, in their order. -/
def labelled [DecidableEq L] (l : L) (items : List (α × L)) : List α :=
  (items.filter fun item => item.2 = l).map Prod.fst

section Labelled

variable [DecidableEq L] {l : L} {items others : List (α × L)}

@[simp] theorem labelled_nil : labelled l ([] : List (α × L)) = [] := rfl

@[simp] theorem labelled_append :
    labelled l (items ++ others) = labelled l items ++ labelled l others := by
  simp [labelled]

theorem labelled_singleton (x : α) (l' : L) :
    labelled l [(x, l')] = if l' = l then [x] else [] := by
  by_cases h : l' = l <;> simp [labelled, h]

/-- **Every occurrence is counted under exactly one label.** -/
theorem sum_labelled [Fintype L] (f : α → ℕ) (items : List (α × L)) :
    ∑ l, ((labelled l items).map f).sum = ((items.map Prod.fst).map f).sum := by
  induction items with
  | nil => simp
  | cons item items ih =>
      obtain ⟨x, l'⟩ := item
      have hcons : ∀ l, ((labelled l ((x, l') :: items)).map f).sum =
          (if l' = l then f x else 0) + ((labelled l items).map f).sum := by
        intro l
        rw [← List.singleton_append, labelled_append, labelled_singleton]
        split <;> simp
      have hone : ∑ l, (if l' = l then f x else 0) = f x := by simp
      simp only [hcons, Finset.sum_add_distrib, hone, ih, List.map_cons, List.sum_cons]

end Labelled

variable [DecidableEq L] (keep : L) (label : List α → α → L)

/-- One item gets its label. -/
def next (done : List (α × L)) (x : α) : List (α × L) :=
  done ++ [(x, label (labelled keep done) x)]

/-- The items with their labels. -/
def run (items : List α) : List (α × L) := items.foldl (next keep label) []

/-- **The rule**: each label is given by the item and the kept ones before it. -/
def Follows (done : List (α × L)) : Prop :=
  ∀ front x l rest, done = front ++ (x, l) :: rest → l = label (labelled keep front) x

variable {keep label} {items : List α} {done : List (α × L)}

theorem run_concat (items : List α) (x : α) :
    run keep label (items ++ [x]) = next keep label (run keep label items) x := by
  simp [run]

theorem map_fst_run (items : List α) : (run keep label items).map Prod.fst = items := by
  induction items using List.reverseRecOn with
  | nil => rfl
  | append_singleton items x ih => rw [run_concat, next, List.map_append, ih]; rfl

/-- One item more is labelled by what was kept before it. -/
theorem Follows.next (h : Follows keep label done) (x : α) :
    Follows keep label (next keep label done x) := by
  intro front y l rest hsplit
  rw [Greedy.next] at hsplit
  cases rest using List.reverseRecOn with
  | nil =>
      obtain ⟨rfl, hlast⟩ := List.append_inj' hsplit rfl
      obtain ⟨rfl, rfl⟩ := Prod.mk.inj (List.singleton_inj.mp hlast)
      rfl
  | append_singleton rest z _ =>
      rw [← List.cons_append, ← List.append_assoc] at hsplit
      exact h front y l rest (List.append_inj' hsplit rfl).1

/-- **Each item is labelled by what was kept before it.** -/
theorem follows_run (items : List α) : Follows keep label (run keep label items) := by
  induction items using List.reverseRecOn with
  | nil =>
      intro front x l rest hsplit
      cases front <;> cases hsplit
  | append_singleton items x ih =>
      rw [run_concat]
      exact ih.next x

end Greedy
