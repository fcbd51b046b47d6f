import Mathlib.Data.List.Forall2

/-!
# Related lists

Two lists are related if their elements are, one by one (`List.Forall₂`).
-/

namespace Related

variable {α β : Type*} {R : α → β → Prop} {xs : List α} {ys : List β} {x : α}

/-- A last element is related to the last element. -/
theorem forall₂_append_singleton (h : List.Forall₂ R (xs ++ [x]) ys) :
    ∃ front y, ys = front ++ [y] ∧ List.Forall₂ R xs front ∧ R x y := by
  induction xs generalizing ys with
  | nil =>
      cases h with
      | cons hxy hrest =>
          cases hrest
          exact ⟨[], _, rfl, .nil, hxy⟩
  | cons first xs ih =>
      cases h with
      | cons hfirst hrest =>
          obtain ⟨front, y, rfl, hfront, hxy⟩ := ih hrest
          exact ⟨_ :: front, y, rfl, .cons hfirst hfront, hxy⟩

/-- Each element is related to one of the other list. -/
theorem exists_of_mem (h : List.Forall₂ R xs ys) (hx : x ∈ xs) : ∃ y ∈ ys, R x y := by
  induction h with
  | nil => cases hx
  | @cons first y xs ys hxy _ ih =>
      rcases List.mem_cons.mp hx with rfl | hx
      · exact ⟨y, List.mem_cons_self, hxy⟩
      · obtain ⟨y', hy', hxy'⟩ := ih hx
        exact ⟨y', List.mem_cons_of_mem _ hy', hxy'⟩

/-- Tests that agree on related elements keep related lists related. -/
theorem forall₂_filter {p : α → Bool} {q : β → Bool} (h : List.Forall₂ R xs ys)
    (hpq : ∀ x ∈ xs, ∀ y, R x y → p x = q y) :
    List.Forall₂ R (xs.filter p) (ys.filter q) := by
  induction h with
  | nil => exact .nil
  | @cons x y xs ys hxy _ ih =>
      have hrest := ih fun x hx => hpq x (List.mem_cons_of_mem _ hx)
      have hsame := hpq x List.mem_cons_self y hxy
      rw [List.filter_cons, List.filter_cons, ← hsame]
      split
      · exact .cons hxy hrest
      · exact hrest

end Related
