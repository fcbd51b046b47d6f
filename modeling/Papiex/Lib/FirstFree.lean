import Mathlib.Data.Nat.Basic

/-!
# Searching for the first free number

A loop that counts up from a start until a number is free.  The loop has no
bound of its own; the search takes a fuel, and its result does not depend on
how much there was.

## Main results

* `exists_search_iff`: the search finds the first free number, given fuel enough.
-/

namespace FirstFree

variable {free : ℕ → Bool} {fuel start n : ℕ}

/-- The first free number from `start` on, if the fuel reaches it. -/
def search (free : ℕ → Bool) : ℕ → ℕ → Option ℕ
  | 0, _ => none
  | fuel + 1, start => if free start then some start else search free fuel (start + 1)

/-- The number is free and the ones before it, from the start on, are not. -/
structure IsFirst (free : ℕ → Bool) (start n : ℕ) : Prop where
  le : start ≤ n
  isFree : free n = true
  taken : ∀ m, start ≤ m → m < n → free m = false

theorem isFirst_of_search (h : search free fuel start = some n) : IsFirst free start n := by
  induction fuel generalizing start with
  | zero => cases h
  | succ fuel ih =>
      unfold search at h
      by_cases hfree : free start = true
      · rw [if_pos hfree] at h
        cases h
        exact ⟨le_rfl, hfree, fun m hle hlt => absurd hle (not_le.mpr hlt)⟩
      · rw [if_neg hfree] at h
        have hrest := ih h
        refine ⟨Nat.le_of_succ_le hrest.le, hrest.isFree, fun m hle hlt => ?_⟩
        rcases Nat.eq_or_lt_of_le hle with rfl | hlater
        · simpa using hfree
        · exact hrest.taken m hlater hlt

/-- Enough fuel finds the first free number. -/
theorem search_of_isFirst (h : IsFirst free start n) (hfuel : n < start + fuel) :
    search free fuel start = some n := by
  induction fuel generalizing start with
  | zero =>
      have hle := h.le
      omega
  | succ fuel ih =>
      unfold search
      rcases Nat.eq_or_lt_of_le h.le with rfl | hlater
      · rw [if_pos h.isFree]
      · have htaken := h.taken start le_rfl hlater
        rw [htaken]
        exact ih ⟨hlater, h.isFree, fun m hle => h.taken m (Nat.le_of_succ_le hle)⟩ (by omega)

theorem exists_search_iff : (∃ fuel, search free fuel start = some n) ↔ IsFirst free start n :=
  ⟨fun ⟨_, h⟩ => isFirst_of_search h, fun h =>
    ⟨n + 1, search_of_isFirst h (by omega)⟩⟩

end FirstFree
