import Mathlib.Data.Int.Log
import Mathlib.Data.List.Induction
import Mathlib.Data.Rat.Floor
import Mathlib.Tactic.Linarith
import Mathlib.Tactic.NormNum

/-!
# Single-precision rounding

A `float` holds a rational number whose significand fits in 24 bits.  `round`
takes the exact result of an operation to the nearest such number, ties to the
even significand, which is what the default rounding mode does.  The exponent
range is not modelled: no subnormals and no overflow to infinity.

## Main results

* `abs_round_sub_le`: the relative error of rounding.
* `round_natCast_le`, `round_natCast_succ`: whole numbers up to 16777216 are exact, and the next
  is not.
* `sum_natCast`: sums of them, as long as they stay below.
-/

namespace Binary32

/-- The nearest integer, ties to even. -/
def roundHalfEven (x : ℚ) : ℤ :=
  if x - ⌊x⌋ < 1 / 2 then ⌊x⌋
  else if 1 / 2 < x - ⌊x⌋ then ⌊x⌋ + 1
  else if ⌊x⌋ % 2 = 0 then ⌊x⌋ else ⌊x⌋ + 1

@[simp] theorem roundHalfEven_intCast (n : ℤ) : roundHalfEven n = n := by
  simp [roundHalfEven]

/-- A rational is at most a half away from the integer it is rounded to. -/
theorem roundHalfEven_bounds (x : ℚ) :
    x - 1 / 2 ≤ roundHalfEven x ∧ (roundHalfEven x : ℚ) ≤ x + 1 / 2 := by
  have hle := Int.floor_le x
  have hlt := Int.lt_floor_add_one x
  unfold roundHalfEven
  split_ifs <;> push_cast <;> constructor <;> linarith

theorem roundHalfEven_le {x : ℚ} {n : ℤ} (h : x < n + 1 / 2) : roundHalfEven x ≤ n := by
  have hlt : (roundHalfEven x : ℚ) < (n + 1 : ℤ) := by
    push_cast
    linarith [(roundHalfEven_bounds x).2]
  exact Int.lt_add_one_iff.mp (by exact_mod_cast hlt)

theorem le_roundHalfEven {x : ℚ} {n : ℤ} (h : n - 1 / 2 < x) : n ≤ roundHalfEven x := by
  have hlt : ((n - 1 : ℤ) : ℚ) < roundHalfEven x := by
    push_cast
    linarith [(roundHalfEven_bounds x).1]
  exact Int.sub_one_lt_iff.mp (by exact_mod_cast hlt)

/-- Binary exponent of the last place of a number with a 24-bit significand. -/
def lastPlace (x : ℚ) : ℤ := Int.log 2 |x| - 23

/-- The number with a 24-bit significand nearest to `x`, ties to even. -/
def round (x : ℚ) : ℚ :=
  if x = 0 then 0 else roundHalfEven (x / 2 ^ lastPlace x) * 2 ^ lastPlace x

@[simp] theorem round_zero : round 0 = 0 := by simp [round]

/-- **The relative error** of one rounding. -/
theorem abs_round_sub_le (x : ℚ) : |round x - x| ≤ |x| / 2 ^ 24 := by
  by_cases h0 : x = 0
  · simp [h0]
  have hplace : (0 : ℚ) < 2 ^ lastPlace x := zpow_pos (by norm_num) _
  have hsize : (2 : ℚ) ^ lastPlace x ≤ |x| / 2 ^ 23 := by
    have hlog := Int.zpow_log_le_self (R := ℚ) (one_lt_two : 1 < 2) (abs_pos.mpr h0)
    rw [lastPlace, zpow_sub₀ (by norm_num)]
    gcongr
    · exact_mod_cast hlog
    · norm_num
  obtain ⟨hlow, hhigh⟩ := roundHalfEven_bounds (x / 2 ^ lastPlace x)
  have hscaled : |(roundHalfEven (x / 2 ^ lastPlace x) : ℚ) - x / 2 ^ lastPlace x| ≤ 1 / 2 :=
    abs_le.mpr ⟨by linarith, by linarith⟩
  have hdiff : round x - x =
      (roundHalfEven (x / 2 ^ lastPlace x) - x / 2 ^ lastPlace x) * 2 ^ lastPlace x := by
    rw [round, if_neg h0, sub_mul, div_mul_cancel₀ _ hplace.ne']
  calc |round x - x|
      = |(roundHalfEven (x / 2 ^ lastPlace x) : ℚ) - x / 2 ^ lastPlace x| *
          2 ^ lastPlace x := by rw [hdiff, abs_mul, abs_of_pos hplace]
    _ ≤ 1 / 2 * (|x| / 2 ^ 23) := mul_le_mul hscaled hsize hplace.le (by norm_num)
    _ = |x| / 2 ^ 24 := by ring

/-- One rounding of a number that is not negative. -/
theorem round_bounds {x : ℚ} (h : 0 ≤ x) :
    x * (1 - 1 / 2 ^ 24) ≤ round x ∧ round x ≤ x * (1 + 1 / 2 ^ 24) := by
  have herror := abs_round_sub_le x
  rw [abs_of_nonneg h, abs_le] at herror
  constructor <;> linarith

theorem round_nonneg {x : ℚ} (h : 0 ≤ x) : 0 ≤ round x :=
  (mul_nonneg h (by norm_num)).trans (round_bounds h).1

theorem round_pos {x : ℚ} (h : 0 < x) : 0 < round x :=
  (mul_pos h (by norm_num)).trans_le (round_bounds h.le).1

/-- A number that is a whole multiple of its own last place is not moved. -/
theorem round_eq_self {x : ℚ} {m : ℤ} (hx : x / 2 ^ lastPlace x = m) : round x = x := by
  have hpos : (2 : ℚ) ^ lastPlace x ≠ 0 := zpow_ne_zero _ (by norm_num)
  by_cases h0 : x = 0
  · rw [h0, round_zero]
  · rw [round, if_neg h0, hx, roundHalfEven_intCast, ← hx, div_mul_cancel₀ _ hpos]

/-- Whole numbers below `2 ^ 24` are exact. -/
theorem round_natCast {n : ℕ} (hn : n < 2 ^ 24) : round n = n := by
  rcases Nat.eq_zero_or_pos n with rfl | hpos
  · simp
  have hcast : (0 : ℚ) < n := by exact_mod_cast hpos
  have hlog : Int.log 2 |(n : ℚ)| < 24 := by
    rw [abs_of_pos hcast, ← Int.lt_zpow_iff_log_lt (by norm_num) hcast]
    exact_mod_cast hn
  obtain ⟨k, hk⟩ : ∃ k : ℕ, lastPlace n = -(k : ℤ) :=
    ⟨(-lastPlace n).toNat, by unfold lastPlace; omega⟩
  refine round_eq_self (m := (n : ℤ) * 2 ^ k) ?_
  rw [hk, zpow_neg, zpow_natCast, div_inv_eq_mul]
  push_cast
  rfl

/-- Whole numbers are exact up to `2 ^ 24`. -/
theorem round_natCast_le {n : ℕ} (hn : n ≤ 2 ^ 24) : round n = n := by
  rcases hn.lt_or_eq with hlt | rfl
  · exact round_natCast hlt
  · decide +kernel

/-- One more is counted up to `2 ^ 24`, and from there on it is lost. -/
theorem round_natCast_succ {n : ℕ} (hn : n ≤ 2 ^ 24) :
    ∃ m : ℕ, m ≤ 2 ^ 24 ∧ round ((n : ℚ) + 1) = m := by
  rcases hn.lt_or_eq with hlt | rfl
  · exact ⟨n + 1, hlt, by rw [← Nat.cast_succ, round_natCast_le hlt]⟩
  · exact ⟨2 ^ 24, le_rfl, by decide +kernel⟩

/-- The sum of the numbers from the left, each addition rounded. -/
def sum (xs : List ℚ) : ℚ := xs.foldl (fun total x => round (total + x)) 0

@[simp] theorem sum_nil : sum [] = 0 := rfl

@[simp] theorem sum_concat (xs : List ℚ) (x : ℚ) : sum (xs ++ [x]) = round (sum xs + x) := by
  simp [sum]

/-- Nothing that has been added up gets lost. -/
theorem foldl_pos_iff {xs : List ℚ} (hxs : ∀ x ∈ xs, 0 ≤ x) {total : ℚ} (htotal : 0 ≤ total) :
    0 < xs.foldl (fun total x => round (total + x)) total ↔ 0 < total ∨ ∃ x ∈ xs, 0 < x := by
  induction xs generalizing total with
  | nil => simp
  | cons x xs ih =>
      rw [List.forall_mem_cons] at hxs
      have hround : 0 < round (total + x) ↔ 0 < total ∨ 0 < x := by
        constructor
        · intro h
          by_contra hnot
          push Not at hnot
          have hzero : total + x = 0 := by linarith [hxs.1, hnot.1, hnot.2]
          rw [hzero, round_zero] at h
          exact lt_irrefl 0 h
        · rintro (h | h)
          · exact round_pos (by linarith [hxs.1])
          · exact round_pos (by linarith)
      rw [List.foldl_cons, ih hxs.2 (round_nonneg (add_nonneg htotal hxs.1)), hround, or_assoc]
      simp

/-- A sum of numbers that are not negative is positive exactly if one of them is. -/
theorem sum_pos_iff {xs : List ℚ} (hxs : ∀ x ∈ xs, 0 ≤ x) : 0 < sum xs ↔ ∃ x ∈ xs, 0 < x := by
  rw [sum, foldl_pos_iff hxs le_rfl, or_iff_right (lt_irrefl 0)]

/-- **Whole numbers are added up exactly**, as long as their sum has 24 bits. -/
theorem sum_natCast {ns : List ℕ} (hns : ns.sum ≤ 2 ^ 24) :
    sum (ns.map fun n : ℕ => (n : ℚ)) = ns.sum := by
  induction ns using List.reverseRecOn with
  | nil => rfl
  | append_singleton ns n ih =>
      rw [List.sum_append, List.sum_singleton] at hns
      have hsum : sum (ns.map fun n : ℕ => (n : ℚ)) + n = ((ns.sum + n : ℕ) : ℚ) := by
        rw [ih (by omega), Nat.cast_add]
      rw [List.map_append, List.map_singleton, sum_concat, hsum, round_natCast_le hns,
        List.sum_append, List.sum_singleton]

end Binary32
