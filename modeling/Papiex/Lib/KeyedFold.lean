import Mathlib.Algebra.BigOperators.Group.List.Basic
import Mathlib.Data.List.MinMax
import Mathlib.Algebra.Order.Ring.Rat

/-!
# Folds into a keyed table

Entries with a key are folded into a table.  If an entry changes only the cell of
its key, then a cell at the end is the fold of the values that came under its key.
For the cells that hold a sum, a least and a greatest value, this gives the sum, the
minimum and the maximum of these values, in whatever order they came.

## Main results

* `cell_foldl`: a cell is the fold of the values under its key.
* `view_foldl_perm`: what does not depend on the order of the entries.
-/

namespace KeyedFold

universe u v w x

variable {K : Type u} {V : Type v} {σ : Type w} {C : Type x}

/-- The values that come under a key, in order. -/
def valuesAt [DecidableEq K] (key : K) (entries : List (K × V)) : List V :=
  entries.filterMap fun entry => if entry.1 = key then some entry.2 else none

section

variable [DecidableEq K] {key : K} {entries rest : List (K × V)}

@[simp] theorem valuesAt_nil : valuesAt key ([] : List (K × V)) = [] := rfl

theorem valuesAt_cons_self {val : V} :
    valuesAt key ((key, val) :: entries) = val :: valuesAt key entries := by
  simp [valuesAt]

theorem valuesAt_cons_of_ne {entry : K × V} (h : entry.1 ≠ key) :
    valuesAt key (entry :: entries) = valuesAt key entries := by
  simp [valuesAt, h]

theorem valuesAt_append :
    valuesAt key (entries ++ rest) = valuesAt key entries ++ valuesAt key rest :=
  List.filterMap_append

/-- **A cell is the fold of the values under its key.** -/
theorem cell_foldl (step : σ → K × V → σ) (cell : σ → K → C) (update : C → V → C)
    (hstep : ∀ state entry key, cell (step state entry) key =
      if entry.1 = key then update (cell state key) entry.2 else cell state key) (state : σ) :
    cell (entries.foldl step state) key =
      (valuesAt key entries).foldl update (cell state key) := by
  induction entries generalizing state with
  | nil => rfl
  | cons entry entries ih =>
      obtain ⟨other, val⟩ := entry
      rw [List.foldl_cons, ih, hstep]
      by_cases h : other = key
      · subst h
        rw [if_pos rfl, valuesAt_cons_self, List.foldl_cons]
      · rw [if_neg h, valuesAt_cons_of_ne h]

/-- A list of keys without repetitions gives each key its own value once. -/
theorem valuesAt_map_of_nodup {keys : List K} (hkeys : keys.Nodup) (value : K → V) :
    valuesAt key (keys.map fun key => (key, value key)) =
      if key ∈ keys then [value key] else [] := by
  induction keys with
  | nil => rfl
  | cons other keys ih =>
      rw [List.nodup_cons] at hkeys
      rw [List.map_cons]
      by_cases h : other = key
      · subst h
        rw [valuesAt_cons_self, ih hkeys.2, if_neg hkeys.1, if_pos List.mem_cons_self]
      · rw [valuesAt_cons_of_ne h, ih hkeys.2]
        simp [Ne.symm h]

end

/-! ## Folds in any order -/

/-- **What a fold shows does not depend on the order**, if it is determined step by step
and two steps may change places. -/
theorem view_foldl_perm (step : σ → V → σ) (view : σ → C)
    (hview : ∀ state state' val, view state = view state' →
      view (step state val) = view (step state' val))
    (hcomm : ∀ state val val', view (step (step state val) val') =
      view (step (step state val') val))
    {vals vals' : List V} (h : vals.Perm vals') (state : σ) :
    view (vals.foldl step state) = view (vals'.foldl step state) := by
  have hfold : ∀ (vals : List V) (state state' : σ), view state = view state' →
      view (vals.foldl step state) = view (vals.foldl step state') := by
    intro vals
    induction vals with
    | nil => exact fun _ _ hsame => hsame
    | cons val vals ih => exact fun _ _ hsame => ih _ _ (hview _ _ val hsame)
  induction h generalizing state with
  | nil => rfl
  | cons val _ ih => exact ih (step state val)
  | swap val val' vals => exact hfold vals _ _ (hcomm state val' val)
  | trans _ _ ih ih' => exact (ih state).trans (ih' state)

/-- A measure to which each value adds its share. -/
theorem measure_foldl {M : Type*} [AddMonoid M] (step : σ → V → σ) (measure : σ → M)
    (share : V → M) (hstep : ∀ state val, measure (step state val) = measure state + share val)
    (vals : List V) (state : σ) :
    measure (vals.foldl step state) = measure state + (vals.map share).sum := by
  induction vals generalizing state with
  | nil => simp
  | cons val vals ih => rw [List.foldl_cons, ih, hstep, List.map_cons, List.sum_cons, add_assoc]

/-! ## Sums, least and greatest values -/

/-- The sum of some values, if there are any. -/
def sum? (vals : List ℚ) : Option ℚ := if vals = [] then none else some vals.sum

theorem sum?_perm {vals vals' : List ℚ} (h : vals.Perm vals') : sum? vals = sum? vals' := by
  have hnil : vals = [] ↔ vals' = [] := by
    rw [← List.length_eq_zero_iff, h.length_eq, List.length_eq_zero_iff]
  unfold sum?
  simp only [h.sum_eq, hnil]

/-- The sum over the elements that have a value, where the others would add nothing. -/
theorem sum?_filterMap_ite {α : Type*} (l : List α) (p : α → Prop) [DecidablePred p] (f : α → ℚ)
    (hf : ∀ x ∈ l, ¬ p x → f x = 0) :
    sum? (l.filterMap fun x => if p x then some (f x) else none) =
      if ∃ x ∈ l, p x then some (l.map f).sum else none := by
  have hsum : (l.filterMap fun x => if p x then some (f x) else none).sum = (l.map f).sum := by
    induction l with
    | nil => rfl
    | cons x l ih =>
        rw [List.forall_mem_cons] at hf
        by_cases hx : p x
        · simp [hx, ih hf.2]
        · simp [hx, ih hf.2, hf.1 hx]
  have hnil : (l.filterMap fun x => if p x then some (f x) else none) = [] ↔
      ¬ ∃ x ∈ l, p x := by
    simp [List.filterMap_eq_nil_iff]
  unfold sum?
  rw [hsum]
  by_cases hex : ∃ x ∈ l, p x
  · rw [if_pos hex, if_neg (fun h => hnil.mp h hex)]
  · rw [if_neg hex, if_pos (hnil.mpr hex)]

/-- The least value does not depend on the order. -/
theorem min?_perm {vals vals' : List ℚ} (h : vals.Perm vals') : vals.min? = vals'.min? := by
  cases hmin : vals.min? with
  | none =>
      rw [List.min?_eq_none_iff] at hmin
      subst hmin
      rw [h.symm.eq_nil, List.min?_nil]
  | some least =>
      rw [List.min?_eq_some_iff] at hmin
      rw [eq_comm, List.min?_eq_some_iff]
      exact ⟨h.mem_iff.mp hmin.1, fun val hval => hmin.2 val (h.mem_iff.mpr hval)⟩

/-- The greatest value does not depend on the order. -/
theorem max?_perm {vals vals' : List ℚ} (h : vals.Perm vals') : vals.max? = vals'.max? := by
  cases hmax : vals.max? with
  | none =>
      rw [List.max?_eq_none_iff] at hmax
      subst hmax
      rw [h.symm.eq_nil, List.max?_nil]
  | some greatest =>
      rw [List.max?_eq_some_iff] at hmax
      rw [eq_comm, List.max?_eq_some_iff]
      exact ⟨h.mem_iff.mp hmax.1, fun val hval => hmax.2 val (h.mem_iff.mpr hval)⟩

end KeyedFold
