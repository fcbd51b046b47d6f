import Mathlib.Algebra.CharZero.Defs
import Mathlib.Algebra.BigOperators.Group.List.Basic
import Mathlib.Algebra.Field.Basic
import Mathlib.Data.List.ReduceOption
import Mathlib.Tactic.FieldSimp
import Mathlib.Tactic.Ring
import Mathlib.Tactic.LinearCombination

/-!
# Running means

Values come one after the other, and a mean is kept up to date: entry `n` changes the
mean `m` to `(m * (n - 1) + v) / n`.  Some entries have no value.  They are counted all
the same, and so the mean is right in every order only if there are none of them, or if
there is nothing to average.

## Main results

* `right_of_full`: the mean is right if no value is missing.
* `forall_perm_right_iff`: when it is right in every order.
-/

namespace RunningMean

variable {F : Type*} [Field F]

/-- Whether a value has come, and the mean. -/
@[ext]
structure State (F : Type*) where
  seen : Bool
  mean : F

/-- Entry `n` has a value.  The first value is the mean. -/
def step (state : State F) (entry : ℕ × F) : State F where
  seen := true
  mean := if state.seen then (state.mean * (entry.1 - 1) + entry.2) / entry.1 else entry.2

/-- The values with the numbers of their entries, the first of which is `n`. -/
def numbered {α : Type*} : ℕ → List (Option α) → List (ℕ × α)
  | _, [] => []
  | n, none :: vals => numbered (n + 1) vals
  | n, some val :: vals => (n, val) :: numbered (n + 1) vals

/-- The entries from entry `n` on. -/
def run (start : State F) (n : ℕ) (vals : List (Option F)) : State F :=
  (numbered n vals).foldl step start

/-- The mean of the values. -/
def average (vals : List (Option F)) : F := vals.reduceOption.sum / vals.reduceOption.length

/-- The mean that is kept is the mean of the values. -/
def Right (start : State F) (vals : List (Option F)) : Prop :=
  (run start 1 vals).mean = average vals

variable {start : State F} {n : ℕ} {vals vals' : List (Option F)} {val other : F}

@[simp] theorem run_nil : run start n [] = start := rfl

@[simp] theorem run_none : run start n (none :: vals) = run start (n + 1) vals := rfl

@[simp] theorem run_some : run start n (some val :: vals) =
    run (step start (n, val)) (n + 1) vals := rfl

theorem numbered_append {α : Type*} (n : ℕ) (vals vals' : List (Option α)) :
    numbered n (vals ++ vals') = numbered n vals ++ numbered (n + vals.length) vals' := by
  induction vals generalizing n with
  | nil => rfl
  | cons val vals ih =>
      have hlength : n + 1 + vals.length = n + (val :: vals).length := by
        rw [List.length_cons]
        omega
      cases val with
      | none => rw [List.cons_append, numbered, ih, hlength, numbered]
      | some val => rw [List.cons_append, numbered, ih, hlength, numbered, List.cons_append]

theorem map_snd_numbered {α : Type*} (n : ℕ) (vals : List (Option α)) :
    (numbered n vals).map Prod.snd = vals.reduceOption := by
  induction vals generalizing n with
  | nil => rfl
  | cons val vals ih =>
      cases val with
      | none => rw [numbered, ih, List.reduceOption_cons_of_none]
      | some val => rw [numbered, List.map_cons, ih, List.reduceOption_cons_of_some]

theorem run_append : run start n (vals ++ vals') =
    run (run start n vals) (n + vals.length) vals' := by
  rw [run, numbered_append, List.foldl_append]
  rfl

theorem average_perm (h : vals.Perm vals') : average vals = average vals' := by
  have hperm : vals.reduceOption.Perm vals'.reduceOption := h.filterMap id
  rw [average, average, hperm.sum_eq, hperm.length_eq]

theorem step_one : step start (1, val) = ⟨true, val⟩ := by
  ext
  · rfl
  · simp [step]

section

variable {α : Type*} {vals vals' : List (Option α)} {c : α}

/-- No value but this one. -/
def Constant (vals : List (Option α)) (c : α) : Prop := ∀ val, some val ∈ vals → val = c

theorem Constant.tail {val : Option α} (h : Constant (val :: vals) c) : Constant vals c :=
  fun _ hval => h _ (List.mem_cons_of_mem _ hval)

theorem Constant.perm (h : Constant vals c) (hperm : vals'.Perm vals) : Constant vals' c :=
  fun val hval => h val (hperm.mem_iff.mp hval)

theorem reduceOption_ne_nil (hsome : ∃ val, some val ∈ vals) : vals.reduceOption ≠ [] := by
  obtain ⟨val, hval⟩ := hsome
  exact List.ne_nil_of_mem (List.reduceOption_mem_iff.mpr hval)

/-- Values that are not all the same come in some order with an empty entry between the
last two. -/
theorem exists_perm_apart [DecidableEq α] (hnone : none ∈ vals) (hvals : ∃ val, some val ∈ vals)
    (hconst : ∀ c, ¬ Constant vals c) :
    ∃ rest val other, val ≠ other ∧ (rest ++ [some val, none, some other]).Perm vals := by
  obtain ⟨val, hval⟩ := hvals
  have hother := hconst val
  unfold Constant at hother
  push Not at hother
  obtain ⟨other, hmem, hne⟩ := hother
  have hmem' : some other ∈ (vals.erase (some val)) :=
    (List.mem_erase_of_ne (by simpa using hne)).mpr hmem
  have hnone' : none ∈ (vals.erase (some val)).erase (some other) :=
    (List.mem_erase_of_ne (by simp)).mpr ((List.mem_erase_of_ne (by simp)).mpr hnone)
  refine ⟨((vals.erase (some val)).erase (some other)).erase none, val, other, Ne.symm hne, ?_⟩
  refine List.perm_append_comm.trans (List.Perm.symm ?_)
  calc vals.Perm (some val :: vals.erase (some val)) := List.perm_cons_erase hval
    _ |>.Perm (some val :: some other :: (vals.erase (some val)).erase (some other)) :=
        (List.perm_cons_erase hmem').cons _
    _ |>.Perm (some val :: some other :: none ::
        ((vals.erase (some val)).erase (some other)).erase none) :=
        ((List.perm_cons_erase hnone').cons _).cons _
    _ |>.Perm _ := (List.Perm.swap _ _ _).cons _

end

variable [CharZero F]

theorem cast_succ_ne_zero (n : ℕ) : (n : F) + 1 ≠ 0 := by
  exact_mod_cast n.succ_ne_zero

/-! ## Every entry has a value -/

/-- A mean of `n` entries goes on to be the mean. -/
theorem run_mean_mul (seen : start.seen = true) (hvals : none ∉ vals) (n : ℕ) :
    (run start (n + 1) vals).mean * (n + vals.length : ℕ) =
      start.mean * n + vals.reduceOption.sum := by
  induction vals generalizing start n with
  | nil => simp
  | cons val vals ih =>
      rw [List.mem_cons, not_or] at hvals
      cases val with
      | none => exact absurd rfl hvals.1
      | some val =>
          have hn := cast_succ_ne_zero (F := F) n
          have hlength : n + (some val :: vals).length = n + 1 + vals.length := by
            rw [List.length_cons]
            omega
          rw [run_some, hlength, ih rfl hvals.2, List.reduceOption_cons_of_some, List.sum_cons,
            step, if_pos seen]
          push_cast
          field_simp
          ring

/-- **If no value is missing the running mean is the average.** -/
theorem right_of_full (hvals : none ∉ vals) (hsome : vals ≠ []) : Right start vals := by
  cases vals with
  | nil => exact absurd rfl hsome
  | cons val vals =>
      rw [List.mem_cons, not_or] at hvals
      cases val with
      | none => exact absurd rfl hvals.1
      | some val =>
          have hlength : vals.reduceOption.length = vals.length :=
            List.reduceOption_length_eq_iff.mpr fun val hval =>
              Option.isSome_iff_ne_none.mpr fun hnone => hvals.2 (hnone ▸ hval)
          have hseen : (⟨true, val⟩ : State F).seen = true := rfl
          have hmean := run_mean_mul hseen hvals.2 1
          rw [Right, average, run_some, step_one, List.reduceOption_cons_of_some, List.sum_cons,
            List.length_cons, hlength, eq_div_iff (by exact_mod_cast vals.length.succ_ne_zero),
            add_comm vals.length, hmean, Nat.cast_one, mul_one]

/-! ## All values are the same -/

variable {c : F}

/-- With nothing but `c` to come, a mean is `c` at the end exactly if it is `c` already. -/
theorem run_mean_eq_iff (seen : start.seen = true) (hconst : Constant vals c) (hn : 1 ≤ n) :
    (run start (n + 1) vals).mean = c ↔ start.mean = c := by
  induction vals generalizing start n with
  | nil => rfl
  | cons val vals ih =>
      cases val with
      | none => rw [run_none, ih seen hconst.tail (by omega)]
      | some val =>
          obtain rfl : val = c := hconst val List.mem_cons_self
          have hn' : (n : F) ≠ 0 := Nat.cast_ne_zero.mpr (by omega)
          rw [run_some, ih rfl hconst.tail (by omega), step, if_pos seen]
          push_cast
          rw [div_eq_iff (cast_succ_ne_zero n), add_sub_cancel_right, mul_add, mul_one,
            add_left_inj, mul_left_inj' hn']

/-- A mean of equal values is this value, whatever is missing. -/
theorem run_mean_of_constant (hconst : Constant vals c) (hsome : ∃ val, some val ∈ vals)
    (hstart : start.seen = true → start.mean = c) (n : ℕ) :
    (run start (n + 1) vals).mean = c := by
  induction vals generalizing n with
  | nil =>
      obtain ⟨val, hval⟩ := hsome
      cases hval
  | cons val vals ih =>
      cases val with
      | none =>
          apply ih hconst.tail
          obtain ⟨val, hval⟩ := hsome
          exact ⟨val, (List.mem_cons.mp hval).resolve_left nofun⟩
      | some val =>
          obtain rfl : val = c := hconst val List.mem_cons_self
          rw [run_some, run_mean_eq_iff rfl hconst.tail (by omega), step]
          split
          · next seen =>
              have hn := cast_succ_ne_zero (F := F) n
              rw [hstart seen]
              push_cast
              field_simp
              ring
          · rfl

theorem average_of_constant (hconst : Constant vals c) (hsome : ∃ val, some val ∈ vals) :
    average vals = c := by
  have hreplicate : vals.reduceOption = List.replicate vals.reduceOption.length c :=
    List.eq_replicate_length.mpr fun val hval => hconst val (List.reduceOption_mem_iff.mp hval)
  have hlength : (vals.reduceOption.length : F) ≠ 0 :=
    Nat.cast_ne_zero.mpr (List.length_pos_iff.mpr (reduceOption_ne_nil hsome)).ne'
  rw [average, hreplicate, List.sum_replicate, List.length_replicate, nsmul_eq_mul,
    mul_div_cancel_left₀ _ hlength]

/-! ## Some entries have no value -/

/-- Two different values with an empty entry between them cannot change places. -/
theorem run_swap_ne (start : State F) (n : ℕ) (hne : val ≠ other) :
    (run start (n + 1) [some val, none, some other]).mean ≠
      (run start (n + 1) [some other, none, some val]).mean := by
  have h1 := cast_succ_ne_zero (F := F) n
  have h3 : (n : F) + 1 + 1 + 1 ≠ 0 := by exact_mod_cast (n + 2).succ_ne_zero
  simp only [run_some, run_none, run_nil, step, if_true]
  push_cast
  rw [Ne, div_left_inj' h3]
  intro heq
  apply hne
  cases hseen : start.seen with
  | false =>
      simp only [hseen, Bool.false_eq_true, if_false] at heq
      have hmul : (val - other) * ((n : F) + 1) = 0 := by linear_combination heq
      exact sub_eq_zero.mp ((mul_eq_zero.mp hmul).resolve_right h1)
  | true =>
      simp only [hseen, if_true] at heq
      field_simp at heq
      linear_combination heq

/-- **The running mean is right in every order** exactly if every entry has a value, or
all values are the same.  A mean that has been begun without an entry is 0, and so this
must be the value then. -/
theorem forall_perm_right_iff [DecidableEq F] (hsome : ∃ val, some val ∈ vals)
    (hstart : start.seen = true → start.mean = 0) :
    (∀ vals', vals'.Perm vals → Right start vals') ↔
      none ∉ vals ∨ ∃ c, Constant vals c ∧ (start.seen = true → c = 0) := by
  constructor
  · intro hright
    by_contra hnot
    push Not at hnot
    obtain ⟨hnone, hconst⟩ := hnot
    by_cases hsame : ∃ c, Constant vals c
    · -- an empty entry first: the mean starts from 0, and not from the value
      obtain ⟨c, hc⟩ := hsame
      obtain ⟨seen, hne⟩ := hconst c hc
      have hperm : (none :: vals.erase none).Perm vals := (List.perm_cons_erase hnone).symm
      have hmean := hright _ hperm
      rw [Right, average_perm hperm, average_of_constant hc hsome, run_none,
        run_mean_eq_iff seen (hc.perm hperm).tail le_rfl, hstart seen] at hmean
      exact hne hmean.symm
    · -- two values around an empty entry at the end: they may not change places
      obtain ⟨rest, val, other, hne, hperm⟩ :=
        exists_perm_apart hnone hsome (not_exists.mp hsame)
      have hswap : [some other, none, some val].Perm [some val, none, some other] :=
        List.reverse_perm [some val, none, some other]
      have hperm' := (hswap.append_left rest).trans hperm
      apply run_swap_ne (run start 1 rest) rest.length hne
      rw [add_comm, ← run_append, ← run_append, hright _ hperm, hright _ hperm',
        average_perm hperm, average_perm hperm']
  · rintro (hfull | ⟨c, hc, hzero⟩) vals' hperm
    · obtain ⟨val, hval⟩ := hsome
      exact right_of_full (fun hnone => hfull (hperm.mem_iff.mp hnone))
        (List.ne_nil_of_mem (hperm.mem_iff.mpr hval))
    · have hsome' : ∃ val, some val ∈ vals' := by
        obtain ⟨val, hval⟩ := hsome
        exact ⟨val, hperm.mem_iff.mpr hval⟩
      rw [Right, average_of_constant (hc.perm hperm) hsome']
      exact run_mean_of_constant (hc.perm hperm) hsome'
        (fun seen => (hstart seen).trans (hzero seen).symm) 0

end RunningMean
