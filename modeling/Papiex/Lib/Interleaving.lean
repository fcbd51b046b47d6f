import Mathlib.Logic.Function.Basic
import Mathlib.Data.Nat.Notation

/-!
# Interleavings

Parties with a local state each, and a state they share, take steps one at a
time in any order.  A step of a party reads and writes its own local state and
the shared one.  What every step keeps holds after every schedule; what only
the steps meeting a condition keep holds after the schedules of such steps.

## Main results

* `run_invariant`: what every step keeps holds after every schedule.
* `run_invariant_of_meets`: the same for steps that meet a condition.
-/

namespace Interleaving

/-- Parties, and what each does in one step. -/
structure System (ι : Type*) (L : Type*) (S : Type*) where
  act : ι → L → S → L × S

/-- A state of the parties. -/
@[ext]
structure State (ι : Type*) (L : Type*) (S : Type*) where
  locals : ι → L
  shared : S

namespace System

variable {ι L S : Type*} [DecidableEq ι]

/-- One party takes a step. -/
def step (sys : System ι L S) (s : State ι L S) (i : ι) : State ι L S where
  locals := Function.update s.locals i (sys.act i (s.locals i) s.shared).1
  shared := (sys.act i (s.locals i) s.shared).2

/-- The parties of a schedule take their steps. -/
def run (sys : System ι L S) (s : State ι L S) (schedule : List ι) : State ι L S :=
  schedule.foldl sys.step s

variable {sys : System ι L S} {s : State ι L S} {i j : ι} {schedule : List ι}

@[simp] theorem step_shared : (sys.step s i).shared = (sys.act i (s.locals i) s.shared).2 := rfl

@[simp] theorem step_locals_self :
    (sys.step s i).locals i = (sys.act i (s.locals i) s.shared).1 := by
  simp [step]

theorem step_locals_of_ne (h : j ≠ i) : (sys.step s i).locals j = s.locals j := by
  simp [step, h]

@[simp] theorem run_nil : sys.run s [] = s := rfl

@[simp] theorem run_cons : sys.run s (i :: schedule) = sys.run (sys.step s i) schedule := rfl

/-- **Invariant rule.** -/
theorem run_invariant {Inv : State ι L S → Prop} (hstep : ∀ s i, Inv s → Inv (sys.step s i))
    (h : Inv s) (schedule : List ι) : Inv (sys.run s schedule) := by
  induction schedule generalizing s with
  | nil => exact h
  | cons i rest ih => exact ih (hstep s i h)

/-! ## Conditions on the steps -/

/-- Each step of the schedule is taken in a state that meets the condition. -/
def Meets (sys : System ι L S) (cond : State ι L S → ι → Prop) (s : State ι L S) :
    List ι → Prop
  | [] => True
  | i :: rest => cond s i ∧ sys.Meets cond (sys.step s i) rest

/-- **Invariant rule for conditional steps.** -/
theorem run_invariant_of_meets {Inv : State ι L S → Prop} {cond : State ι L S → ι → Prop}
    (hstep : ∀ s i, cond s i → Inv s → Inv (sys.step s i)) (h : Inv s)
    (hmeets : sys.Meets cond s schedule) : Inv (sys.run s schedule) := by
  induction schedule generalizing s with
  | nil => exact h
  | cons i rest ih => exact ih (hstep s i hmeets.1 h) hmeets.2

instance decidableMeets {cond : State ι L S → ι → Prop} [hcond : ∀ s i, Decidable (cond s i)] :
    ∀ (s : State ι L S) (schedule : List ι), Decidable (sys.Meets cond s schedule)
  | _, [] => .isTrue trivial
  | s, i :: rest =>
      @instDecidableAnd _ _ (hcond s i) (decidableMeets (sys.step s i) rest)

/-! ## Facts that hold for each party -/

/-- What holds of every party still does if the step keeps it for the party that
takes it and disturbs it for no other. -/
theorem forall_step {P : ι → L → S → Prop} (hall : ∀ j, P j (s.locals j) s.shared)
    (hself : P i (s.locals i) s.shared →
      P i (sys.act i (s.locals i) s.shared).1 (sys.act i (s.locals i) s.shared).2)
    (hother : ∀ j, j ≠ i → P j (s.locals j) s.shared →
      P j (s.locals j) (sys.act i (s.locals i) s.shared).2) :
    ∀ j, P j ((sys.step s i).locals j) (sys.step s i).shared := by
  intro j
  by_cases hj : j = i
  · subst hj
    simpa using hself (hall j)
  · rw [step_locals_of_ne hj]
    exact hother j hj (hall j)

end System

end Interleaving
