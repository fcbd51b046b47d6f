import Papiex.Lib.Interleaving

/-!
# Parties that choose their moves

As in an interleaving, parties with local states and a shared state take steps one at a
time, but a party may have several moves, and a move may not be possible.  A run is a
list of moves that are possible one after the other.

## Main results

* `step_eq_some_iff`, `run_append_eq_some_iff`: what it means that moves are possible.
* `run_invariant`, `run_invariant_of_meets`: what moves keep holds along a run.
-/

namespace Interleaving

/-- Parties, and what each does in a move, if it can make the move. -/
structure Choices (ι : Type*) (M : Type*) (L : Type*) (S : Type*) where
  act : ι → M → L → S → Option (L × S)

namespace Choices

variable {ι M L S : Type*} [DecidableEq ι]

/-- One party makes a move. -/
def step (parties : Choices ι M L S) (s : State ι L S) (event : ι × M) :
    Option (State ι L S) :=
  (parties.act event.1 event.2 (s.locals event.1) s.shared).map fun next =>
    { locals := Function.update s.locals event.1 next.1
      shared := next.2 }

/-- The moves one after the other. -/
def run (parties : Choices ι M L S) : State ι L S → List (ι × M) → Option (State ι L S)
  | s, [] => some s
  | s, event :: rest => (parties.step s event).bind fun next => parties.run next rest

variable {parties : Choices ι M L S} {s next final : State ι L S} {i j : ι} {move : M}
variable {event : ι × M} {events front rest : List (ι × M)}

/-- What a move did to the party and to the shared state. -/
theorem step_eq_some_iff :
    parties.step s (i, move) = some next ↔
      ∃ me shared, parties.act i move (s.locals i) s.shared = some (me, shared) ∧
        next = { locals := Function.update s.locals i me, shared := shared } := by
  unfold step
  rw [Option.map_eq_some_iff]
  constructor
  · rintro ⟨⟨me, shared⟩, hact, rfl⟩
    exact ⟨me, shared, hact, rfl⟩
  · rintro ⟨me, shared, hact, rfl⟩
    exact ⟨(me, shared), hact, rfl⟩

@[simp] theorem run_nil : parties.run s [] = some s := rfl

theorem run_cons_eq_some_iff :
    parties.run s (event :: rest) = some final ↔
      ∃ next, parties.step s event = some next ∧ parties.run next rest = some final := by
  rw [run, Option.bind_eq_some_iff]

/-- Runs compose along concatenation. -/
theorem run_append_eq_some_iff :
    parties.run s (front ++ rest) = some final ↔
      ∃ middle, parties.run s front = some middle ∧ parties.run middle rest = some final := by
  induction front generalizing s with
  | nil => simp
  | cons event front ih =>
      rw [List.cons_append, run_cons_eq_some_iff]
      simp only [run_cons_eq_some_iff, ih]
      constructor
      · rintro ⟨next, hnext, middle, hfront, hrest⟩
        exact ⟨middle, ⟨next, hnext, hfront⟩, hrest⟩
      · rintro ⟨middle, ⟨next, hnext, hfront⟩, hrest⟩
        exact ⟨next, hnext, middle, hfront, hrest⟩

/-- **Invariant rule.** -/
theorem run_invariant (Inv : State ι L S → Prop)
    (hstep : ∀ before event after, parties.step before event = some after → Inv before →
      Inv after)
    (h : Inv s) (hrun : parties.run s events = some final) : Inv final := by
  induction events generalizing s with
  | nil =>
      cases hrun
      exact h
  | cons event rest ih =>
      obtain ⟨next, hnext, hrest⟩ := run_cons_eq_some_iff.mp hrun
      exact ih (hstep s event next hnext h) hrest

/-! ## Conditions on the moves -/

/-- Each move is made in a state that meets the condition. -/
def Meets (parties : Choices ι M L S) (cond : State ι L S → ι × M → Prop) :
    State ι L S → List (ι × M) → Prop
  | _, [] => True
  | s, event :: rest =>
      cond s event ∧ ∀ next ∈ parties.step s event, parties.Meets cond next rest

instance decidableMeets (cond : State ι L S → ι × M → Prop) [∀ s event, Decidable (cond s event)] :
    ∀ s events, Decidable (parties.Meets cond s events)
  | _, [] => inferInstanceAs (Decidable True)
  | s, event :: rest =>
      have : DecidablePred (parties.Meets cond · rest) := (decidableMeets cond · rest)
      inferInstanceAs (Decidable (cond s event ∧ ∀ next ∈ parties.step s event,
        parties.Meets cond next rest))

/-- **Invariant rule for conditional moves.** -/
theorem run_invariant_of_meets {Inv : State ι L S → Prop} {cond : State ι L S → ι × M → Prop}
    (hstep : ∀ before event after, cond before event → parties.step before event = some after →
      Inv before → Inv after)
    (h : Inv s) (hmeets : parties.Meets cond s events)
    (hrun : parties.run s events = some final) : Inv final := by
  induction events generalizing s with
  | nil =>
      cases hrun
      exact h
  | cons event rest ih =>
      obtain ⟨next, hnext, hrest⟩ := run_cons_eq_some_iff.mp hrun
      exact ih (hstep s event next hmeets.1 hnext h) (hmeets.2 next hnext) hrest

/-! ## Facts that hold for each party -/

/-- What holds of every party still does if the move keeps it for the party that makes it
and disturbs it for no other. -/
theorem forall_update {P : ι → L → S → Prop} {me : L} {shared : S}
    (hself : P i me shared)
    (hother : ∀ j, j ≠ i → P j (s.locals j) shared) :
    ∀ j, P j (Function.update s.locals i me j) shared := by
  intro j
  by_cases hj : j = i
  · subst hj
    rw [Function.update_self]
    exact hself
  · rw [Function.update_of_ne hj]
    exact hother j hj

end Choices

end Interleaving
