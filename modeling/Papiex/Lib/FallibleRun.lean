import Mathlib.Data.List.Basic

/-!
# Runs of a fallible machine

A machine is a step function `σ → α → Except ε σ`: an event `α` either moves
the state or stops the machine with an error.  A *run* folds a list of events
through it and stops at the first error.

Everything a development needs about such runs is here once: how runs compose,
the invariant rule, the simulation rule into a total machine, and the
description of the runs that never stop.

## Main results

* `run_invariant`: what every step keeps holds at the end.
* `run_simulation`: a relation into a total machine that every step keeps.
* `run_progress`, `survives_iff_allowed`: which runs come to their end.
* `never_bad_iff_allowed_after`: which errors may end a run.
-/

namespace FallibleRun

universe u v w

variable {σ : Type u} {α : Type v} {ε : Type w}

/-- Fold the events through the machine, stopping at the first error. -/
def run (step : σ → α → Except ε σ) : σ → List α → Except ε σ
  | state, [] => .ok state
  | state, event :: rest =>
      match step state event with
      | .error stop => .error stop
      | .ok next => run step next rest

variable {step : σ → α → Except ε σ} {state next final : σ} {event : α}
variable {events front rest : List α}

@[simp] theorem run_nil : run step state [] = .ok state := rfl

theorem run_cons :
    run step state (event :: rest) =
      (step state event).bind fun next => run step next rest := by
  cases h : step state event <;> simp [run, h, Except.bind]

theorem run_cons_ok (h : step state event = .ok next) :
    run step state (event :: rest) = run step next rest := by
  simp [run, h]

theorem run_cons_error {stop : ε} (h : step state event = .error stop) :
    run step state (event :: rest) = .error stop := by
  simp [run, h]

@[simp] theorem run_singleton : run step state [event] = step state event := by
  cases h : step state event <;> simp [run, h]

/-- A run over a non-empty list succeeds exactly when its first step does and
the rest runs on from there. -/
theorem run_cons_eq_ok_iff :
    run step state (event :: rest) = .ok final ↔
      ∃ next, step state event = .ok next ∧ run step next rest = .ok final := by
  cases h : step state event with
  | error stop => simp [run, h]
  | ok next => simp [run, h]

/-- Runs compose along concatenation. -/
theorem run_append :
    run step state (front ++ rest) =
      (run step state front).bind fun middle => run step middle rest := by
  induction front generalizing state with
  | nil => rfl
  | cons event front ih =>
      rw [List.cons_append, run_cons, run_cons]
      cases step state event with
      | error stop => rfl
      | ok next => exact ih

/-- A run in two parts that comes to its end. -/
theorem run_append_eq_ok_iff :
    run step state (front ++ rest) = .ok final ↔
      ∃ middle, run step state front = .ok middle ∧ run step middle rest = .ok final := by
  rw [run_append]
  cases run step state front with
  | error stop => simp [Except.bind]
  | ok middle => simp [Except.bind]

/-- The last step of a successful run, peeled off. -/
theorem run_concat_eq_ok_iff :
    run step state (front ++ [event]) = .ok final ↔
      ∃ middle, run step state front = .ok middle ∧ step middle event = .ok final := by
  simp [run_append_eq_ok_iff]

/-- **Where a run stops.**  An error comes from the first step that fails, and the run up
to it succeeds. -/
theorem run_eq_error_iff {stop : ε} :
    run step state events = .error stop ↔
      ∃ front event rest before, events = front ++ event :: rest ∧
        run step state front = .ok before ∧ step before event = .error stop := by
  constructor
  · intro h
    induction events generalizing state with
    | nil => cases h
    | cons event rest ih =>
        cases hnext : step state event with
        | error other =>
            rw [run_cons_error hnext] at h
            cases h
            exact ⟨[], event, rest, state, rfl, rfl, hnext⟩
        | ok next =>
            rw [run_cons_ok hnext] at h
            obtain ⟨front, last, after, before, rfl, hfront, hlast⟩ := ih h
            exact ⟨event :: front, last, after, before, rfl,
              run_cons_eq_ok_iff.mpr ⟨next, hnext, hfront⟩, hlast⟩
  · rintro ⟨front, event, rest, before, rfl, hfront, hlast⟩
    rw [run_append, hfront]
    exact run_cons_error hlast

/-- **Two runs over related events.**  If related events have the same effect wherever
the first run comes, the two runs are the same. -/
theorem run_congr {events' : List α} (related : α → α → Prop)
    (hevents : List.Forall₂ related events events')
    (hstep : ∀ front event rest event' before, events = front ++ event :: rest →
      run step state front = .ok before → related event event' →
        step before event = step before event') :
    run step state events = run step state events' := by
  induction hevents generalizing state with
  | nil => rfl
  | cons hfirst hrest ih =>
      have hsame := hstep [] _ _ _ state rfl rfl hfirst
      rw [run_cons, run_cons, ← hsame]
      cases hnext : step state _ with
      | error stop => rfl
      | ok next =>
          refine ih fun front event rest event' before heq hrun hrel => ?_
          exact hstep _ event rest event' before (congrArg _ heq)
            (run_cons_eq_ok_iff.mpr ⟨next, hnext, hrun⟩) hrel

/-! ### Invariants -/

/-- **The invariant rule.**  What the successful steps on the events of a run
preserve holds at the end of the run. -/
theorem run_invariant (inv : σ → Prop)
    (hstep : ∀ event ∈ events, ∀ before after,
      inv before → step before event = .ok after → inv after)
    (hstart : inv state) (hrun : run step state events = .ok final) : inv final := by
  induction events generalizing state with
  | nil =>
      cases hrun
      exact hstart
  | cons event rest ih =>
      obtain ⟨next, hnext, hrest⟩ := run_cons_eq_ok_iff.mp hrun
      refine ih (fun other hother => hstep other (List.mem_cons_of_mem _ hother)) ?_ hrest
      exact hstep event List.mem_cons_self _ _ hstart hnext

/-- **The simulation rule.**  A relation into a total machine that every
successful step keeps relates the two machines along the whole run. -/
theorem run_simulation {τ : Type*} (rel : σ → τ → Prop) (abstract : τ → α → τ) {ghost : τ}
    (hstep : ∀ event ∈ events, ∀ before after ghost,
      rel before ghost → step before event = .ok after → rel after (abstract ghost event))
    (hstart : rel state ghost) (hrun : run step state events = .ok final) :
    rel final (events.foldl abstract ghost) := by
  induction events generalizing state ghost with
  | nil =>
      cases hrun
      exact hstart
  | cons event rest ih =>
      obtain ⟨next, hnext, hrest⟩ := run_cons_eq_ok_iff.mp hrun
      refine ih (fun other hother => hstep other (List.mem_cons_of_mem _ hother)) ?_ hrest
      exact hstep event List.mem_cons_self _ _ _ hstart hnext

/-- **The progress rule.**  If every allowed step succeeds and keeps the relation
into the total machine, a run all of whose events are allowed where they occur
succeeds. -/
theorem run_progress {τ : Type*} (rel : σ → τ → Prop) (abstract : τ → α → τ)
    (allowed : τ → α → Prop) {ghost : τ}
    (hstep : ∀ before ghost event, rel before ghost → allowed ghost event →
      ∃ after, step before event = .ok after ∧ rel after (abstract ghost event))
    (hstart : rel state ghost)
    (hall : ∀ front event rest, events = front ++ event :: rest →
      allowed (front.foldl abstract ghost) event) :
    ∃ final, run step state events = .ok final ∧ rel final (events.foldl abstract ghost) := by
  induction events generalizing state ghost with
  | nil => exact ⟨state, rfl, hstart⟩
  | cons first others ih =>
      have hfirst : allowed ghost first := hall [] first others rfl
      obtain ⟨after, hafter, hrel⟩ := hstep state ghost first hstart hfirst
      obtain ⟨final, hrun, hfinal⟩ := ih hrel fun front event rest hsplit =>
        hall (first :: front) event rest (by rw [hsplit]; rfl)
      exact ⟨final, run_cons_eq_ok_iff.mpr ⟨after, hafter, hrun⟩, hfinal⟩

/-! ### Machines that check what they reach -/

section Checked

variable {f : σ → α → σ} (good : σ → Prop) [DecidablePred good] {stop : ε}

/-- **The check is made at every step.**  If each step goes where a total machine goes and
stops if that is not good, the run succeeds exactly when all states on the way are good. -/
theorem run_checked_eq_ok_iff
    (hstep : ∀ before event, good before →
      step before event = if good (f before event) then .ok (f before event) else .error stop)
    (hstart : good state) :
    run step state events = .ok final ↔
      (∀ front, front <+: events → good (front.foldl f state)) ∧
        final = events.foldl f state := by
  induction events generalizing state with
  | nil => simp [List.prefix_nil, hstart, eq_comm]
  | cons event rest ih =>
      by_cases hnext : good (f state event)
      · have hok : step state event = .ok (f state event) := by
          rw [hstep state event hstart, if_pos hnext]
        rw [run_cons_ok hok, ih hnext, List.foldl_cons]
        refine and_congr_left fun _ => ⟨fun hall front hfront => ?_, fun hall front hfront => ?_⟩
        · rcases List.prefix_cons_iff.mp hfront with rfl | ⟨after, rfl, hafter⟩
          · exact hstart
          · exact hall after hafter
        · exact hall (event :: front) (List.cons_prefix_cons.mpr ⟨rfl, hfront⟩)
      · have herror : step state event = .error stop := by
          rw [hstep state event hstart, if_neg hnext]
        rw [run_cons_error herror]
        refine iff_of_false (fun h => by cases h) fun h => hnext ?_
        exact h.1 [event] (List.cons_prefix_cons.mpr ⟨rfl, List.nil_prefix⟩)

end Checked

/-! ### What is recorded along a run -/

/-- Follow a run up to an error and update a record of it at every step. -/
def track {τ : Type*} (step : σ → α → Except ε σ) (update : σ → τ → α → τ) :
    σ → τ → List α → τ
  | _, record, [] => record
  | state, record, event :: rest =>
      match step state event with
      | .error _ => record
      | .ok next => track step update next (update state record event) rest

section Track

variable {τ : Type*} {update : σ → τ → α → τ} {record : τ}

@[simp] theorem track_nil : track step update state record [] = record := rfl

theorem track_cons_ok (h : step state event = .ok next) :
    track step update state record (event :: rest) =
      track step update next (update state record event) rest := by
  simp [track, h]

/-- A record that does not depend on the states is a fold over the events. -/
theorem track_eq_foldl (abstract : τ → α → τ) (hrun : run step state events = .ok final) :
    track step (fun _ => abstract) state record events = events.foldl abstract record := by
  induction events generalizing state record with
  | nil => rfl
  | cons event rest ih =>
      obtain ⟨next, hnext, hrest⟩ := run_cons_eq_ok_iff.mp hrun
      rw [track_cons_ok hnext, List.foldl_cons, ih hrest]

end Track

/-! ### Runs that do not stop -/

/-- The machine survives the events: no step of the run is an error. -/
def Survives (step : σ → α → Except ε σ) (state : σ) (events : List α) : Prop :=
  ∃ final, run step state events = .ok final

@[simp] theorem survives_nil : Survives step state [] := ⟨state, rfl⟩

/-- A run that does not survive has an error. -/
theorem not_survives_iff :
    ¬ Survives step state events ↔ ∃ stop, run step state events = .error stop := by
  cases h : run step state events with
  | error stop => simp [Survives, h]
  | ok final => simp [Survives, h]

/-- **Survival is decided event by event.**  If the abstract machine mirrors the
concrete one and `allowed` decides each single step, the run survives exactly
when every event is allowed where it occurs. -/
theorem survives_iff_allowed {τ : Type*} (rel : σ → τ → Prop) (abstract : τ → α → τ)
    (allowed : τ → α → Prop) {ghost : τ}
    (hstep : ∀ before ghost event, rel before ghost →
      (allowed ghost event → ∃ after, step before event = .ok after ∧
        rel after (abstract ghost event)) ∧
      (¬ allowed ghost event → ∃ stop, step before event = .error stop))
    (hstart : rel state ghost) :
    Survives step state events ↔
      ∀ front event rest, events = front ++ event :: rest →
        allowed (front.foldl abstract ghost) event := by
  constructor
  · -- the first event that is not allowed would have stopped the run
    rintro ⟨final, hrun⟩ front
    induction front generalizing state ghost events with
    | nil =>
        rintro event rest rfl
        by_contra hnot
        obtain ⟨stop, hstop⟩ := (hstep state ghost event hstart).2 hnot
        rw [List.nil_append, run_cons_error hstop] at hrun
        cases hrun
    | cons first front ih =>
        rintro event rest rfl
        obtain ⟨next, hnext, hrest⟩ := run_cons_eq_ok_iff.mp hrun
        have hfirst : allowed ghost first := by
          by_contra hnot
          obtain ⟨stop, hstop⟩ := (hstep state ghost first hstart).2 hnot
          rw [hstop] at hnext
          cases hnext
        obtain ⟨after, hafter, hrel⟩ := (hstep state ghost first hstart).1 hfirst
        rw [hafter] at hnext
        cases hnext
        exact ih hrel hrest event rest rfl
  · intro hall
    obtain ⟨final, hrun, -⟩ := run_progress rel abstract allowed
      (fun before ghost event hrel => (hstep before ghost event hrel).1) hstart hall
    exact ⟨final, hrun⟩

theorem foldl_concat (seen : List α) :
    events.foldl (fun seen event => seen ++ [event]) seen = seen ++ events := by
  induction events generalizing seen with
  | nil => rw [List.append_nil]; rfl
  | cons event rest ih => rw [List.foldl_cons, ih, List.append_assoc]; rfl

/-- The same with the events executed so far as the abstract state. -/
theorem survives_iff_allowed_after (rel : σ → List α → Prop) (allowed : List α → α → Prop)
    (hstep : ∀ before front event, rel before front →
      (allowed front event → ∃ after, step before event = .ok after ∧
        rel after (front ++ [event])) ∧
      (¬ allowed front event → ∃ stop, step before event = .error stop))
    (hstart : rel state []) :
    Survives step state events ↔
      ∀ front event rest, events = front ++ event :: rest → allowed front event := by
  rw [survives_iff_allowed rel (fun front event => front ++ [event]) allowed hstep hstart]
  simp only [foldl_concat, List.nil_append]

/-- **Which errors can end a run.**  On a trace of events that `emitted` lets through,
let an event that is allowed succeed and any other one stop the machine with a bad
error.  Then no bad error ends the run exactly when every event is allowed where it
occurs. -/
theorem never_bad_iff_allowed_after (bad : ε → Prop) (rel : σ → List α → Prop)
    (emitted allowed : List α → α → Prop)
    (hstep : ∀ before front event, rel before front → emitted front event →
      (allowed front event → ∃ after, step before event = .ok after ∧
        rel after (front ++ [event])) ∧
      (¬ allowed front event → ∃ stop, bad stop ∧ step before event = .error stop))
    (hstart : rel state [])
    (hemitted : ∀ front event rest, events = front ++ event :: rest → emitted front event) :
    (∀ stop, bad stop → run step state events ≠ .error stop) ↔
      ∀ front event rest, events = front ++ event :: rest → allowed front event := by
  -- the events behind are `done`, and the induction is on those still to come
  suffices h : ∀ (rest done : List α) (before : σ), rel before done →
      (∀ front event after, rest = front ++ event :: after → emitted (done ++ front) event) →
      ((∀ stop, bad stop → run step before rest ≠ .error stop) ↔
        ∀ front event after, rest = front ++ event :: after → allowed (done ++ front) event) by
    simpa using h events [] state hstart (by simpa using hemitted)
  intro rest
  induction rest with
  | nil =>
      intro done before hrel hemitted
      simp
  | cons event rest ih =>
      intro done before hrel hemitted
      have hfirst := hemitted [] event rest rfl
      rw [List.append_nil] at hfirst
      obtain ⟨hgood, hbad⟩ := hstep before done event hrel hfirst
      by_cases hallowed : allowed done event
      · obtain ⟨after, hafter, hrel'⟩ := hgood hallowed
        rw [run_cons_ok hafter, ih (done ++ [event]) after hrel' fun front other later hsplit => by
          rw [List.append_assoc]
          exact hemitted (event :: front) other later (by rw [hsplit]; rfl)]
        constructor
        · rintro hall (_ | ⟨first, front⟩) other later hsplit
          · obtain ⟨rfl, -⟩ := List.cons.inj hsplit
            rwa [List.append_nil]
          · obtain ⟨rfl, hrest⟩ := List.cons.inj hsplit
            have := hall front other later hrest
            rwa [List.append_assoc] at this
        · intro hall front other later hsplit
          rw [List.append_assoc]
          exact hall (event :: front) other later (by rw [hsplit]; rfl)
      · obtain ⟨stop, hstop, herror⟩ := hbad hallowed
        rw [run_cons_error herror]
        constructor
        · intro hnever
          exact absurd rfl (hnever stop hstop)
        · intro hall
          have := hall [] event rest rfl
          rw [List.append_nil] at this
          exact absurd this hallowed

end FallibleRun
