import Papiex.Lib.FallibleRun
import Papiex.Lib.Intervals

/-!
# Traces of wrapped calls

The profiling libraries put a wrapper around each function of a family, which measures
how long the call takes.  What a thread does is a trace of wrapped calls that begin and
return, with what else the wrappers look at changing in between: the gate of the
library, and whether the thread has its record yet.

## Main results

* `CompleteCalls`: the traces in which every call returns.

## Design notes

A trace is what happens on one thread.  The gate and the record are set by events of their
own, so a property of every trace is one of every way in which they change between the calls.
A return without a call that runs is no trace, and stops the run.
-/

namespace Papiex

/-- What happens on a thread that makes wrapped calls.  A call begins and returns at a
time of `PAPI_get_real_cyc`. -/
inductive WrapEvent (F : Type) where
  | enter (function : F) (cyc : ℤ)
  | leave (cyc : ℤ)
  | setGate (on : ℤ)
  | setThreadData (installed : Bool)

/-- What is no trace of a thread. -/
inductive NoTrace where
  | returnWithoutCall
  deriving DecidableEq

variable {F : Type}

namespace WrapEvent

/-- The time at which a call begins or returns. -/
def cyc? : WrapEvent F → Option ℤ
  | .enter _ cyc => some cyc
  | .leave cyc => some cyc
  | .setGate _ => none
  | .setThreadData _ => none

/-- The event closes the gate or takes the record of the thread away. -/
def SwitchesOff : WrapEvent F → Prop
  | .enter _ _ => False
  | .leave _ => False
  | .setGate on => on = 0
  | .setThreadData installed => installed = false

end WrapEvent

/-- The times of a trace. -/
def readings (trace : List (WrapEvent F)) : List ℤ := trace.filterMap WrapEvent.cyc?

/-- The cycle clock never goes back along the trace. -/
def ClockNeverDecreases (trace : List (WrapEvent F)) : Prop :=
  (readings trace).Pairwise (· ≤ ·)

/-- Traces of complete calls: every call that begins returns, after the calls that have
begun inside it. -/
inductive CompleteCalls : List (WrapEvent F) → Prop where
  | nil : CompleteCalls []
  | call {inner rest : List (WrapEvent F)} (function : F) (start stop : ℤ)
      (hinner : CompleteCalls inner) (hrest : CompleteCalls rest) :
      CompleteCalls (.enter function start :: inner ++ .leave stop :: rest)
  | setGate {rest : List (WrapEvent F)} (on : ℤ) (hrest : CompleteCalls rest) :
      CompleteCalls (.setGate on :: rest)
  | setThreadData {rest : List (WrapEvent F)} (installed : Bool) (hrest : CompleteCalls rest) :
      CompleteCalls (.setThreadData installed :: rest)

/-- **The clock rule.**  A relation that is kept as time passes, and by every event at a
time that is not before the last one, is kept along a trace whose clock never goes
back. -/
theorem run_clock {σ τ : Type} {step : σ → WrapEvent F → Except NoTrace σ}
    {update : σ → τ → WrapEvent F → τ} (rel : ℤ → σ → τ → Prop)
    (hmono : ∀ now later state record, rel now state record → now ≤ later →
      rel later state record)
    (hstep : ∀ now state record event next, rel now state record →
      (∀ cyc, event.cyc? = some cyc → now ≤ cyc) → step state event = .ok next →
        rel (event.cyc?.getD now) next (update state record event))
    {trace : List (WrapEvent F)} {now last : ℤ} {state final : σ} {record : τ}
    (h : rel now state record) (hafter : ∀ cyc ∈ readings trace, now ≤ cyc)
    (hclock : ClockNeverDecreases trace) (hbefore : ∀ cyc ∈ readings trace, cyc ≤ last)
    (hle : now ≤ last) (hrun : FallibleRun.run step state trace = .ok final) :
    rel last final (FallibleRun.track step update state record trace) := by
  induction trace generalizing state now record with
  | nil =>
      cases hrun
      exact hmono now last _ _ h hle
  | cons event trace ih =>
      obtain ⟨next, hnext, hrest⟩ := FallibleRun.run_cons_eq_ok_iff.mp hrun
      rw [FallibleRun.track_cons_ok hnext]
      cases hcyc : event.cyc? with
      | none =>
          -- no time passes
          have hsame : readings (event :: trace) = readings trace := List.filterMap_cons_none hcyc
          rw [hsame] at hafter hbefore
          rw [ClockNeverDecreases, hsame] at hclock
          have hkept := hstep now state record event next h (by simp [hcyc]) hnext
          rw [hcyc] at hkept
          exact ih hkept hafter hclock hbefore hle hrest
      | some cyc =>
          have hmore : readings (event :: trace) = cyc :: readings trace :=
            List.filterMap_cons_some hcyc
          rw [hmore, List.forall_mem_cons] at hafter hbefore
          rw [ClockNeverDecreases, hmore, List.pairwise_cons] at hclock
          have hkept := hstep now state record event next h (by simpa [hcyc] using hafter.1) hnext
          rw [hcyc] at hkept
          exact ih hkept hclock.1 hclock.2 hbefore.2 hbefore.1 hrest

/-- The times of a trace are not before the first one. -/
theorem ClockNeverDecreases.first_le {trace : List (WrapEvent F)} {first : ℤ}
    (hclock : ClockNeverDecreases trace) (hfirst : (readings trace).head? = some first) :
    ∀ cyc ∈ readings trace, first ≤ cyc := by
  obtain ⟨rest, hreadings⟩ := List.head?_eq_some_iff.mp hfirst
  rw [ClockNeverDecreases, hreadings, List.pairwise_cons] at hclock
  rw [hreadings, List.forall_mem_cons]
  exact ⟨le_rfl, hclock.1⟩

end Papiex
