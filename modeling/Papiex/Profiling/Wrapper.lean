import Mathlib.Algebra.Order.Group.Int
import Papiex.Profiling.Trace

/-!
# The wrappers of `makewraplib.pl`

The wrappers of the I/O and of the thread synchronisation functions.  The first call
that begins while the gate is open takes the mutex of the thread, so that the calls made
inside it do not measure themselves.  It adds its time when it returns, and then gives
the mutex back, if the gate is still open and if the thread had its record when the call
began.

## Main results

* `Counting.exec`: one event adds at most one interval behind the others.
* `wrapped_time_counted_once`: no time is counted twice.

## Design notes

The intervals that a wrapper adds are collected along the trace, and the counter is shown to
be their sum.  That they are disjoint is an invariant of the trace: at most one running
wrapper has taken the mutex, and it has begun after all that was added.
-/

namespace Papiex

open Intervals

/-- The locals of a wrapper that is running: whether `thread` is set, `localstart` and
`i_started_counter`. -/
structure WrapFrame where
  thread : Bool := false
  localstart : ℤ := 0
  iStartedCounter : Bool := false

/-- What the wrappers of one thread work on: the gate, whether the thread has its record,
the mutex of the thread, the counter in the record, and the wrappers that are running,
the innermost first. -/
structure WrapState where
  gate : ℤ := 0
  threadData : Bool := false
  perthreadMutex : Bool := false
  counter : ℤ := 0
  frames : List WrapFrame := []

namespace WrapState

variable {F : Type}

/-- A wrapper up to its call of the real function. -/
def enter (cyc : ℤ) (state : WrapState) : WrapState :=
  if state.gate ≠ 0 ∧ state.perthreadMutex = false then
    { state with
      perthreadMutex := true
      frames := { thread := state.threadData, localstart := cyc, iStartedCounter := true } ::
        state.frames }
  else { state with frames := {} :: state.frames }

/-- A returning wrapper adds its time. -/
def Adds (state : WrapState) (frame : WrapFrame) : Prop :=
  frame.thread = true ∧ state.gate ≠ 0 ∧ frame.iStartedCounter = true

instance (state : WrapState) (frame : WrapFrame) : Decidable (state.Adds frame) :=
  inferInstanceAs (Decidable (_ ∧ _ ∧ _))

/-- The epilogue of a wrapper, when the real function has returned. -/
def leave (cyc : ℤ) (frame : WrapFrame) (state : WrapState) : WrapState :=
  if state.Adds frame then
    { state with
      counter := state.counter + (cyc - frame.localstart)
      perthreadMutex := false }
  else state

/-- One event of a thread. -/
def exec (state : WrapState) : WrapEvent F → Except NoTrace WrapState
  | .enter _ cyc => .ok (state.enter cyc)
  | .leave cyc =>
      match state.frames with
      | [] => .error .returnWithoutCall
      | frame :: frames => .ok { leave cyc frame state with frames }
  | .setGate on => .ok { state with gate := on }
  | .setThreadData installed => .ok { state with threadData := installed }

/-- The interval of time that an event adds to the counter. -/
def added (state : WrapState) : WrapEvent F → List (ℤ × ℤ)
  | .leave cyc =>
      match state.frames with
      | [] => []
      | frame :: _ => if state.Adds frame then [(frame.localstart, cyc)] else []
  | _ => []

/-- The intervals of time that have been added to the counter along a trace. -/
def counted (state : WrapState) (trace : List (WrapEvent F)) : List (ℤ × ℤ) :=
  FallibleRun.track exec (fun state intervals event => intervals ++ state.added event) state []
    trace

/-! ## Nothing is counted twice -/

/-- The intervals counted so far follow each other between two times; a wrapper that has
taken the mutex is the only one and has begun after them. -/
structure Counting (first now : ℤ) (log : List (ℤ × ℤ)) (state : WrapState) : Prop where
  counter_eq : state.counter = lengths log
  consecutive : Consecutive first now log
  started : ∀ frame ∈ state.frames, frame.iStartedCounter = true →
    Consecutive first frame.localstart log ∧ frame.localstart ≤ now ∧
      state.perthreadMutex = true
  owner_unique : state.frames.Pairwise fun inner outer =>
    ¬ (inner.iStartedCounter = true ∧ outer.iStartedCounter = true)

variable {first now cyc : ℤ} {log : List (ℤ × ℤ)} {state next : WrapState}

/-- Time passes. -/
theorem Counting.mono (h : Counting first now log state) (hle : now ≤ cyc) :
    Counting first cyc log state where
  counter_eq := h.counter_eq
  consecutive := h.consecutive.mono hle
  started frame hframe hstarted := by
    obtain ⟨hbefore, hnow, hmutex⟩ := h.started frame hframe hstarted
    exact ⟨hbefore, hnow.trans hle, hmutex⟩
  owner_unique := h.owner_unique

theorem Counting.enter (h : Counting first now log state) (hle : now ≤ cyc) :
    Counting first cyc log (state.enter cyc) := by
  obtain ⟨hcounter, hconsecutive, hstarted, hunique⟩ := h.mono hle
  unfold WrapState.enter
  split
  · rename_i htakes
    -- with the mutex free no wrapper has taken it
    have hnone : ∀ frame ∈ state.frames, frame.iStartedCounter = false := by
      intro frame hframe
      by_contra howner
      have hmutex := (hstarted frame hframe (by simpa using howner)).2.2
      rw [htakes.2] at hmutex
      cases hmutex
    refine ⟨hcounter, hconsecutive, ?_, ?_⟩
    · intro frame hframe howner
      rcases List.mem_cons.mp hframe with rfl | hframe
      · exact ⟨hconsecutive, le_rfl, rfl⟩
      · rw [hnone frame hframe] at howner
        cases howner
    · rw [List.pairwise_cons]
      refine ⟨fun frame hframe hboth => ?_, hunique⟩
      rw [hnone frame hframe] at hboth
      cases hboth.2
  · refine ⟨hcounter, hconsecutive, ?_, ?_⟩
    · intro frame hframe howner
      rcases List.mem_cons.mp hframe with rfl | hframe
      · cases howner
      · exact hstarted frame hframe howner
    · rw [List.pairwise_cons]
      refine ⟨fun frame _ hboth => ?_, hunique⟩
      cases hboth.1

theorem Counting.leave {frame : WrapFrame} {frames : List WrapFrame}
    (h : Counting first now log state) (hle : now ≤ cyc)
    (hframes : state.frames = frame :: frames) :
    Counting first cyc (log ++ if state.Adds frame then [(frame.localstart, cyc)] else [])
      { WrapState.leave cyc frame state with frames } := by
  obtain ⟨hcounter, hconsecutive, hstarted, hunique⟩ := h.mono hle
  rw [hframes] at hstarted hunique
  rw [List.pairwise_cons] at hunique
  unfold WrapState.leave
  by_cases hadds : state.Adds frame
  · simp only [hadds, if_true]
    obtain ⟨hbefore, hnow, -⟩ := hstarted frame List.mem_cons_self hadds.2.2
    refine ⟨?_, hbefore.concat hnow, ?_, hunique.2⟩
    · rw [lengths_concat, hcounter]
    · intro other hother howner
      exact absurd ⟨hadds.2.2, howner⟩ (hunique.1 other hother)
  · simp only [hadds, if_false, List.append_nil]
    exact ⟨hcounter, hconsecutive,
      fun other hother => hstarted other (List.mem_cons_of_mem _ hother),
      hunique.2⟩

/-- A return ends the innermost call. -/
theorem exec_leave_eq_ok (hexec : state.exec (.leave cyc : WrapEvent F) = .ok next) :
    ∃ frame frames, state.frames = frame :: frames ∧
      next = { WrapState.leave cyc frame state with frames } := by
  cases hframes : state.frames with
  | nil => simp [WrapState.exec, hframes] at hexec
  | cons frame frames =>
      simp only [WrapState.exec, hframes, Except.ok.injEq] at hexec
      exact ⟨frame, frames, rfl, hexec.symm⟩

/-- One event, at a time that is not before the last one. -/
theorem Counting.exec {event : WrapEvent F} (h : Counting first now log state)
    (hle : ∀ cyc, event.cyc? = some cyc → now ≤ cyc) (hexec : state.exec event = .ok next) :
    Counting first (event.cyc?.getD now) (log ++ state.added event) next := by
  cases event with
  | enter function cyc =>
      cases hexec
      simpa [added, WrapEvent.cyc?] using h.enter (hle cyc rfl)
  | leave cyc =>
      obtain ⟨frame, frames, hframes, rfl⟩ := exec_leave_eq_ok hexec
      simpa [added, hframes, WrapEvent.cyc?] using h.leave (hle cyc rfl) hframes
  | setGate on =>
      cases hexec
      rw [added, List.append_nil]
      · exact ⟨h.counter_eq, h.consecutive, h.started, h.owner_unique⟩
      · simp
  | setThreadData installed =>
      cases hexec
      rw [added, List.append_nil]
      · exact ⟨h.counter_eq, h.consecutive, h.started, h.owner_unique⟩
      · simp

end WrapState

/-- **Wrapped time is never counted twice.**  Take any trace of the wrapped calls of a
thread, nested in any way, with any changes of the gate and of the record of the thread
in between, along which the clock never goes back.  What has been added to the counter
are the lengths of intervals that follow each other between the first call and any time
after the last one, and so it is no more than the time between. -/
theorem wrapped_time_counted_once {F : Type} (gate : ℤ) (threadData : Bool)
    (trace : List (WrapEvent F)) (final : WrapState) (hclock : ClockNeverDecreases trace)
    (hrun : FallibleRun.run WrapState.exec { gate, threadData } trace = .ok final)
    (first last : ℤ) (hfirst : (readings trace).head? = some first)
    (hlast : ∀ cyc ∈ readings trace, cyc ≤ last) :
    final.counter = lengths (WrapState.counted { gate, threadData } trace) ∧
      Consecutive first last (WrapState.counted { gate, threadData } trace) ∧
      0 ≤ final.counter ∧ final.counter ≤ last - first := by
  have hstart : WrapState.Counting first first [] { gate, threadData } :=
    ⟨rfl, .nil le_rfl, by simp, List.Pairwise.nil⟩
  have hcounting : WrapState.Counting first last
      (WrapState.counted { gate, threadData } trace) final :=
    run_clock (fun now state log => WrapState.Counting first now log state)
      (fun _ _ _ _ h hle => h.mono hle) (fun _ _ _ _ _ h hle hexec => h.exec hle hexec) hstart
      (hclock.first_le hfirst) hclock hlast
      (hlast first (List.mem_of_mem_head? (by rw [hfirst]; rfl))) hrun
  refine ⟨hcounting.counter_eq, hcounting.consecutive, ?_, ?_⟩
  · rw [hcounting.counter_eq]
    exact hcounting.consecutive.lengths_nonneg
  · rw [hcounting.counter_eq]
    exact hcounting.consecutive.lengths_le

/-- A call inside a call, and then the gate closes during another one. -/
theorem wrapped_time_counted_once_nested :
    ∃ final, FallibleRun.run WrapState.exec { gate := 1, threadData := true }
        ([.enter "fwrite" 100, .enter "write" 110, .leave 150, .leave 180, .enter "read" 200,
          .setGate 0, .leave 260] : List (WrapEvent String)) = .ok final ∧
      final.counter = 80 ∧ final.counter ≤ 260 - 100 := by
  have hrun : ∃ final, FallibleRun.run WrapState.exec { gate := 1, threadData := true }
      ([.enter "fwrite" 100, .enter "write" 110, .leave 150, .leave 180, .enter "read" 200,
        .setGate 0, .leave 260] : List (WrapEvent String)) = .ok final := ⟨_, rfl⟩
  obtain ⟨final, hrun⟩ := hrun
  have hbound := wrapped_time_counted_once 1 true _ final
    (by unfold ClockNeverDecreases; decide) hrun 100 260 rfl (by decide)
  refine ⟨final, hrun, ?_, hbound.2.2.2⟩
  cases hrun
  rfl

end Papiex
