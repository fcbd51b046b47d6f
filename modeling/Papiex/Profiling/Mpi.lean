import Mathlib.Algebra.Order.Group.Int
import Papiex.Profiling.Trace

/-!
# The MPI wrappers

The wrappers of the MPI functions come from `makempiwraplib.pl` and, for the functions
that only synchronise, from `mpiwrap_special.c`, which count into a second counter too.
Neither has a mutex: every call that finds the gate open and the record of its thread is
counted, and so a call that an MPI function makes to another one is counted twice.

## Main results

* `Counting.exec`: one event keeps the intervals apart.
* `mpi_time_within_real_time`: the counted time is no more than the time gone by.

## Design notes

A call is counted if the gate is open when it begins and when it returns and the record is
there.  Which calls are nested in a counted one is told from the trace (`MpiWatch`), and
while none is, the counted intervals follow each other.
-/

namespace Papiex

open Intervals

/-- The wrapped MPI functions. -/
inductive MpiFunction where
  | generated (name : String)
  | barrier
  | wait
  | waitall
  | waitany
  | waitsome
  deriving DecidableEq

/-- The wrapper is one of `mpiwrap_special.c`. -/
def MpiFunction.isSync : MpiFunction → Bool
  | .generated _ => false
  | .barrier => true
  | .wait => true
  | .waitall => true
  | .waitany => true
  | .waitsome => true

/-- The locals of an MPI wrapper that is running. -/
structure MpiFrame where
  function : MpiFunction
  thread : Bool := false
  localstart : ℤ := 0

/-- What the MPI wrappers of one thread work on. -/
structure MpiState where
  gate : ℤ := 0
  threadData : Bool := false
  papiexMpiprof : ℤ := 0
  papiexMpisyncprof : ℤ := 0
  frames : List MpiFrame := []

namespace MpiState

/-- An MPI wrapper up to its call of the real function. -/
def enter (function : MpiFunction) (cyc : ℤ) (state : MpiState) : MpiState :=
  if state.gate ≠ 0 then
    { state with
      frames := { function, thread := state.threadData, localstart := cyc } :: state.frames }
  else { state with frames := { function } :: state.frames }

/-- The epilogue of an MPI wrapper. -/
def leave (cyc : ℤ) (frame : MpiFrame) (state : MpiState) : MpiState :=
  if frame.thread = true ∧ state.gate ≠ 0 then
    { state with
      papiexMpiprof := state.papiexMpiprof + (cyc - frame.localstart)
      papiexMpisyncprof :=
        if frame.function.isSync then state.papiexMpisyncprof + (cyc - frame.localstart)
        else state.papiexMpisyncprof }
  else state

/-- One event of a thread. -/
def exec (state : MpiState) : WrapEvent MpiFunction → Except NoTrace MpiState
  | .enter function cyc => .ok (state.enter function cyc)
  | .leave cyc =>
      match state.frames with
      | [] => .error .returnWithoutCall
      | frame :: frames => .ok { leave cyc frame state with frames }
  | .setGate on => .ok { state with gate := on }
  | .setThreadData installed => .ok { state with threadData := installed }

end MpiState

/-! ## Counted calls inside counted calls -/

/-- A running call as it is seen from outside: whether it will be counted if the gate is
open when it returns, and whether a call inside it has been counted. -/
structure RunningCall where
  found : Bool
  inside : Bool := false

/-- What can be seen of a thread from outside, and whether a counted call has had a
counted call inside it. -/
structure MpiWatch where
  gate : ℤ
  threadData : Bool
  running : List RunningCall := []
  nested : Bool := false

namespace MpiWatch

/-- The innermost running call returns. -/
def leave (call : RunningCall) (calls : List RunningCall) (watch : MpiWatch) : MpiWatch :=
  if call.found = true ∧ watch.gate ≠ 0 then
    { watch with
      running := calls.map fun outer => { outer with inside := true }
      nested := watch.nested || call.inside }
  else { watch with running := calls }

/-- A call will be counted if it begins with the gate open and the record of the thread
in place; it is, if the gate is open when it returns. -/
def step (watch : MpiWatch) : WrapEvent MpiFunction → MpiWatch
  | .enter _ _ =>
      { watch with
        running := { found := decide (watch.gate ≠ 0) && watch.threadData } :: watch.running }
  | .leave _ =>
      match watch.running with
      | [] => watch
      | call :: calls => watch.leave call calls
  | .setGate on => { watch with gate := on }
  | .setThreadData installed => { watch with threadData := installed }

end MpiWatch

/-- **A counted call has had a counted call inside it.** -/
def CountsNested (gate : ℤ) (threadData : Bool) (trace : List (WrapEvent MpiFunction)) : Prop :=
  (trace.foldl MpiWatch.step { gate, threadData }).nested = true

namespace MpiState

/-- What holds of a running wrapper: it has begun already; and if no counted call has had
one inside it so far, and nothing inside this one has been counted, then all that has been
counted was over when it began. -/
structure FrameOk (first now : ℤ) (log : List (ℤ × ℤ)) (nested : Bool) (frame : MpiFrame)
    (call : RunningCall) : Prop where
  found_eq : frame.thread = call.found
  begun : frame.thread = true → frame.localstart ≤ now
  before : nested = false → frame.thread = true → call.inside = false →
    Consecutive first frame.localstart log

/-- What holds along a trace, with the intervals counted so far. -/
structure Counting (first now : ℤ) (log : List (ℤ × ℤ)) (watch : MpiWatch) (state : MpiState) :
    Prop where
  gate_eq : state.gate = watch.gate
  threadData_eq : state.threadData = watch.threadData
  frames : List.Forall₂ (FrameOk first now log watch.nested) state.frames watch.running
  prof_eq : state.papiexMpiprof = lengths log
  sync_nonneg : 0 ≤ state.papiexMpisyncprof
  sync_le : state.papiexMpisyncprof ≤ state.papiexMpiprof
  consecutive : watch.nested = false → Consecutive first now log

variable {first now cyc : ℤ} {log : List (ℤ × ℤ)} {watch : MpiWatch} {state next : MpiState}

/-- A running call stays right as time goes by. -/
theorem FrameOk.mono {nested : Bool} {frame : MpiFrame} {call : RunningCall}
    (h : FrameOk first now log nested frame call) (hle : now ≤ cyc) :
    FrameOk first cyc log nested frame call :=
  ⟨h.found_eq, fun hthread => (h.begun hthread).trans hle, h.before⟩

/-- Time passes. -/
theorem Counting.mono (h : Counting first now log watch state) (hle : now ≤ cyc) :
    Counting first cyc log watch state :=
  ⟨h.gate_eq, h.threadData_eq, h.frames.imp fun _ _ hframe => hframe.mono hle, h.prof_eq,
    h.sync_nonneg, h.sync_le, fun hnested => (h.consecutive hnested).mono hle⟩

theorem Counting.enter (h : Counting first now log watch state) (hle : now ≤ cyc)
    (function : MpiFunction) :
    Counting first cyc log (watch.step (.enter function cyc)) (state.enter function cyc) := by
  obtain ⟨hgate, hdata, hframes, hprof, hnonneg, hsync, hconsecutive⟩ := h.mono hle
  unfold MpiState.enter
  by_cases hopen : state.gate = 0
  · have hclosed : watch.gate = 0 := hgate ▸ hopen
    rw [if_neg (not_not.mpr hopen)]
    refine ⟨hgate, hdata, .cons ?_ hframes, hprof, hnonneg, hsync, hconsecutive⟩
    exact ⟨by simp [hclosed], fun hthread => absurd hthread Bool.false_ne_true,
      fun _ hthread => absurd hthread Bool.false_ne_true⟩
  · have hopen' : watch.gate ≠ 0 := hgate ▸ hopen
    rw [if_pos hopen]
    refine ⟨hgate, hdata, .cons ?_ hframes, hprof, hnonneg, hsync, hconsecutive⟩
    exact ⟨by simp [hopen', hdata], fun _ => le_rfl, fun hnested _ _ => hconsecutive hnested⟩

/-- The interval of time that an event adds to the counters. -/
def added (state : MpiState) : WrapEvent MpiFunction → List (ℤ × ℤ)
  | .leave cyc =>
      match state.frames with
      | [] => []
      | frame :: _ =>
          if frame.thread = true ∧ state.gate ≠ 0 then [(frame.localstart, cyc)] else []
  | _ => []

/-- A call is left, and counted if it is to be. -/
theorem Counting.leave {frame : MpiFrame} {frames : List MpiFrame} {call : RunningCall}
    {calls : List RunningCall} (h : Counting first now log watch state) (hle : now ≤ cyc)
    (hframe : FrameOk first now log watch.nested frame call)
    (hrest : List.Forall₂ (FrameOk first now log watch.nested) frames calls) :
    Counting first cyc
      (log ++ if frame.thread = true ∧ state.gate ≠ 0 then [(frame.localstart, cyc)] else [])
      (watch.leave call calls) { MpiState.leave cyc frame state with frames } := by
  obtain ⟨hgate, hdata, -, hprof, hnonneg, hsync, hconsecutive⟩ := h.mono hle
  obtain ⟨hfound, hbegun, hbefore⟩ := hframe.mono hle
  have hrest' : List.Forall₂ (FrameOk first cyc log watch.nested) frames calls :=
    hrest.imp fun _ _ hother => hother.mono hle
  unfold MpiState.leave MpiWatch.leave
  have hsame : (call.found = true ∧ watch.gate ≠ 0) ↔ (frame.thread = true ∧ state.gate ≠ 0) := by
    rw [hfound, hgate]
  by_cases hcounts : frame.thread = true ∧ state.gate ≠ 0
  · simp only [if_pos hcounts, if_pos (hsame.mpr hcounts)]
    have hlength : 0 ≤ cyc - frame.localstart := sub_nonneg.mpr (hbegun hcounts.1)
    constructor
    case gate_eq => exact hgate
    case threadData_eq => exact hdata
    case frames =>
      -- the calls around this one have now had a counted call inside them
      refine List.forall₂_map_right_iff.mpr (hrest'.imp fun other outer hother => ?_)
      exact ⟨hother.found_eq, hother.begun, fun _ _ hinside => by cases hinside⟩
    case prof_eq => rw [lengths_concat, hprof]
    case sync_nonneg =>
      split
      · exact add_nonneg hnonneg hlength
      · exact hnonneg
    case sync_le =>
      split
      · exact Int.add_le_add_right hsync _
      · exact hsync.trans (le_add_of_nonneg_right hlength)
    case consecutive =>
      intro hnested
      obtain ⟨hnested, hinside⟩ := Bool.or_eq_false_iff.mp hnested
      exact (hbefore hnested hcounts.1 hinside).concat (hbegun hcounts.1)
  · simp only [if_neg hcounts, if_neg (hsame.not.mpr hcounts), List.append_nil]
    exact ⟨hgate, hdata, hrest', hprof, hnonneg, hsync, hconsecutive⟩

/-- One event, at a time that is not before the last one. -/
theorem Counting.exec {event : WrapEvent MpiFunction} (h : Counting first now log watch state)
    (hle : ∀ cyc, event.cyc? = some cyc → now ≤ cyc) (hexec : state.exec event = .ok next) :
    Counting first (event.cyc?.getD now) (log ++ state.added event) (watch.step event) next := by
  cases event with
  | enter function cyc =>
      cases hexec
      simpa [added, WrapEvent.cyc?] using h.enter (hle cyc rfl) function
  | leave cyc =>
      cases hframes : state.frames with
      | nil => simp [MpiState.exec, hframes] at hexec
      | cons frame frames =>
          simp only [MpiState.exec, hframes, Except.ok.injEq] at hexec
          obtain ⟨call, calls, hframe, hrest, hrunning⟩ : ∃ call calls,
              FrameOk first now log watch.nested frame call ∧
              List.Forall₂ (FrameOk first now log watch.nested) frames calls ∧
              watch.running = call :: calls := by
            have hall := h.frames
            rw [hframes] at hall
            exact List.forall₂_cons_left_iff.mp hall
          rw [← hexec]
          simpa [added, hframes, hrunning, MpiWatch.step, WrapEvent.cyc?] using
            h.leave (hle cyc rfl) hframe hrest
  | setGate on =>
      cases hexec
      rw [added, List.append_nil]
      · exact ⟨rfl, h.threadData_eq, h.frames, h.prof_eq, h.sync_nonneg, h.sync_le,
          h.consecutive⟩
      · simp
  | setThreadData installed =>
      cases hexec
      rw [added, List.append_nil]
      · exact ⟨h.gate_eq, rfl, h.frames, h.prof_eq, h.sync_nonneg, h.sync_le, h.consecutive⟩
      · simp

end MpiState

/-! ## Runs -/

/-- A counted call that has had one inside it stays one. -/
theorem MpiWatch.nested_step (watch : MpiWatch) (event : WrapEvent MpiFunction)
    (h : watch.nested = true) : (watch.step event).nested = true := by
  cases event with
  | enter function cyc => exact h
  | leave cyc =>
      cases hrunning : watch.running with
      | nil => simpa [MpiWatch.step, hrunning] using h
      | cons call calls =>
          simp only [MpiWatch.step, hrunning, MpiWatch.leave]
          split
          · simp [h]
          · exact h
  | setGate on => exact h
  | setThreadData installed => exact h

theorem MpiWatch.nested_foldl (trace : List (WrapEvent MpiFunction)) (watch : MpiWatch)
    (h : watch.nested = true) : (trace.foldl MpiWatch.step watch).nested = true := by
  induction trace generalizing watch with
  | nil => exact h
  | cons event trace ih => exact ih _ (watch.nested_step event h)

theorem CountsNested.append {gate : ℤ} {threadData : Bool}
    {front : List (WrapEvent MpiFunction)} (h : CountsNested gate threadData front)
    (rest : List (WrapEvent MpiFunction)) : CountsNested gate threadData (front ++ rest) := by
  rw [CountsNested, List.foldl_append]
  exact MpiWatch.nested_foldl rest _ h

/-- **MPI time and real time.**  Take any trace of the wrapped MPI calls of a thread, with
any changes of the gate and of its record in between, along which the clock never goes
back.  At every point of it the synchronisation time lies between nothing and the MPI
time; and the MPI time is at most the time that has gone by since the first call, if no
counted call has had a counted call inside it. -/
theorem mpi_time_within_real_time (gate : ℤ) (threadData : Bool)
    (trace : List (WrapEvent MpiFunction)) (final : MpiState)
    (hclock : ClockNeverDecreases trace)
    (hrun : FallibleRun.run MpiState.exec { gate, threadData } trace = .ok final)
    (first : ℤ) (hfirst : (readings trace).head? = some first) :
    ∀ front rest, trace = front ++ rest →
      ∀ now, first ≤ now → (∀ cyc ∈ readings front, cyc ≤ now) →
        ∃ state, FallibleRun.run MpiState.exec { gate, threadData } front = .ok state ∧
          0 ≤ state.papiexMpisyncprof ∧ state.papiexMpisyncprof ≤ state.papiexMpiprof ∧
          (¬ CountsNested gate threadData trace → state.papiexMpiprof ≤ now - first) := by
  rintro front rest rfl now hle hnow
  obtain ⟨state, hfront, -⟩ := FallibleRun.run_append_eq_ok_iff.mp hrun
  refine ⟨state, hfront, ?_⟩
  have hsplit : readings (front ++ rest) = readings front ++ readings rest := List.filterMap_append
  -- the clock of the part so far starts at the first reading and never goes back
  have hafter : ∀ cyc ∈ readings front, first ≤ cyc := fun cyc hcyc =>
    hclock.first_le hfirst cyc (by rw [hsplit]; exact List.mem_append_left _ hcyc)
  have hclock' : ClockNeverDecreases front := by
    rw [ClockNeverDecreases, hsplit] at hclock
    exact (List.pairwise_append.mp hclock).1
  have hstart : MpiState.Counting first first [] { gate, threadData } { gate, threadData } :=
    ⟨rfl, rfl, .nil, rfl, le_rfl, le_rfl, fun _ => .nil le_rfl⟩
  have hcounting := run_clock
    (fun now state watch => ∃ log, MpiState.Counting first now log watch state)
    (by
      rintro now later state watch ⟨log, h⟩ hle
      exact ⟨log, h.mono hle⟩)
    (by
      rintro now state watch event next ⟨log, h⟩ hle hexec
      exact ⟨_, h.exec hle hexec⟩)
    ⟨[], hstart⟩ hafter hclock' hnow hle hfront
  rw [FallibleRun.track_eq_foldl MpiWatch.step hfront] at hcounting
  obtain ⟨log, hcounting⟩ := hcounting
  refine ⟨hcounting.sync_nonneg, hcounting.sync_le, fun hnot => ?_⟩
  -- a counted call inside another one would still be there at the end of the trace
  have hnested : (front.foldl MpiWatch.step { gate, threadData }).nested = false := by
    by_contra htrue
    exact hnot (CountsNested.append (by simpa [CountsNested] using htrue) rest)
  rw [hcounting.prof_eq]
  exact (hcounting.consecutive hnested).lengths_le

/-- A barrier after a send. -/
theorem mpi_time_within_real_time_barrier :
    ∃ state, FallibleRun.run MpiState.exec { gate := 1, threadData := true }
        [.enter (.generated "MPI_Send") 100, .leave 150, .enter .barrier 160, .leave 190] =
          .ok state ∧
      state.papiexMpisyncprof = 30 ∧ state.papiexMpiprof = 80 ∧
      state.papiexMpiprof ≤ 190 - 100 := by
  obtain ⟨state, hrun, -, -, hbound⟩ := mpi_time_within_real_time 1 true
    [.enter (.generated "MPI_Send") 100, .leave 150, .enter .barrier 160, .leave 190] _
    (by unfold ClockNeverDecreases; decide) rfl 100 rfl _ [] (List.append_nil _).symm 190
    (by decide) (by decide)
  refine ⟨state, hrun, ?_, ?_, hbound (by unfold CountsNested; decide)⟩
  · cases hrun
    rfl
  · cases hrun
    rfl

/-- **A call inside a call is counted twice**: a barrier that the library makes inside
another function. -/
theorem mpi_time_counted_twice :
    ∃ state, FallibleRun.run MpiState.exec { gate := 1, threadData := true }
        [.enter (.generated "MPI_Allreduce") 100, .enter .barrier 110, .leave 190, .leave 200] =
          .ok state ∧
      ¬ state.papiexMpiprof ≤ 200 - 100 :=
  ⟨_, rfl, by decide⟩

end Papiex
