import Papiex.Profiling.Wrapper

/-!
# The mutex that is not given back

A wrapper takes the mutex of its thread under one condition and gives it back under
another.  A call that begins before the thread has its record, or that returns when the
gate has been closed, keeps the mutex for good, and from then on the thread measures
nothing.

## Main results

* `Watched`: what a trace has measured so far; `Watched.run` over a whole trace.
* `not_switched_off_iff`: when no call is left unmeasured for good.

## Design notes

The mutex is with the call that measures, as long as each such call finds the record of the
thread and the gate open (`Watched`).  The first one that does not leaves the mutex taken
with no wrapper to give it back, and this stays so whatever comes (`Stuck`); so the condition
is needed as well.
-/

namespace Papiex

variable {F : Type}

/-! ## What should hold -/

/-- When all calls have returned the mutex is free; and an outermost call throughout
which the gate is open and the thread has its record is then counted in full. -/
structure NotSwitchedOff (F : Type) (state : WrapState) : Prop where
  mutex : state.perthreadMutex = false
  counts : state.gate ≠ 0 → state.threadData = true →
    ∀ (function : F) (inner : List (WrapEvent F)) (start stop : ℤ), CompleteCalls inner →
      (∀ event ∈ inner, ¬ event.SwitchesOff) →
      ∃ after, FallibleRun.run WrapState.exec state
          (.enter function start :: (inner ++ [.leave stop])) = .ok after ∧
        after.counter = state.counter + (stop - start)

/-! ## The condition -/

/-- What can be seen of a thread from outside: the gate, whether the thread has its
record, and for each running call whether it is the one that measures. -/
structure Watch where
  gate : ℤ
  threadData : Bool
  measures : List Bool

namespace Watch

/-- A call measures if the gate is open when it begins and no call around it measures. -/
def step (watch : Watch) : WrapEvent F → Watch
  | .enter _ _ =>
      { watch with
        measures := (decide (watch.gate ≠ 0) && !watch.measures.any id) :: watch.measures }
  | .leave _ => { watch with measures := watch.measures.tail }
  | .setGate on => { watch with gate := on }
  | .setThreadData installed => { watch with threadData := installed }

/-- A call that measures must find the record of the thread when it begins, and the gate
open when it returns. -/
def Allows (watch : Watch) : WrapEvent F → Prop
  | .enter _ _ =>
      watch.gate ≠ 0 → watch.measures.any id = false → watch.threadData = true
  | .leave _ => watch.measures.head? = some true → watch.gate ≠ 0
  | .setGate _ => True
  | .setThreadData _ => True

/-- Every call of the trace that measures finds the record and the gate. -/
def AllowsAll : Watch → List (WrapEvent F) → Prop
  | _, [] => True
  | watch, event :: rest => watch.Allows event ∧ (watch.step event).AllowsAll rest

end Watch

namespace WrapState

variable {state next : WrapState} {watch : Watch}

/-- The mutex is with the call that measures, and this call has found the record. -/
structure Watched (watch : Watch) (state : WrapState) : Prop where
  gate_eq : state.gate = watch.gate
  threadData_eq : state.threadData = watch.threadData
  measures_eq : state.frames.map WrapFrame.iStartedCounter = watch.measures
  mutex_eq : state.perthreadMutex = watch.measures.any id
  thread_found : ∀ frame ∈ state.frames, frame.iStartedCounter = true → frame.thread = true
  owner_unique : watch.measures.Pairwise fun inner outer => ¬ (inner = true ∧ outer = true)

/-- The mutex is taken, and no running wrapper will give it back. -/
structure Stuck (state : WrapState) : Prop where
  mutex : state.perthreadMutex = true
  nobody : ∀ frame ∈ state.frames, ¬ (frame.iStartedCounter = true ∧ frame.thread = true)

theorem Stuck.exec {event : WrapEvent F} (h : Stuck state) (hexec : state.exec event = .ok next) :
    Stuck next := by
  cases event with
  | enter function cyc =>
      cases hexec
      have hnot : ¬ (state.gate ≠ 0 ∧ state.perthreadMutex = false) := by simp [h.mutex]
      rw [WrapState.enter, if_neg hnot]
      refine ⟨h.mutex, fun frame hframe => ?_⟩
      rcases List.mem_cons.mp hframe with rfl | hframe
      · simp
      · exact h.nobody frame hframe
  | leave cyc =>
      obtain ⟨frame, frames, hframes, rfl⟩ := WrapState.exec_leave_eq_ok hexec
      have hnobody := h.nobody
      rw [hframes, List.forall_mem_cons] at hnobody
      have hnot : ¬ state.Adds frame := fun hadds => hnobody.1 ⟨hadds.2.2, hadds.1⟩
      rw [WrapState.leave, if_neg hnot]
      exact ⟨h.mutex, hnobody.2⟩
  | setGate on =>
      cases hexec
      exact ⟨h.mutex, h.nobody⟩
  | setThreadData installed =>
      cases hexec
      exact ⟨h.mutex, h.nobody⟩

/-- Each call that is running has its start on record. -/
theorem Watched.started_mem (h : Watched watch state) {frame : WrapFrame}
    (hframe : frame ∈ state.frames) : frame.iStartedCounter ∈ watch.measures :=
  h.measures_eq ▸ List.mem_map_of_mem hframe

/-- The beginning of a call. -/
theorem Watched.enter (h : Watched watch state) (function : F) (cyc : ℤ) :
    (watch.Allows (.enter function cyc) →
      Watched (watch.step (.enter function cyc)) (state.enter cyc)) ∧
    (¬ watch.Allows (.enter function cyc) → Stuck (state.enter cyc)) := by
  by_cases htakes : state.gate ≠ 0 ∧ state.perthreadMutex = false
  · -- the call takes the mutex, and no call around it measures
    have hgate : watch.gate ≠ 0 := h.gate_eq ▸ htakes.1
    have hany : watch.measures.any id = false := h.mutex_eq ▸ htakes.2
    have hnone : ∀ measures ∈ watch.measures, measures ≠ true := List.any_eq_false.mp hany
    rw [WrapState.enter, if_pos htakes]
    constructor
    · intro hallows
      have hfound : watch.threadData = true := hallows hgate hany
      constructor
      case gate_eq => exact h.gate_eq
      case threadData_eq => exact h.threadData_eq
      case measures_eq => simp [Watch.step, h.measures_eq, hgate, hany]
      case mutex_eq => simp [Watch.step, hgate, hany]
      case thread_found =>
        intro frame hframe howner
        rcases List.mem_cons.mp hframe with rfl | hframe
        · exact h.threadData_eq.trans hfound
        · exact h.thread_found frame hframe howner
      case owner_unique =>
        rw [Watch.step, List.pairwise_cons]
        exact ⟨fun outer houter hboth => hnone outer houter hboth.2, h.owner_unique⟩
    · -- without the thread's record nobody will give the mutex back
      intro hnot
      have hmissing : state.threadData = false := by
        rw [h.threadData_eq]
        by_contra hfound
        exact hnot fun _ _ => by simpa using hfound
      refine ⟨rfl, fun frame hframe hboth => ?_⟩
      rcases List.mem_cons.mp hframe with rfl | hframe
      · rw [hmissing] at hboth
        cases hboth.2
      · exact hnone _ (h.started_mem hframe) hboth.1
  · -- a call that does not take the mutex measures nothing, and is always allowed
    have hmeasures : (decide (watch.gate ≠ 0) && !watch.measures.any id) = false := by
      rw [← h.gate_eq, ← h.mutex_eq]
      by_contra htrue
      simp only [Bool.not_eq_false, Bool.and_eq_true, decide_eq_true_eq, Bool.not_eq_true'] at htrue
      exact htakes htrue
    rw [WrapState.enter, if_neg htakes]
    constructor
    · intro _
      constructor
      case gate_eq => exact h.gate_eq
      case threadData_eq => exact h.threadData_eq
      case measures_eq => simp only [Watch.step, hmeasures, List.map_cons, h.measures_eq]
      case mutex_eq =>
        simp only [Watch.step, hmeasures, List.any_cons, id, Bool.false_or, h.mutex_eq]
      case thread_found =>
        intro frame hframe howner
        rcases List.mem_cons.mp hframe with rfl | hframe
        · cases howner
        · exact h.thread_found frame hframe howner
      case owner_unique =>
        rw [Watch.step, hmeasures, List.pairwise_cons]
        exact ⟨fun outer _ hboth => by simp at hboth, h.owner_unique⟩
    · intro hnot
      refine absurd (fun hgate hany => ?_) hnot
      exact absurd ⟨h.gate_eq ▸ hgate, h.mutex_eq ▸ hany⟩ htakes

/-- The return of a call. -/
theorem Watched.leave {frame : WrapFrame} {frames : List WrapFrame} (h : Watched watch state)
    (hframes : state.frames = frame :: frames) (cyc : ℤ) :
    (watch.Allows (.leave cyc : WrapEvent F) →
      Watched (watch.step (.leave cyc : WrapEvent F))
        { WrapState.leave cyc frame state with frames }) ∧
    (¬ watch.Allows (.leave cyc : WrapEvent F) →
      Stuck { WrapState.leave cyc frame state with frames }) := by
  obtain ⟨hgate, hdata, hmeasures, hmutex, hfound, hunique⟩ := h
  rw [hframes, List.map_cons] at hmeasures
  rw [hframes, List.forall_mem_cons] at hfound
  rw [← hmeasures, List.pairwise_cons] at hunique
  cases howner : frame.iStartedCounter with
  | false =>
      -- an inner call changes nothing
      have hnot : ¬ state.Adds frame := fun hadds => by
        have hstarted := hadds.2.2
        rw [howner] at hstarted
        cases hstarted
      have hsame : state.perthreadMutex = (frames.map WrapFrame.iStartedCounter).any id := by
        rw [hmutex, ← hmeasures, howner]
        simp
      rw [WrapState.leave, if_neg hnot]
      constructor
      · intro _
        refine ⟨hgate, hdata, ?_, ?_, hfound.2, ?_⟩
        · rw [Watch.step, ← hmeasures, List.tail_cons]
        · rw [Watch.step, ← hmeasures, List.tail_cons]
          exact hsame
        · rw [Watch.step, ← hmeasures, List.tail_cons]
          exact hunique.2
      · intro hnot'
        refine absurd (fun hhead => ?_) hnot'
        rw [← hmeasures, howner] at hhead
        simp at hhead
  | true =>
      -- the call that has the mutex: it gives it back exactly if the gate is open
      have hnone : ∀ measures ∈ frames.map WrapFrame.iStartedCounter, measures ≠ true :=
        fun measures hmem htrue => hunique.1 measures hmem ⟨howner, htrue⟩
      constructor
      · intro hallows
        have hopen : state.gate ≠ 0 := by
          rw [hgate]
          exact hallows (by rw [← hmeasures, howner]; rfl)
        rw [WrapState.leave, if_pos ⟨hfound.1 howner, hopen, howner⟩]
        refine ⟨hgate, hdata, ?_, ?_, hfound.2, ?_⟩
        · rw [Watch.step, ← hmeasures, List.tail_cons]
        · rw [Watch.step, ← hmeasures, List.tail_cons]
          exact (List.any_eq_false.mpr hnone).symm
        · rw [Watch.step, ← hmeasures, List.tail_cons]
          exact hunique.2
      · intro hnot'
        have hclosed : state.gate = 0 := by
          by_contra hopen
          exact hnot' fun _ => hgate ▸ hopen
        have hnot : ¬ state.Adds frame := fun hadds => hadds.2.1 hclosed
        rw [WrapState.leave, if_neg hnot]
        refine ⟨?_, fun other hother hboth => ?_⟩
        · rw [hmutex, ← hmeasures, howner]
          rfl
        · exact hnone _ (List.mem_map_of_mem hother) hboth.1

/-- One event: as long as it is allowed the mutex is where it should be, and the first one
that is not leaves it stuck. -/
theorem Watched.exec {event : WrapEvent F} (h : Watched watch state)
    (hexec : state.exec event = .ok next) :
    (watch.Allows event → Watched (watch.step event) next) ∧
      (¬ watch.Allows event → Stuck next) := by
  cases event with
  | enter function cyc =>
      cases hexec
      exact h.enter function cyc
  | leave cyc =>
      obtain ⟨frame, frames, hframes, rfl⟩ := WrapState.exec_leave_eq_ok hexec
      exact h.leave hframes cyc
  | setGate on =>
      cases hexec
      refine ⟨fun _ => ?_, fun hnot => absurd trivial hnot⟩
      exact ⟨rfl, h.threadData_eq, h.measures_eq, h.mutex_eq, h.thread_found, h.owner_unique⟩
  | setThreadData installed =>
      cases hexec
      refine ⟨fun _ => ?_, fun hnot => absurd trivial hnot⟩
      exact ⟨h.gate_eq, rfl, h.measures_eq, h.mutex_eq, h.thread_found, h.owner_unique⟩

/-- Stuck in the trace is stuck at its end. -/
theorem Stuck.run {trace : List (WrapEvent F)} {final : WrapState} (h : Stuck state)
    (hrun : FallibleRun.run WrapState.exec state trace = .ok final) : Stuck final :=
  FallibleRun.run_invariant Stuck (fun _ _ _ _ hbefore hexec => hbefore.exec hexec) h hrun

/-- **Over a trace the watch holds, or the wrapper gets stuck.** -/
theorem Watched.run {trace : List (WrapEvent F)} {final : WrapState} (h : Watched watch state)
    (hrun : FallibleRun.run WrapState.exec state trace = .ok final) :
    (watch.AllowsAll trace → ∃ watch', Watched watch' final) ∧
      (¬ watch.AllowsAll trace → Stuck final) := by
  induction trace generalizing state watch with
  | nil =>
      cases hrun
      exact ⟨fun _ => ⟨watch, h⟩, fun hnot => absurd trivial hnot⟩
  | cons event trace ih =>
      obtain ⟨next, hnext, hrest⟩ := FallibleRun.run_cons_eq_ok_iff.mp hrun
      obtain ⟨hgood, hbad⟩ := h.exec hnext
      by_cases hallows : watch.Allows event
      · obtain ⟨hall, hsome⟩ := ih (hgood hallows) hrest
        exact ⟨fun hevery => hall hevery.2, fun hnot => hsome fun hevery => hnot ⟨hallows, hevery⟩⟩
      · exact ⟨fun hevery => absurd hevery.1 hallows, fun _ => (hbad hallows).run hrest⟩

/-! ## Complete calls -/

theorem enter_frames (state : WrapState) (cyc : ℤ) :
    ∃ frame, (state.enter cyc).frames = frame :: state.frames := by
  unfold WrapState.enter
  split
  · exact ⟨_, rfl⟩
  · exact ⟨_, rfl⟩

/-- The call that is left is the last one that was entered. -/
theorem exec_leave {frame : WrapFrame} {frames : List WrapFrame}
    (hframes : state.frames = frame :: frames) (cyc : ℤ) :
    state.exec (.leave cyc : WrapEvent F) =
      .ok { WrapState.leave cyc frame state with frames } := by
  simp [WrapState.exec, hframes]

/-- The run of a call: what runs inside it, its return, and what comes after. -/
theorem run_call {inner rest : List (WrapEvent F)} {frame : WrapFrame} {frames : List WrapFrame}
    {middle final : WrapState} {start stop : ℤ} (function : F)
    (hinner : FallibleRun.run WrapState.exec (state.enter start) inner = .ok middle)
    (hframes : middle.frames = frame :: frames)
    (hrest : FallibleRun.run WrapState.exec { WrapState.leave stop frame middle with frames } rest =
      .ok final) :
    FallibleRun.run WrapState.exec state (.enter function start :: inner ++ .leave stop :: rest) =
      .ok final := by
  refine FallibleRun.run_cons_eq_ok_iff.mpr ⟨state.enter start, rfl, ?_⟩
  refine FallibleRun.run_append_eq_ok_iff.mpr ⟨middle, hinner, ?_⟩
  exact FallibleRun.run_cons_eq_ok_iff.mpr ⟨_, exec_leave hframes stop, hrest⟩

/-- Complete calls run, and leave the running ones as they were. -/
theorem run_complete {trace : List (WrapEvent F)} (h : CompleteCalls trace) (state : WrapState) :
    ∃ final, FallibleRun.run WrapState.exec state trace = .ok final ∧
      final.frames = state.frames := by
  induction h generalizing state with
  | nil => exact ⟨state, rfl, rfl⟩
  | call function start stop hinner hrest ihinner ihrest =>
      obtain ⟨frame, hframe⟩ := enter_frames state start
      obtain ⟨middle, hmiddle, hframes⟩ := ihinner (state.enter start)
      rw [hframe] at hframes
      obtain ⟨final, hfinal, hsame⟩ :=
        ihrest { WrapState.leave stop frame middle with frames := state.frames }
      exact ⟨final, run_call function hmiddle hframes hfinal, hsame⟩
  | setGate on hrest ih => exact ih { state with gate := on }
  | setThreadData installed hrest ih => exact ih { state with threadData := installed }

/-- Complete calls while another call has the mutex measure nothing. -/
structure Held (state final : WrapState) : Prop where
  frames_eq : final.frames = state.frames
  counter_eq : final.counter = state.counter
  mutex : final.perthreadMutex = true
  gate : final.gate ≠ 0

/-- **Complete calls while another call has the mutex measure nothing.** -/
theorem held_complete {trace : List (WrapEvent F)} (h : CompleteCalls trace)
    (hon : ∀ event ∈ trace, ¬ event.SwitchesOff) (state : WrapState)
    (hmutex : state.perthreadMutex = true) (hgate : state.gate ≠ 0) :
    ∃ final, FallibleRun.run WrapState.exec state trace = .ok final ∧ Held state final := by
  induction h generalizing state with
  | nil => exact ⟨state, rfl, rfl, rfl, hmutex, hgate⟩
  | call function start stop hinner hrest ihinner ihrest =>
      rw [List.cons_append, List.forall_mem_cons, List.forall_mem_append,
        List.forall_mem_cons] at hon
      -- the call finds the mutex taken, and leaves everything as it was
      have henter : state.enter start = { state with frames := {} :: state.frames } :=
        if_neg fun htakes => by simp [hmutex] at htakes
      obtain ⟨middle, hmiddle, hheld⟩ := ihinner hon.2.1 (state.enter start)
        (by rw [henter]; exact hmutex) (by rw [henter]; exact hgate)
      have hframes : middle.frames = {} :: state.frames := by
        rw [hheld.frames_eq, henter]
      have hleave : WrapState.leave stop {} middle = middle :=
        if_neg fun hadds => by cases hadds.1
      obtain ⟨final, hfinal, hheld'⟩ := ihrest hon.2.2.2
        { WrapState.leave stop {} middle with frames := state.frames }
        (by rw [hleave]; exact hheld.mutex) (by rw [hleave]; exact hheld.gate)
      refine ⟨final, run_call function hmiddle hframes hfinal, hheld'.frames_eq, ?_,
        hheld'.mutex, hheld'.gate⟩
      rw [hheld'.counter_eq, hleave]
      exact hheld.counter_eq.trans (by rw [henter])
  | setGate on hrest ih =>
      rw [List.forall_mem_cons] at hon
      obtain ⟨final, hfinal, hheld⟩ := ih hon.2 { state with gate := on } hmutex hon.1
      exact ⟨final, hfinal, hheld.frames_eq, hheld.counter_eq, hheld.mutex, hheld.gate⟩
  | setThreadData installed hrest ih =>
      rw [List.forall_mem_cons] at hon
      obtain ⟨final, hfinal, hheld⟩ :=
        ih hon.2 { state with threadData := installed } hmutex hgate
      exact ⟨final, hfinal, hheld.frames_eq, hheld.counter_eq, hheld.mutex, hheld.gate⟩

/-- With the mutex free an outermost call is counted in full. -/
theorem notSwitchedOff_of_mutex (hmutex : state.perthreadMutex = false) :
    NotSwitchedOff F state where
  mutex := hmutex
  counts hgate hdata function inner start stop hinner hon := by
    have henter : state.enter start =
        { state with
          perthreadMutex := true
          frames := { thread := state.threadData, localstart := start, iStartedCounter := true } ::
            state.frames } := if_pos ⟨hgate, hmutex⟩
    obtain ⟨middle, hmiddle, hheld⟩ := held_complete hinner hon (state.enter start)
      (by rw [henter]) (by rw [henter]; exact hgate)
    have hframes := hheld.frames_eq
    rw [henter] at hframes
    refine ⟨_, run_call function hmiddle hframes rfl, ?_⟩
    rw [WrapState.leave, if_pos ⟨hdata, hheld.gate, rfl⟩]
    exact congrArg (· + (stop - start)) (hheld.counter_eq.trans (by rw [henter]))

end WrapState

/-- **When a thread is switched off for good.**  Take any trace of complete calls of a
thread, with any changes of the gate and of its record in between.  When they have all
returned the mutex is free, and later calls are counted in full, if and only if every
call that measures has found the record of the thread when it began and the gate open
when it returned. -/
theorem not_switched_off_iff (gate : ℤ) (threadData : Bool) (trace : List (WrapEvent F))
    (hcomplete : CompleteCalls trace) :
    ∃ final, FallibleRun.run WrapState.exec { gate, threadData } trace = .ok final ∧
      (NotSwitchedOff F final ↔
        ({ gate, threadData, measures := [] } : Watch).AllowsAll trace) := by
  obtain ⟨final, hrun, hframes⟩ := WrapState.run_complete hcomplete { gate, threadData }
  refine ⟨final, hrun, ?_⟩
  have hstart : WrapState.Watched { gate, threadData, measures := [] } { gate, threadData } :=
    ⟨rfl, rfl, rfl, rfl, by simp, List.Pairwise.nil⟩
  obtain ⟨hgood, hbad⟩ := hstart.run hrun
  constructor
  · intro hoff
    by_contra hnot
    have hmutex := (hbad hnot).mutex
    rw [hoff.mutex] at hmutex
    cases hmutex
  · intro hall
    obtain ⟨watch, hwatched⟩ := hgood hall
    apply WrapState.notSwitchedOff_of_mutex
    rw [hwatched.mutex_eq, ← hwatched.measures_eq, hframes]
    rfl

/-- A thread that has its record before its first call. -/
theorem not_switched_off_initialised :
    ∃ final, FallibleRun.run WrapState.exec {}
        ([.setGate 1, .setThreadData true, .enter "read" 100, .leave 200] :
          List (WrapEvent String)) = .ok final ∧ NotSwitchedOff String final := by
  obtain ⟨final, hrun, hiff⟩ := not_switched_off_iff 0 false
    ([.setGate 1, .setThreadData true, .enter "read" 100, .leave 200] : List (WrapEvent String))
    (.setGate 1 (.setThreadData true (.call "read" 100 200 .nil .nil)))
  exact ⟨final, hrun, hiff.mpr (by simp [Watch.AllowsAll, Watch.Allows, Watch.step])⟩

/-- **A call in the window of the start-up**, where the gate is open and the thread has
no record yet, keeps the mutex: a later call is not counted. -/
theorem switched_off_at_start :
    CompleteCalls ([.setGate 1, .enter "read" 100, .leave 200, .setThreadData true] :
        List (WrapEvent String)) ∧
      ∃ final, FallibleRun.run WrapState.exec {}
          ([.setGate 1, .enter "read" 100, .leave 200, .setThreadData true] :
            List (WrapEvent String)) = .ok final ∧ ¬ NotSwitchedOff String final := by
  refine ⟨.setGate 1 (.call "read" 100 200 .nil (.setThreadData true .nil)), ?_⟩
  refine ⟨_, rfl, fun hoff => ?_⟩
  have hmutex := hoff.mutex
  cases hmutex

end Papiex
