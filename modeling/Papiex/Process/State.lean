import Papiex.Caliper.Api

/-!
# The state of a process

The globals of `papiex.c` that thread and process initialisation and shutdown
read and write, the thread records they allocate, and the callbacks libmonitor
makes.  Threads are named by the number `monitor_get_thread_num` gives them;
records are named by the order of their allocation, and none is ever freed.

Every call into PAPI that reports success or failure is taken to succeed.

## Main results

* `papiexThreadInitRoutine`, `papiexThreadShutdownRoutine`, `papiexProcessShutdownRoutine`: the
  routines that the callbacks run.

## Design notes

A record is allocated once for each thread initialisation and stays where it is, so the heap
is a function of the number of the allocation.  The table of threads is a list of numbers and
references; the arrays it lies in are in `Papiex.Process.Registry`.
-/

namespace Papiex

/-- `PAPIEX_INIT_THREADS`. -/
def papiexInitThreads : ℕ := 256

/-- What a callback takes from outside the process state. -/
structure CallbackIo where
  sampling : Sampling
  time : ℤ
  fpOps : Bool
  fpIns : Bool

/-- The globals of the library in one process, the `__thread` variable
`thread_data` of each of its threads, and the records in its memory.
`printed` is the output: one entry for each run of `print_process_stats`, with
the records it went through. -/
structure Process where
  cfg : Config
  heap : ℕ → PerthreadData := fun _ => {}
  heapEnd : ℕ := 0
  allThreads : List (ℕ × ℕ) := []
  allThreadsSize : ℕ := papiexInitThreads
  threadData : ℕ → Option ℕ := fun _ => none
  papiexThreaded : Bool := false
  calledProcessShutdown : Bool := false
  printed : List (List PerthreadData) := []

namespace Process

/-- `get_thread_data` in a thread. -/
def getThreadData (proc : Process) (tid : ℕ) : Option PerthreadData :=
  (proc.threadData tid).map proc.heap

/-- Overwrite a record in memory. -/
def setRecord (proc : Process) (ref : ℕ) (record : PerthreadData) : Process :=
  { proc with heap := Function.update proc.heap ref record }

/-- The caliper routines update the record of their thread in place. -/
def putThreadData (proc : Process) (tid : ℕ) (record : Option PerthreadData) : Process :=
  match proc.threadData tid, record with
  | some ref, some record => proc.setRecord ref record
  | _, _ => proc

/-- A thread makes a call of the caliper interface. -/
def call (proc : Process) (tid : ℕ) (call : Call) : Except LibpapiexError Process :=
  match call.exec proc.cfg (proc.getThreadData tid) with
  | .error stop => .error stop
  | .ok record => .ok (proc.putThreadData tid record)

/-- Enter a thread in `all_threads`, doubling the arrays when the next entry
would fill them. -/
def registerThread (proc : Process) (tid ref : ℕ) : Process :=
  { proc with
    allThreads := proc.allThreads ++ [(tid, ref)]
    allThreadsSize :=
      if proc.allThreadsSize ≤ proc.allThreads.length + 1 then proc.allThreadsSize * 2
      else proc.allThreadsSize }

/-- `papiex_thread_init_routine`. -/
def papiexThreadInitRoutine (proc : Process) (tid : ℕ) (io : CallbackIo) :
    Except LibpapiexError Process :=
  let ref := proc.heapEnd
  let allocated : Process :=
    { proc with
      cfg := proc.cfg.withDefaultEvents io.fpOps io.fpIns
      heap := Function.update proc.heap ref { stamp := io.time }
      heapEnd := ref + 1
      threadData := Function.update proc.threadData tid (some ref) }
  (allocated.registerThread tid ref).call tid (.start 0 (some []) io.sampling)

/-- `papiex_thread_shutdown_routine`. -/
def papiexThreadShutdownRoutine (proc : Process) (tid : ℕ) (io : CallbackIo) :
    Except LibpapiexError Process :=
  match proc.call tid (.stop 0 io.sampling) with
  | .error stop => .error stop
  | .ok stopped =>
      match stopped.getThreadData tid with
      | none => .error .nullThreadData
      | some thread => .ok (stopped.putThreadData tid (some { thread with finish := io.time }))

/-- `init_process_globals`.  The table of threads is not among them. -/
def initProcessGlobals (proc : Process) : Process :=
  { proc with calledProcessShutdown := false }

/-- `init_library_globals`, for these settings of the option string. -/
def initLibraryGlobals (cfg : Config) : Process := initProcessGlobals { cfg }

/-- `monitor_init_process`. -/
def monitorInitProcess (proc : Process) (tid : ℕ) (io : CallbackIo) :
    Except LibpapiexError Process :=
  proc.initProcessGlobals.papiexThreadInitRoutine tid io

/-- The records `print_process_stats` goes through. -/
def tableRecords (proc : Process) : List PerthreadData :=
  proc.allThreads.map fun entry => proc.heap entry.2

/-- `papiex_process_shutdown_routine`, up to and including `print_process_stats`. -/
def papiexProcessShutdownRoutine (proc : Process) (tid : ℕ) (io : CallbackIo) :
    Except LibpapiexError Process :=
  if proc.calledProcessShutdown then .ok proc
  else
    match { proc with calledProcessShutdown := true }.papiexThreadShutdownRoutine tid io with
    | .error stop => .error stop
    | .ok stopped => .ok { stopped with printed := stopped.printed ++ [stopped.tableRecords] }

end Process

/-- The callbacks of libmonitor, each with the thread it is made in. -/
inductive Callback where
  | initProcess (tid : ℕ) (io : CallbackIo)
  | initThreadSupport
  | initThread (tid : ℕ) (io : CallbackIo)
  | finiThread (tid : ℕ) (io : CallbackIo)
  | finiProcess (tid : ℕ) (io : CallbackIo)

/-- Execute a callback. -/
def Callback.exec (proc : Process) : Callback → Except LibpapiexError Process
  | .initProcess tid io => proc.monitorInitProcess tid io
  | .initThreadSupport => .ok { proc with papiexThreaded := true }
  | .initThread tid io => proc.papiexThreadInitRoutine tid io
  | .finiThread tid io => proc.papiexThreadShutdownRoutine tid io
  | .finiProcess tid io => proc.papiexProcessShutdownRoutine tid io

/-! ## What thread initialisation does -/

namespace Process

variable (proc : Process) (tid : ℕ) (io : CallbackIo)

/-- The state after a thread initialisation, which cannot fail. -/
def threadInitialised : Process :=
  { proc with
    cfg := proc.cfg.withDefaultEvents io.fpOps io.fpIns
    heap := Function.update proc.heap proc.heapEnd
      (.initialised (proc.cfg.withDefaultEvents io.fpOps io.fpIns) io.time io.sampling)
    heapEnd := proc.heapEnd + 1
    allThreads := proc.allThreads ++ [(tid, proc.heapEnd)]
    allThreadsSize :=
      if proc.allThreadsSize ≤ proc.allThreads.length + 1 then proc.allThreadsSize * 2
      else proc.allThreadsSize
    threadData := Function.update proc.threadData tid (some proc.heapEnd) }

/-- **A thread initialisation registers a fresh record with point 0 started.** -/
theorem papiexThreadInitRoutine_eq :
    proc.papiexThreadInitRoutine tid io = .ok (proc.threadInitialised tid io) := by
  have hev := (Config.eventcnt_withDefaultEvents_pos io.fpOps io.fpIns proc.cfg).ne'
  have hstart := PerthreadData.papiexStart_initialised _ io.time io.sampling hev
  unfold papiexThreadInitRoutine call
  simp only [registerThread, getThreadData, Call.exec, Function.update_self, Option.map_some]
  rw [hstart]
  simp only [putThreadData, setRecord, Function.update_self, Function.update_idem]
  rfl

/-! ## What thread shutdown does -/

/-- The record of a thread after its shutdown. -/
def shutDown (cfg : Config) (thread : PerthreadData) (io : CallbackIo) : PerthreadData :=
  { thread.stopPoint cfg 0 io.sampling with finish := io.time }

variable {proc tid io}

/-- Shutdown of a thread whose point 0 is open stops it and stamps the record. -/
theorem papiexThreadShutdownRoutine_of_open (hev : proc.cfg.eventcnt ≠ 0) {ref : ℕ}
    (href : proc.threadData tid = some ref)
    (hroom : 0 < (proc.heap ref).maxCaliperEntries)
    (hopen : ((proc.heap ref).data 0).depth ≠ 0) :
    proc.papiexThreadShutdownRoutine tid io =
      .ok (proc.setRecord ref (shutDown proc.cfg (proc.heap ref) io)) := by
  have hstop : papiexStop proc.cfg (some (proc.heap ref)) (0 : ℕ) io.sampling =
      .ok (some ((proc.heap ref).stopPoint proc.cfg 0 io.sampling)) :=
    papiexStop_of_open hev hroom hopen
  unfold papiexThreadShutdownRoutine call
  simp only [getThreadData, href, Option.map_some, Call.exec]
  rw [show (0 : ℤ) = ((0 : ℕ) : ℤ) from rfl, hstop]
  simp [putThreadData, setRecord, href, shutDown]

/-- Shutdown of a thread whose point 0 is closed is fatal. -/
theorem papiexThreadShutdownRoutine_of_closed (hev : proc.cfg.eventcnt ≠ 0) {ref : ℕ}
    (href : proc.threadData tid = some ref)
    (hroom : 0 < (proc.heap ref).maxCaliperEntries)
    (hclosed : ((proc.heap ref).data 0).depth = 0) :
    proc.papiexThreadShutdownRoutine tid io = .error (.pointNotInUse 0) := by
  have hstop : papiexStop proc.cfg (some (proc.heap ref)) (0 : ℕ) io.sampling =
      .error (.pointNotInUse (0 : ℕ)) := papiexStop_of_closed hev hroom hclosed
  unfold papiexThreadShutdownRoutine call
  simp only [getThreadData, href, Option.map_some, Call.exec]
  rw [show (0 : ℤ) = ((0 : ℕ) : ℤ) from rfl, hstop]

end Process

end Papiex
