import Papiex.Lib.Moves
import Mathlib.Data.List.Basic
import Mathlib.Data.Bool.Basic

/-!
# The threads of a process under libmonitor

libmonitor stands between a program and the thread library.  It keeps a list of the
threads it has started, makes the callbacks `monitor_init_thread` and
`monitor_fini_thread` in each of them, and lets the first thread that calls `exit` shoot
the others down before it makes the callback `monitor_fini_process`.

Each thread is at a statement of libmonitor's code (`ThreadPc`), and may be interrupted
there by the handler of the shootdown signal.  Statements of different threads come in
any order.  What runs under the lock of the thread list is one statement, and so is a
read or a write of one of the `volatile` flags.

The callbacks of the client return.  A thread that is in `monitor_end_process_fcn` is not
made to call `exit` again by a handler of the application.

## Main results

* `monitorThreads`: the threads and their moves.
* `monitorStep_of_threadMove`: what a move can do.

## Design notes

What the system decides is in the move: which thread goes on, whether the signal is delivered
now, and whether the clock is past the timeout.  A thread that polls makes a move that leaves
it where it is.  What a move can do is a relation beside the function (`MonitorStep`,
`monitorStep_of_threadMove`), and the proofs go by its cases.  Each thread has a node and the
list is a list of threads; that the pointers hold it is in `Papiex.Monitor.ThreadNodes`.
-/

namespace Papiex

open Interleaving

/-- `struct monitor_thread_node`. -/
structure ThreadNode where
  tid : ℕ := 0
  applStarted : Bool := false
  finiStarted : Bool := false
  finiDone : Bool := false
  exitWin : Bool := false
  blockShootdown : Bool := false
  deriving DecidableEq

/-- Where a thread is in the code that makes its callback `monitor_fini_thread`. -/
inductive FiniPc where
  /-- `!tn_appl_started || tn_fini_started || tn_block_shootdown` is tested. -/
  | test
  /-- `monitor_fini_thread_done` is tested. -/
  | testDone
  /-- `tn_fini_started = 1`. -/
  | mark
  /-- The callback is made. -/
  | callback
  /-- The callback has returned: `tn_fini_done = 1`. -/
  | returns
  deriving DecidableEq

/-- The variables of the loop of `monitor_thread_shootdown`. -/
structure ShootdownPass where
  numStarted : ℕ := 0
  numUnstarted : ℕ := 0
  numUnfinished : ℕ := 0
  lastStarted : ℕ := 0
  myTn : Bool := false
  deriving DecidableEq

/-- Where a thread is in `monitor_end_process_fcn` and `monitor_thread_shootdown`. -/
inductive ExitPc (ι : Type*) where
  /-- `compare_and_swap (&monitor_end_process_cookie, 0, 1)`. -/
  | swapCookie
  /-- The callback `monitor_begin_process_exit`. -/
  | beginExit
  /-- `monitor_thread_shootdown` begins. -/
  | shootdown
  /-- A pass over the threads begins. -/
  | startPass (pass : ShootdownPass)
  /-- The pass is at this node, or at the end of the list. -/
  | walk (tn : Option ι) (pass : ShootdownPass)
  /-- The application of this node has started: read `tn_fini_started`. -/
  | readStarted (tn : ι) (pass : ShootdownPass)
  /-- Read `tn_fini_done`. -/
  | readDone (tn : ι) (pass : ShootdownPass)
  /-- All nodes have been looked at. -/
  | endPass (pass : ShootdownPass)
  /-- `monitor_fini_thread_done = 1`. -/
  | setFiniThreadDone (myTn : Bool)
  /-- `my_tn != NULL && !my_tn->tn_fini_started` is tested. -/
  | testOwn (myTn : Bool)
  /-- The callback `monitor_fini_thread` of this thread itself. -/
  | own (statement : FiniPc)
  /-- The callback `monitor_fini_process`. -/
  | finiProcess
  /-- `monitor_fini_process_done = 1`. -/
  | setProcessDone
  /-- The race is lost: poll `monitor_fini_process_done`. -/
  | awaitProcess
  /-- Back in the system's `exit`. -/
  | resumed
  deriving DecidableEq

/-- Where a thread is. -/
inductive ThreadPc (ι : Type*) where
  | absent
  /-- `monitor_begin_thread` polls `monitor_thread_support_done`. -/
  | awaitSupport
  /-- `monitor_link_thread_node`. -/
  | link
  /-- Not started because the process is exiting. -/
  | refused
  /-- The callback `monitor_init_thread`. -/
  | initThread
  /-- `tn_appl_started = 1`. -/
  | setApplStarted
  /-- The code of the application. -/
  | running
  /-- `monitor_pthread_cleanup_routine`. -/
  | cleanup (statement : FiniPc)
  /-- `monitor_unlink_thread_node`. -/
  | unlink
  /-- The thread has ended, and its node is in the list still. -/
  | ended
  /-- The thread has ended, and its node is free. -/
  | unlinked
  /-- The main thread before `main`, up to the callback `monitor_init_process`. -/
  | initProcess
  /-- `monitor_thread_release`. -/
  | release
  | exit (statement : ExitPc ι)
  deriving DecidableEq

/-- A thread: where it is, and where it is in `monitor_shootdown_handler` if it was
interrupted. -/
structure MonitorThread (ι : Type*) where
  pc : ThreadPc ι
  handler : Option FiniPc := none
  deriving DecidableEq

/-- The callbacks of the client, with the number of the thread. -/
inductive MonitorCallback (ι : Type*) where
  | initProcess
  | initThreadSupport
  | initThread (t : ι) (tid : ℕ)
  | finiThread (t : ι) (tid : ℕ)
  | beginProcessExit
  | finiProcess (t : ι) (tid : ℕ)
  deriving DecidableEq

/-- What the threads share.  `spawned` and `pending` are the system's: threads that were
created, and threads with the shootdown signal pending.  `callbacks` are the callbacks
made so far. -/
structure MonitorShared (ι : Type*) where
  hasUsedThreads : Bool := false
  hasReachedMain : Bool := false
  threadSupportDone : Bool := false
  inExitCleanup : Bool := false
  finiThreadDone : Bool := false
  endProcessCookie : Bool := false
  finiProcessDone : Bool := false
  threadNum : ℕ := 0
  threadList : List ι := []
  node : ι → ThreadNode := fun _ => {}
  spawned : ι → Bool := fun _ => false
  pending : ι → Bool := fun _ => false
  callbacks : List (MonitorCallback ι) := []

/-- What a thread may do next. -/
inductive ThreadMove (ι : Type*) where
  /-- The next statement.  At the end of a pass `late` says if the clock is past the
  timeout. -/
  | statement (late : Bool)
  /-- The shootdown signal interrupts the thread. -/
  | deliver
  /-- The application calls `pthread_create`. -/
  | create (child : ι)
  /-- The start routine returns, or calls `pthread_exit`, or is canceled. -/
  | finish
  /-- The application calls `exit`, or an `exec` function. -/
  | exit
  /-- The `exec` function that called `monitor_end_process_fcn` failed. -/
  | execFails
  /-- `monitor_block_shootdown` and `monitor_unblock_shootdown`. -/
  | block (on : Bool)
  deriving DecidableEq

/-- `LIST_NEXT`. -/
def listNext {ι : Type*} [DecidableEq ι] (threadList : List ι) (tn : ι) : Option ι :=
  (threadList.dropWhile (· ≠ tn)).tail.head?

section Statements

variable {ι : Type*} [DecidableEq ι]

namespace MonitorShared

/-- Make a callback. -/
def call (shared : MonitorShared ι) (callback : MonitorCallback ι) : MonitorShared ι :=
  { shared with callbacks := shared.callbacks ++ [callback] }

/-- Write the node of a thread. -/
def setNode (shared : MonitorShared ι) (t : ι) (tn : ThreadNode) : MonitorShared ι :=
  { shared with node := Function.update shared.node t tn }

/-- `pthread_kill`. -/
def kill (shared : MonitorShared ι) (t : ι) : MonitorShared ι :=
  { shared with pending := Function.update shared.pending t true }

/-- `monitor_call_thread_support`. -/
def callThreadSupport (shared : MonitorShared ι) : MonitorShared ι :=
  if shared.threadSupportDone then shared
  else { shared.call .initThreadSupport with threadSupportDone := true }

/-- `monitor_link_thread_node`, if the process is not exiting. -/
def link (shared : MonitorShared ι) (t : ι) : MonitorShared ι :=
  { shared with
    threadNum := shared.threadNum + 1
    threadList := t :: shared.threadList
    node := Function.update shared.node t { tid := shared.threadNum + 1 } }

/-- `monitor_unlink_thread_node`. -/
def unlink (shared : MonitorShared ι) (t : ι) : MonitorShared ι :=
  if shared.inExitCleanup then
    shared.setNode t { shared.node t with finiStarted := true, finiDone := true }
  else
    { shared.setNode t {} with threadList := shared.threadList.erase t }

/-- `pthread_create`, up to the real one. -/
def create (shared : MonitorShared ι) (child : ι) : MonitorShared ι :=
  let used : MonitorShared ι := { shared with hasUsedThreads := true }
  let ready := if used.hasReachedMain then used.callThreadSupport else used
  { ready with spawned := Function.update ready.spawned child true }

/-- `monitor_thread_release`. -/
def release (shared : MonitorShared ι) : MonitorShared ι :=
  let ready := if shared.hasUsedThreads then shared.callThreadSupport else shared
  { ready with hasReachedMain := true }

end MonitorShared

/-- A statement of the code that makes the callback `monitor_fini_thread`: the thread
goes to another statement of it, leaves it early, or gets to its end. -/
def finiStatement {α : Type*} (t : ι) (shared : MonitorShared ι) (go : FiniPc → α)
    (leave finish : α) : FiniPc → α × MonitorShared ι
  | .test =>
      if (shared.node t).applStarted = false ∨ (shared.node t).finiStarted = true ∨
          (shared.node t).blockShootdown = true then (leave, shared)
      else (go .testDone, shared)
  | .testDone => if shared.finiThreadDone then (leave, shared) else (go .mark, shared)
  | .mark => (go .callback, shared.setNode t { shared.node t with finiStarted := true })
  | .callback => (go .returns, shared.call (.finiThread t (shared.node t).tid))
  | .returns => (finish, shared.setNode t { shared.node t with finiDone := true })

/-- A statement of `monitor_end_process_fcn` and `monitor_thread_shootdown`. -/
def exitStatement (t : ι) (late : Bool) (shared : MonitorShared ι) :
    ExitPc ι → Option (ExitPc ι × MonitorShared ι)
  | .swapCookie =>
      if shared.endProcessCookie = false then
        some (.beginExit, { shared.setNode t { shared.node t with exitWin := true } with
          endProcessCookie := true })
      else if (shared.node t).exitWin then some (.setProcessDone, shared)
      else some (.awaitProcess, shared)
  | .beginExit => some (.shootdown, shared.call .beginProcessExit)
  | .shootdown =>
      if shared.hasUsedThreads then some (.startPass {}, { shared with inExitCleanup := true })
      else some (.finiProcess, shared)
  | .startPass pass =>
      some (.walk shared.threadList.head?
        { lastStarted := pass.lastStarted, myTn := pass.myTn }, shared)
  | .walk none pass => some (.endPass pass, shared)
  | .walk (some tn) pass =>
      if tn = t then
        some (.walk (listNext shared.threadList tn) { pass with myTn := true }, shared)
      else if (shared.node tn).applStarted then some (.readStarted tn pass, shared)
      else some (.walk (listNext shared.threadList tn) pass, shared)
  | .readStarted tn pass =>
      if (shared.node tn).finiStarted then
        some (.readDone tn { pass with numStarted := pass.numStarted + 1 }, shared)
      else
        some (.readDone tn { pass with numUnstarted := pass.numUnstarted + 1 }, shared.kill tn)
  | .readDone tn pass =>
      some (.walk (listNext shared.threadList tn)
        (if (shared.node tn).finiDone then pass
        else { pass with numUnfinished := pass.numUnfinished + 1 }), shared)
  | .endPass pass =>
      if pass.numUnfinished = 0 then some (.setFiniThreadDone pass.myTn, shared)
      else if pass.lastStarted < pass.numStarted then
        some (.startPass { pass with lastStarted := pass.numStarted }, shared)
      else if late ∧ 0 < pass.numUnstarted then some (.setFiniThreadDone pass.myTn, shared)
      else some (.startPass pass, shared)
  | .setFiniThreadDone myTn => some (.testOwn myTn, { shared with finiThreadDone := true })
  | .testOwn myTn =>
      if myTn = true ∧ (shared.node t).finiStarted = false then some (.own .mark, shared)
      else some (.finiProcess, shared)
  | .own statement => some (finiStatement t shared .own .finiProcess .finiProcess statement)
  | .finiProcess => some (.setProcessDone, shared.call (.finiProcess t (shared.node t).tid))
  | .setProcessDone => some (.resumed, { shared with finiProcessDone := true })
  | .awaitProcess =>
      if shared.finiProcessDone then some (.setProcessDone, shared)
      else some (.awaitProcess, shared)
  | .resumed => none

/-- A statement of a thread that is not in the handler. -/
def threadStatement (t : ι) (late : Bool) (shared : MonitorShared ι) :
    ThreadPc ι → Option (ThreadPc ι × MonitorShared ι)
  | .absent => if shared.spawned t then some (.awaitSupport, shared) else none
  | .awaitSupport =>
      if shared.threadSupportDone then some (.link, shared) else some (.awaitSupport, shared)
  | .link =>
      if shared.inExitCleanup then some (.refused, shared)
      else some (.initThread, shared.link t)
  | .refused => none
  | .initThread => some (.setApplStarted, shared.call (.initThread t (shared.node t).tid))
  | .setApplStarted =>
      some (.running, shared.setNode t { shared.node t with applStarted := true })
  | .running => none
  | .cleanup statement => some (finiStatement t shared .cleanup .ended .unlink statement)
  | .unlink => some (if shared.inExitCleanup then .ended else .unlinked, shared.unlink t)
  | .ended => none
  | .unlinked => none
  | .initProcess => some (.release, shared.call .initProcess)
  | .release => some (.running, shared.release)
  | .exit statement => (exitStatement t late shared statement).map (Prod.map .exit id)

/-- The thread exists and has not ended. -/
def ThreadPc.Alive : ThreadPc ι → Prop
  | .absent | .refused | .ended | .unlinked => False
  | _ => True

instance : DecidablePred (ThreadPc.Alive (ι := ι)) := fun pc => by
  cases pc <;> unfold ThreadPc.Alive <;> infer_instance

/-- The move of a thread. -/
def threadMove (main t : ι) (move : ThreadMove ι) (me : MonitorThread ι)
    (shared : MonitorShared ι) : Option (MonitorThread ι × MonitorShared ι) :=
  match move, me.handler with
  | .statement _, some statement =>
      some (finiStatement t shared (fun next => { me with handler := some next })
        { me with handler := none } { me with handler := none } statement)
  | .statement late, none =>
      (threadStatement t late shared me.pc).map (Prod.map (fun pc => { me with pc := pc }) id)
  | .deliver, none =>
      if me.pc.Alive ∧ shared.pending t = true then
        some ({ me with handler := some .test },
          { shared with pending := Function.update shared.pending t false })
      else none
  | .create child, none =>
      if (me.pc = .running ∨ me.pc = .initProcess) ∧ shared.spawned child = false ∧
          child ≠ main then some (me, shared.create child)
      else none
  | .finish, none =>
      if me.pc = .running ∧ t ≠ main then some ({ me with pc := .cleanup .test }, shared)
      else none
  | .exit, none =>
      if me.pc = .running ∨ me.pc = .exit .resumed then
        some ({ me with pc := .exit .swapCookie }, shared)
      else none
  | .execFails, none =>
      if me.pc = .exit .resumed then some ({ me with pc := .running }, shared) else none
  | .block on, none =>
      if me.pc = .running then
        some (me, shared.setNode t { shared.node t with blockShootdown := on })
      else none
  | _, some _ => none

/-- The threads of the process. -/
def monitorThreads (main : ι) : Choices ι (ThreadMove ι) (MonitorThread ι) (MonitorShared ι) where
  act := threadMove main

/-- The state before `main`. -/
def monitorInitial (main : ι) : State ι (MonitorThread ι) (MonitorShared ι) where
  locals t := { pc := if t = main then .initProcess else .absent }
  shared := {}

/-! ## What one statement does -/

/-- What a statement of the code around `monitor_fini_thread` does. -/
inductive FiniStep {α : Type*} (t : ι) (shared : MonitorShared ι) (go : FiniPc → α)
    (leave finish : α) : FiniPc → α → MonitorShared ι → Prop
  | skips (hskip : (shared.node t).applStarted = false ∨ (shared.node t).finiStarted = true ∨
      (shared.node t).blockShootdown = true) :
      FiniStep t shared go leave finish .test leave shared
  | passes (happl : (shared.node t).applStarted = true)
      (hfini : (shared.node t).finiStarted = false) :
      FiniStep t shared go leave finish .test (go .testDone) shared
  | tooLate (hdone : shared.finiThreadDone = true) :
      FiniStep t shared go leave finish .testDone leave shared
  | inTime (hdone : shared.finiThreadDone = false) :
      FiniStep t shared go leave finish .testDone (go .mark) shared
  | marks :
      FiniStep t shared go leave finish .mark (go .callback)
        (shared.setNode t { shared.node t with finiStarted := true })
  | calls :
      FiniStep t shared go leave finish .callback (go .returns)
        (shared.call (.finiThread t (shared.node t).tid))
  | returns :
      FiniStep t shared go leave finish .returns finish
        (shared.setNode t { shared.node t with finiDone := true })

theorem finiStep_of_finiStatement {α : Type*} {t : ι} {shared after : MonitorShared ι}
    {go : FiniPc → α} {leave finish next : α} {statement : FiniPc}
    (h : finiStatement t shared go leave finish statement = (next, after)) :
    FiniStep t shared go leave finish statement next after := by
  cases statement with
  | test =>
      simp only [finiStatement] at h
      split at h
      · rename_i hskip
        cases h
        exact .skips hskip
      · rename_i hpass
        cases h
        simp only [not_or, Bool.not_eq_false, Bool.not_eq_true] at hpass
        exact .passes hpass.1 hpass.2.1
  | testDone =>
      simp only [finiStatement] at h
      split at h
      · rename_i hdone
        cases h
        exact .tooLate hdone
      · rename_i hdone
        cases h
        exact .inTime (Bool.eq_false_of_not_eq_true hdone)
  | mark =>
      cases h
      exact .marks
  | callback =>
      cases h
      exact .calls
  | returns =>
      cases h
      exact .returns

/-- What a statement of `monitor_end_process_fcn` does. -/
inductive ExitStep (t : ι) (late : Bool) (shared : MonitorShared ι) :
    ExitPc ι → ExitPc ι → MonitorShared ι → Prop
  | winsRace (hcookie : shared.endProcessCookie = false) :
      ExitStep t late shared .swapCookie .beginExit
        { shared.setNode t { shared.node t with exitWin := true } with
          endProcessCookie := true }
  | restarts (hcookie : shared.endProcessCookie = true)
      (hwin : (shared.node t).exitWin = true) :
      ExitStep t late shared .swapCookie .setProcessDone shared
  | losesRace (hcookie : shared.endProcessCookie = true) :
      ExitStep t late shared .swapCookie .awaitProcess shared
  | begins : ExitStep t late shared .beginExit .shootdown (shared.call .beginProcessExit)
  | cleansUp (hused : shared.hasUsedThreads = true) :
      ExitStep t late shared .shootdown (.startPass {}) { shared with inExitCleanup := true }
  | noThreads (hused : shared.hasUsedThreads = false) :
      ExitStep t late shared .shootdown .finiProcess shared
  | startsPass (pass : ShootdownPass) :
      ExitStep t late shared (.startPass pass)
        (.walk shared.threadList.head? { lastStarted := pass.lastStarted, myTn := pass.myTn })
        shared
  | endsPass (pass : ShootdownPass) :
      ExitStep t late shared (.walk none pass) (.endPass pass) shared
  | meetsItself (pass : ShootdownPass) :
      ExitStep t late shared (.walk (some t) pass)
        (.walk (listNext shared.threadList t) { pass with myTn := true }) shared
  | looksAt (tn : ι) (pass : ShootdownPass) (hne : tn ≠ t)
      (happl : (shared.node tn).applStarted = true) :
      ExitStep t late shared (.walk (some tn) pass) (.readStarted tn pass) shared
  | passesBy (tn : ι) (pass : ShootdownPass) (hne : tn ≠ t)
      (happl : (shared.node tn).applStarted = false) :
      ExitStep t late shared (.walk (some tn) pass) (.walk (listNext shared.threadList tn) pass)
        shared
  | countsStarted (tn : ι) (pass : ShootdownPass) (hfini : (shared.node tn).finiStarted = true) :
      ExitStep t late shared (.readStarted tn pass)
        (.readDone tn { pass with numStarted := pass.numStarted + 1 }) shared
  | kills (tn : ι) (pass : ShootdownPass) (hfini : (shared.node tn).finiStarted = false) :
      ExitStep t late shared (.readStarted tn pass)
        (.readDone tn { pass with numUnstarted := pass.numUnstarted + 1 }) (shared.kill tn)
  | countsFinished (tn : ι) (pass : ShootdownPass) (hdone : (shared.node tn).finiDone = true) :
      ExitStep t late shared (.readDone tn pass) (.walk (listNext shared.threadList tn) pass) shared
  | countsUnfinished (tn : ι) (pass : ShootdownPass)
      (hdone : (shared.node tn).finiDone = false) :
      ExitStep t late shared (.readDone tn pass)
        (.walk (listNext shared.threadList tn)
          { pass with numUnfinished := pass.numUnfinished + 1 }) shared
  | allFinished (pass : ShootdownPass) (hnone : pass.numUnfinished = 0) :
      ExitStep t late shared (.endPass pass) (.setFiniThreadDone pass.myTn) shared
  | progress (pass : ShootdownPass) (hsome : pass.numUnfinished ≠ 0) :
      ExitStep t late shared (.endPass pass)
        (.startPass { pass with lastStarted := pass.numStarted }) shared
  | givesUp (pass : ShootdownPass) (hsome : pass.numUnfinished ≠ 0)
      (hstuck : ¬ pass.lastStarted < pass.numStarted) (hlate : late = true)
      (hunstarted : 0 < pass.numUnstarted) :
      ExitStep t late shared (.endPass pass) (.setFiniThreadDone pass.myTn) shared
  | again (pass : ShootdownPass) (hsome : pass.numUnfinished ≠ 0) :
      ExitStep t late shared (.endPass pass) (.startPass pass) shared
  | stopsCallbacks (myTn : Bool) :
      ExitStep t late shared (.setFiniThreadDone myTn) (.testOwn myTn)
        { shared with finiThreadDone := true }
  | ownLeft (hfini : (shared.node t).finiStarted = false) :
      ExitStep t late shared (.testOwn true) (.own .mark) shared
  | noneLeft (myTn : Bool) (hfini : myTn = true → (shared.node t).finiStarted = true) :
      ExitStep t late shared (.testOwn myTn) .finiProcess shared
  | own {statement : FiniPc} {next : ExitPc ι} {after : MonitorShared ι}
      (hfini : FiniStep t shared .own .finiProcess .finiProcess statement next after) :
      ExitStep t late shared (.own statement) next after
  | callsFiniProcess :
      ExitStep t late shared .finiProcess .setProcessDone
        (shared.call (.finiProcess t (shared.node t).tid))
  | setsProcessDone :
      ExitStep t late shared .setProcessDone .resumed { shared with finiProcessDone := true }
  | released (hdone : shared.finiProcessDone = true) :
      ExitStep t late shared .awaitProcess .setProcessDone shared
  | polls : ExitStep t late shared .awaitProcess .awaitProcess shared

theorem exitStep_of_exitStatement {t : ι} {late : Bool} {shared after : MonitorShared ι}
    {statement next : ExitPc ι}
    (h : exitStatement t late shared statement = some (next, after)) :
    ExitStep t late shared statement next after := by
  cases statement with
  | swapCookie =>
      simp only [exitStatement] at h
      split at h
      · rename_i hcookie
        cases h
        exact .winsRace hcookie
      · rename_i hcookie
        have hcookie := (Bool.not_eq_false _).mp hcookie
        split at h
        · rename_i hwin
          cases h
          exact .restarts hcookie hwin
        · cases h
          exact .losesRace hcookie
  | beginExit =>
      cases h
      exact .begins
  | shootdown =>
      simp only [exitStatement] at h
      split at h
      · rename_i hused
        cases h
        exact .cleansUp hused
      · rename_i hused
        cases h
        exact .noThreads (Bool.eq_false_of_not_eq_true hused)
  | startPass pass =>
      cases h
      exact .startsPass pass
  | walk tn pass =>
      cases tn with
      | none =>
          cases h
          exact .endsPass pass
      | some tn =>
          simp only [exitStatement] at h
          split at h
          · rename_i hself
            subst hself
            cases h
            exact .meetsItself pass
          · rename_i hne
            split at h
            · rename_i happl
              cases h
              exact .looksAt tn pass hne happl
            · rename_i happl
              cases h
              exact .passesBy tn pass hne (Bool.eq_false_of_not_eq_true happl)
  | readStarted tn pass =>
      simp only [exitStatement] at h
      split at h
      · rename_i hfini
        cases h
        exact .countsStarted tn pass hfini
      · rename_i hfini
        cases h
        exact .kills tn pass (Bool.eq_false_of_not_eq_true hfini)
  | readDone tn pass =>
      simp only [exitStatement, Option.some.injEq, Prod.mk.injEq] at h
      obtain ⟨rfl, rfl⟩ := h
      split
      · rename_i hdone
        exact .countsFinished tn pass hdone
      · rename_i hdone
        exact .countsUnfinished tn pass (Bool.eq_false_of_not_eq_true hdone)
  | endPass pass =>
      simp only [exitStatement] at h
      split at h
      · rename_i hnone
        cases h
        exact .allFinished pass hnone
      · rename_i hsome
        split at h
        · cases h
          exact .progress pass hsome
        · rename_i hstuck
          split at h
          · rename_i hlate
            cases h
            exact .givesUp pass hsome hstuck hlate.1 hlate.2
          · cases h
            exact .again pass hsome
  | setFiniThreadDone myTn =>
      cases h
      exact .stopsCallbacks myTn
  | testOwn myTn =>
      simp only [exitStatement] at h
      split at h
      · rename_i hown
        obtain ⟨rfl, hfini⟩ := hown
        cases h
        exact .ownLeft hfini
      · rename_i hown
        cases h
        exact .noneLeft myTn fun hmy => (Bool.not_eq_false _).mp fun hfini => hown ⟨hmy, hfini⟩
  | own statement =>
      exact .own (finiStep_of_finiStatement (Option.some.inj h))
  | finiProcess =>
      cases h
      exact .callsFiniProcess
  | setProcessDone =>
      cases h
      exact .setsProcessDone
  | awaitProcess =>
      simp only [exitStatement] at h
      split at h
      · rename_i hdone
        cases h
        exact .released hdone
      · cases h
        exact .polls
  | resumed => cases h

/-- What a statement of a thread does that is not in the handler. -/
inductive ThreadStep (t : ι) (late : Bool) (shared : MonitorShared ι) :
    ThreadPc ι → ThreadPc ι → MonitorShared ι → Prop
  | starts (hspawned : shared.spawned t = true) :
      ThreadStep t late shared .absent .awaitSupport shared
  | supported (hdone : shared.threadSupportDone = true) :
      ThreadStep t late shared .awaitSupport .link shared
  | polls : ThreadStep t late shared .awaitSupport .awaitSupport shared
  | refused (hexit : shared.inExitCleanup = true) : ThreadStep t late shared .link .refused shared
  | links (hexit : shared.inExitCleanup = false) :
      ThreadStep t late shared .link .initThread (shared.link t)
  | callsInit :
      ThreadStep t late shared .initThread .setApplStarted
        (shared.call (.initThread t (shared.node t).tid))
  | setsApplStarted :
      ThreadStep t late shared .setApplStarted .running
        (shared.setNode t { shared.node t with applStarted := true })
  | cleanup {statement : FiniPc} {next : ThreadPc ι} {after : MonitorShared ι}
      (hfini : FiniStep t shared .cleanup .ended .unlink statement next after) :
      ThreadStep t late shared (.cleanup statement) next after
  | marksEnded (hexit : shared.inExitCleanup = true) :
      ThreadStep t late shared .unlink .ended
        (shared.setNode t { shared.node t with finiStarted := true, finiDone := true })
  | unlinks (hexit : shared.inExitCleanup = false) :
      ThreadStep t late shared .unlink .unlinked
        { shared.setNode t {} with threadList := shared.threadList.erase t }
  | callsInitProcess : ThreadStep t late shared .initProcess .release (shared.call .initProcess)
  | releases : ThreadStep t late shared .release .running shared.release
  | exits {statement next : ExitPc ι} {after : MonitorShared ι}
      (hexit : ExitStep t late shared statement next after) :
      ThreadStep t late shared (.exit statement) (.exit next) after

theorem threadStep_of_threadStatement {t : ι} {late : Bool} {shared after : MonitorShared ι}
    {pc next : ThreadPc ι} (h : threadStatement t late shared pc = some (next, after)) :
    ThreadStep t late shared pc next after := by
  cases pc with
  | absent =>
      simp only [threadStatement] at h
      split at h
      · rename_i hspawned
        cases h
        exact .starts hspawned
      · cases h
  | awaitSupport =>
      simp only [threadStatement] at h
      split at h
      · rename_i hdone
        cases h
        exact .supported hdone
      · cases h
        exact .polls
  | link =>
      simp only [threadStatement] at h
      split at h
      · rename_i hexit
        cases h
        exact .refused hexit
      · rename_i hexit
        cases h
        exact .links (Bool.eq_false_of_not_eq_true hexit)
  | initThread =>
      cases h
      exact .callsInit
  | setApplStarted =>
      cases h
      exact .setsApplStarted
  | cleanup statement =>
      exact .cleanup (finiStep_of_finiStatement (Option.some.inj h))
  | unlink =>
      simp only [threadStatement, MonitorShared.unlink, Option.some.injEq, Prod.mk.injEq] at h
      obtain ⟨rfl, rfl⟩ := h
      cases hexit : shared.inExitCleanup with
      | true => exact .marksEnded hexit
      | false => exact .unlinks hexit
  | initProcess =>
      cases h
      exact .callsInitProcess
  | release =>
      cases h
      exact .releases
  | exit statement =>
      simp only [threadStatement, Option.map_eq_some_iff] at h
      obtain ⟨⟨next', after'⟩, hstatement, heq⟩ := h
      cases heq
      exact .exits (exitStep_of_exitStatement hstatement)
  | refused | running | ended | unlinked => cases h

/-- What a move of a thread does. -/
inductive MonitorStep (main t : ι) (me : MonitorThread ι) (shared : MonitorShared ι) :
    ThreadMove ι → MonitorThread ι → MonitorShared ι → Prop
  | handler {late : Bool} {statement : FiniPc} {next : MonitorThread ι}
      {after : MonitorShared ι} (hhandler : me.handler = some statement)
      (hfini : FiniStep t shared (fun next => { me with handler := some next })
        { me with handler := none } { me with handler := none } statement next after) :
      MonitorStep main t me shared (.statement late) next after
  | statement {late : Bool} {next : ThreadPc ι} {after : MonitorShared ι}
      (hhandler : me.handler = none) (hpc : ThreadStep t late shared me.pc next after) :
      MonitorStep main t me shared (.statement late) { pc := next } after
  | delivers (hhandler : me.handler = none) (halive : me.pc.Alive)
      (hpending : shared.pending t = true) :
      MonitorStep main t me shared .deliver { me with handler := some .test }
        { shared with pending := Function.update shared.pending t false }
  | creates {child : ι} (hhandler : me.handler = none)
      (hpc : me.pc = .running ∨ me.pc = .initProcess)
      (hfresh : shared.spawned child = false) (hmain : child ≠ main) :
      MonitorStep main t me shared (.create child) me (shared.create child)
  | finishes (hhandler : me.handler = none) (hpc : me.pc = .running) (hmain : t ≠ main) :
      MonitorStep main t me shared .finish { pc := .cleanup .test } shared
  | exits (hhandler : me.handler = none) (hpc : me.pc = .running ∨ me.pc = .exit .resumed) :
      MonitorStep main t me shared .exit { pc := .exit .swapCookie } shared
  | execFails (hhandler : me.handler = none) (hpc : me.pc = .exit .resumed) :
      MonitorStep main t me shared .execFails { pc := .running } shared
  | blocks {on : Bool} (hhandler : me.handler = none) (hpc : me.pc = .running) :
      MonitorStep main t me shared (.block on) me
        (shared.setNode t { shared.node t with blockShootdown := on })

/-- **One move of a thread.** -/
theorem monitorStep_of_threadMove {main t : ι} {move : ThreadMove ι} {me next : MonitorThread ι}
    {shared after : MonitorShared ι}
    (h : threadMove main t move me shared = some (next, after)) :
    MonitorStep main t me shared move next after := by
  cases hhandler : me.handler with
  | some statement =>
      cases move with
      | statement late =>
          simp only [threadMove, hhandler, Option.some.injEq] at h
          exact .handler hhandler (finiStep_of_finiStatement h)
      | _ => simp [threadMove, hhandler] at h
  | none =>
      cases move with
      | statement late =>
          simp only [threadMove, hhandler, Option.map_eq_some_iff] at h
          obtain ⟨⟨pc, after'⟩, hpc, heq⟩ := h
          cases heq
          exact .statement hhandler (threadStep_of_threadStatement hpc)
      | deliver =>
          simp only [threadMove, hhandler, Option.ite_none_right_eq_some, Option.some.injEq] at h
          obtain ⟨⟨halive, hpending⟩, heq⟩ := h
          cases heq
          exact .delivers hhandler halive hpending
      | create child =>
          simp only [threadMove, hhandler, Option.ite_none_right_eq_some, Option.some.injEq] at h
          obtain ⟨⟨hpc, hfresh, hmain⟩, heq⟩ := h
          cases heq
          exact .creates hhandler hpc hfresh hmain
      | finish =>
          simp only [threadMove, hhandler, Option.ite_none_right_eq_some, Option.some.injEq] at h
          obtain ⟨⟨hpc, hmain⟩, heq⟩ := h
          cases heq
          exact .finishes hhandler hpc hmain
      | exit =>
          simp only [threadMove, hhandler, Option.ite_none_right_eq_some, Option.some.injEq] at h
          obtain ⟨hpc, heq⟩ := h
          cases heq
          exact .exits hhandler hpc
      | execFails =>
          simp only [threadMove, hhandler, Option.ite_none_right_eq_some, Option.some.injEq] at h
          obtain ⟨hpc, heq⟩ := h
          cases heq
          exact .execFails hhandler hpc
      | block on =>
          simp only [threadMove, hhandler, Option.ite_none_right_eq_some, Option.some.injEq] at h
          obtain ⟨hpc, heq⟩ := h
          cases heq
          exact .blocks hhandler hpc

end Statements

end Papiex
