import Papiex.Process.State
import Papiex.Lib.FallibleRun

/-!
# Process shutdown

`papiex_process_shutdown_routine` says that only the main thread comes to it,
and stops "this thread" by running the thread shutdown itself.  libmonitor runs
it in whichever thread called `exit`, after every created thread has had its own
shutdown.  A history is abstracted to the phase each thread is in (`Phase`);
the process tracks the phases through any lawful history (`Tracks`), and what
the final shutdown does is read off the phase of the exiting thread.

## Main results

* `Tracks.exec`: a callback keeps the table in step with the phases.
* `process_shutdown_iff`: a process shuts down cleanly exactly if its main thread exits.

## Design notes

The contract is a condition on the list of callbacks, one thread at a time: a thread has
none, or one initialisation and later one shutdown.  So the callbacks of different threads
may be mixed in any order.  The record of a thread is followed by its phase, and the table
by the threads that have left the first phase; the induction is on the history.
-/

namespace Papiex

/-! ## Histories -/

/-- The callback is made for this thread. -/
def Callback.IsAbout (t : ℕ) : Callback → Bool
  | .initProcess tid _ => tid = t
  | .initThreadSupport => false
  | .initThread tid _ => tid = t
  | .finiThread tid _ => tid = t
  | .finiProcess tid _ => tid = t

/-- The contract of libmonitor for the callbacks between process start and
process end.  A thread is either never seen or gets one initialisation and
later one shutdown, in any interleaving with the others.  The main thread gets
neither, and the exiting thread is the main one or a created one. -/
structure MonitorContract (main exiting : ℕ) (body : List Callback) : Prop where
  created : ∀ t, body.filter (Callback.IsAbout t) = [] ∨
    ∃ io io', body.filter (Callback.IsAbout t) = [.initThread t io, .finiThread t io']
  main_not_created : body.filter (Callback.IsAbout main) = []
  exiting_exists : exiting = main ∨ ∃ io, .initThread exiting io ∈ body

/-- The whole run of the library in a process. -/
def processHistory (main exiting : ℕ) (body : List Callback) (start finish : CallbackIo) :
    List Callback :=
  .initProcess main start :: body ++ [.finiProcess exiting finish]

/-! ## Records and phases -/

/-- Point 0 is open and was never stopped. -/
structure PerthreadData.Running (thread : PerthreadData) : Prop where
  entries : 0 < thread.maxCaliperEntries
  depth : (thread.data 0).depth = 1
  used : (thread.data 0).used = 0

/-- Point 0 has been stopped exactly once. -/
structure PerthreadData.StoppedOnce (thread : PerthreadData) : Prop where
  entries : 0 < thread.maxCaliperEntries
  depth : (thread.data 0).depth = 0
  used : (thread.data 0).used = 1

theorem PerthreadData.running_initialised (cfg : Config) (stamp : ℤ) (io : Sampling) :
    (initialised cfg stamp io).Running where
  entries := Nat.succ_pos 31
  depth := by simp
  used := by simp [initialised, startPoint]

theorem PerthreadData.Running.shutDown {thread : PerthreadData} (h : thread.Running)
    (cfg : Config) (io : CallbackIo) : (Process.shutDown cfg thread io).StoppedOnce where
  entries := h.entries
  depth := by simp [Process.shutDown, stopPoint, h.depth]
  used := by
    have hround : Binary32.round ((1 : ℕ) : ℚ) = (1 : ℕ) :=
      Binary32.round_natCast (by norm_num)
    simpa [Process.shutDown, stopPoint, h.used] using hround

/-- Where a thread stands: not initialised yet, initialised, or shut down. -/
inductive Phase where
  | absent
  | running
  | ended

/-- What the record of a thread looks like in a phase. -/
def Phase.Describes : Phase → PerthreadData → Prop
  | .absent, _ => False
  | .running, thread => thread.Running
  | .ended, thread => thread.StoppedOnce

/-- The effect of a callback on the phases. -/
def Phase.step (phases : ℕ → Phase) : Callback → ℕ → Phase
  | .initThread tid _ => Function.update phases tid .running
  | .finiThread tid _ => Function.update phases tid .ended
  | _ => phases

/-- A thread is initialised once and shut down while it runs; the process
callbacks do not occur. -/
def Phase.Allows (phases : ℕ → Phase) : Callback → Prop
  | .initProcess _ _ => False
  | .initThreadSupport => True
  | .initThread tid _ => phases tid = .absent
  | .finiThread tid _ => phases tid = .running
  | .finiProcess _ _ => False

/-- Only the callbacks about a thread change its phase. -/
theorem Phase.foldl_step_apply (body : List Callback) (phases : ℕ → Phase) (t : ℕ) :
    body.foldl Phase.step phases t =
      (body.filter (Callback.IsAbout t)).foldl Phase.step phases t := by
  induction body generalizing phases with
  | nil => rfl
  | cons callback body ih =>
      -- the rest of the fold depends on the phase of `t` alone
      have hlocal : ∀ (rest : List Callback) (first second : ℕ → Phase), first t = second t →
          rest.foldl Phase.step first t = rest.foldl Phase.step second t := by
        intro rest
        induction rest with
        | nil => exact fun _ _ h => h
        | cons head rest ihrest =>
            intro first second h
            refine ihrest _ _ ?_
            cases head <;> simp [Phase.step, Function.update_apply, h]
      rw [List.foldl_cons, ih, List.filter_cons]
      by_cases habout : callback.IsAbout t = true
      · rw [if_pos habout, List.foldl_cons]
      · rw [if_neg habout]
        refine hlocal _ _ _ ?_
        cases callback with
        | initProcess tid io => rfl
        | initThreadSupport => rfl
        | initThread tid io =>
            have hne : t ≠ tid := fun heq => habout (by simp [Callback.IsAbout, heq])
            exact Function.update_of_ne hne _ _
        | finiThread tid io =>
            have hne : t ≠ tid := fun heq => habout (by simp [Callback.IsAbout, heq])
            exact Function.update_of_ne hne _ _
        | finiProcess tid io => rfl

/-- The phases when the process has just been initialised. -/
def Phase.start (main : ℕ) : ℕ → Phase :=
  Function.update (fun _ => Phase.absent) main .running

theorem Phase.start_of_ne {main t : ℕ} (h : t ≠ main) : Phase.start main t = .absent :=
  Function.update_of_ne h _ _

namespace MonitorContract

variable {main exiting : ℕ} {body : List Callback}

/-- The contract allows every callback where it occurs. -/
theorem allows (h : MonitorContract main exiting body) (front : List Callback)
    (callback : Callback) (rest : List Callback) (hsplit : body = front ++ callback :: rest) :
    Phase.Allows (front.foldl Phase.step (Phase.start main)) callback := by
  -- the callbacks about one thread, split at the same place
  have hfilter : ∀ t, callback.IsAbout t = true → ∃ io io',
      front.filter (Callback.IsAbout t) ++ callback :: rest.filter (Callback.IsAbout t) =
        [.initThread t io, .finiThread t io'] ∧ t ≠ main := by
    intro t habout
    have heq : body.filter (Callback.IsAbout t) =
        front.filter (Callback.IsAbout t) ++
          callback :: rest.filter (Callback.IsAbout t) := by
      rw [hsplit, List.filter_append, List.filter_cons_of_pos habout]
    rcases h.created t with hnone | ⟨io, io', hboth⟩
    · rw [heq] at hnone
      simp at hnone
    · refine ⟨io, io', heq ▸ hboth, ?_⟩
      rintro rfl
      rw [h.main_not_created] at hboth
      cases hboth
  -- a thread begins first and ends second, so the callbacks before are none or the begin
  cases callback with
  | initProcess tid io =>
      obtain ⟨io₁, io₂, hshape, -⟩ := hfilter tid (by simp [Callback.IsAbout])
      rcases hfront : front.filter (Callback.IsAbout tid) with _ | ⟨first, _ | ⟨second, more⟩⟩ <;>
        rw [hfront] at hshape <;> simp at hshape
  | initThreadSupport => trivial
  | initThread tid io =>
      obtain ⟨io₁, io₂, hshape, hmain⟩ := hfilter tid (by simp [Callback.IsAbout])
      rcases hfront : front.filter (Callback.IsAbout tid) with _ | ⟨first, _ | ⟨second, more⟩⟩
      · show front.foldl Phase.step (Phase.start main) tid = .absent
        rw [Phase.foldl_step_apply, hfront]
        exact Phase.start_of_ne hmain
      · rw [hfront] at hshape
        simp at hshape
      · rw [hfront] at hshape
        simp at hshape
  | finiThread tid io =>
      obtain ⟨io₁, io₂, hshape, hmain⟩ := hfilter tid (by simp [Callback.IsAbout])
      rcases hfront : front.filter (Callback.IsAbout tid) with _ | ⟨first, _ | ⟨second, more⟩⟩
      · rw [hfront] at hshape
        simp at hshape
      · rw [hfront] at hshape
        have hfirst : first = .initThread tid io₁ := by
          simp only [List.cons_append, List.nil_append, List.cons.injEq] at hshape
          exact hshape.1
        show front.foldl Phase.step (Phase.start main) tid = .running
        rw [Phase.foldl_step_apply, hfront, hfirst]
        simp [Phase.step]
      · rw [hfront] at hshape
        simp at hshape
  | finiProcess tid io =>
      obtain ⟨io₁, io₂, hshape, -⟩ := hfilter tid (by simp [Callback.IsAbout])
      rcases hfront : front.filter (Callback.IsAbout tid) with _ | ⟨first, _ | ⟨second, more⟩⟩ <;>
        rw [hfront] at hshape <;> simp at hshape

/-- At the end the main thread runs and no other thread does. -/
theorem final_phase (h : MonitorContract main exiting body) (t : ℕ) :
    body.foldl Phase.step (Phase.start main) t =
      if t = main then .running
      else if body.filter (Callback.IsAbout t) = [] then .absent else .ended := by
  rw [Phase.foldl_step_apply]
  by_cases hmain : t = main
  · rw [if_pos hmain, hmain, h.main_not_created]
    simp [Phase.start]
  · rw [if_neg hmain]
    rcases h.created t with hnone | ⟨io, io', hboth⟩
    · rw [if_pos hnone, hnone]
      exact Phase.start_of_ne hmain
    · rw [hboth]
      simp [Phase.step]

end MonitorContract

/-! ## The process tracks the phases -/

/-- The table holds exactly the initialised threads, each with a record of its
own that is in the phase of the thread. -/
structure Tracks (proc : Process) (phases : ℕ → Phase) : Prop where
  events : ∀ t ref, proc.threadData t = some ref → proc.cfg.eventcnt ≠ 0
  fresh : ∀ t ref, proc.threadData t = some ref → ref < proc.heapEnd
  own : ∀ t t' ref, proc.threadData t = some ref → proc.threadData t' = some ref → t = t'
  table : ∀ t ref, (t, ref) ∈ proc.allThreads ↔ proc.threadData t = some ref
  absent : ∀ t, phases t = .absent ↔ proc.threadData t = none
  described : ∀ t ref, proc.threadData t = some ref → (phases t).Describes (proc.heap ref)

namespace Tracks

variable {proc : Process} {phases : ℕ → Phase}

/-- A library that was just loaded knows no thread. -/
theorem initLibraryGlobals (cfg : Config) :
    Tracks (Process.initLibraryGlobals cfg) fun _ => .absent where
  events _ _ h := by cases h
  fresh _ _ h := by cases h
  own _ _ _ h := by cases h
  table _ _ := by simp [Process.initLibraryGlobals, Process.initProcessGlobals]
  absent _ := by simp [Process.initLibraryGlobals, Process.initProcessGlobals]
  described _ _ h := by cases h

/-- Initialisation of an absent thread. -/
theorem threadInitialised (h : Tracks proc phases) (tid : ℕ) (habsent : phases tid = .absent)
    (io : CallbackIo) :
    Tracks (proc.threadInitialised tid io) (Function.update phases tid .running) := by
  have hnone := (h.absent tid).mp habsent
  -- a record of the new table is the new one of `tid` or an old one of another thread
  have hdata : ∀ t ref, Function.update proc.threadData tid (some proc.heapEnd) t = some ref →
      t = tid ∧ ref = proc.heapEnd ∨ t ≠ tid ∧ proc.threadData t = some ref := by
    intro t ref hset
    by_cases heq : t = tid
    · rw [heq, Function.update_self] at hset
      exact .inl ⟨heq, (Option.some.inj hset).symm⟩
    · rw [Function.update_of_ne heq] at hset
      exact .inr ⟨heq, hset⟩
  constructor
  case events => exact fun _ _ _ => (Config.eventcnt_withDefaultEvents_pos _ _ _).ne'
  case fresh =>
    intro t ref hset
    rcases hdata t ref hset with ⟨-, rfl⟩ | ⟨-, hold⟩
    · exact Nat.lt_succ_self _
    · exact (h.fresh t ref hold).trans (Nat.lt_succ_self _)
  case own =>
    intro t t' ref hset hset'
    rcases hdata t ref hset with ⟨rfl, rfl⟩ | ⟨hne, hold⟩ <;>
      rcases hdata t' _ hset' with ⟨rfl, hend⟩ | ⟨hne', hold'⟩
    · rfl
    · exact absurd (h.fresh t' _ hold') (lt_irrefl _)
    · exact absurd (h.fresh t ref hold) (by omega)
    · exact h.own t t' ref hold hold'
  case table =>
    intro t ref
    show (t, ref) ∈ proc.allThreads ++ [(tid, proc.heapEnd)] ↔
      Function.update proc.threadData tid (some proc.heapEnd) t = some ref
    rw [List.mem_append, List.mem_singleton, Prod.mk.injEq, h.table]
    by_cases heq : t = tid
    · rw [heq, Function.update_self, hnone]
      simp [eq_comm]
    · rw [Function.update_of_ne heq]
      simp [heq]
  case absent =>
    intro t
    show Function.update phases tid .running t = .absent ↔
      Function.update proc.threadData tid (some proc.heapEnd) t = none
    by_cases heq : t = tid
    · rw [heq, Function.update_self, Function.update_self]
      simp
    · rw [Function.update_of_ne heq, Function.update_of_ne heq]
      exact h.absent t
  case described =>
    intro t ref hset
    rcases hdata t ref hset with ⟨rfl, rfl⟩ | ⟨hne, hold⟩
    · rw [Function.update_self]
      show PerthreadData.Running (Function.update proc.heap proc.heapEnd _ proc.heapEnd)
      rw [Function.update_self]
      exact PerthreadData.running_initialised _ _ _
    · rw [Function.update_of_ne hne]
      show (phases t).Describes (Function.update proc.heap proc.heapEnd _ ref)
      rw [Function.update_of_ne (h.fresh t ref hold).ne]
      exact h.described t ref hold

/-- Shutdown of a running thread. -/
theorem threadShutDown (h : Tracks proc phases) {tid ref : ℕ} (hrunning : phases tid = .running)
    (href : proc.threadData tid = some ref) (io : CallbackIo) :
    proc.papiexThreadShutdownRoutine tid io =
        .ok (proc.setRecord ref (Process.shutDown proc.cfg (proc.heap ref) io)) ∧
      Tracks (proc.setRecord ref (Process.shutDown proc.cfg (proc.heap ref) io))
        (Function.update phases tid .ended) := by
  have hrecord : (proc.heap ref).Running := by
    have hdescribed := h.described tid ref href
    rwa [hrunning] at hdescribed
  constructor
  · refine Process.papiexThreadShutdownRoutine_of_open (h.events tid ref href) href
      hrecord.entries ?_
    rw [hrecord.depth]
    exact one_ne_zero
  -- the routine keeps the table and changes the record of `tid` alone
  refine ⟨h.events, h.fresh, h.own, h.table, ?absent, ?described⟩
  case absent =>
    intro t
    by_cases heq : t = tid
    · have hdata : (proc.setRecord ref
          (Process.shutDown proc.cfg (proc.heap ref) io)).threadData t = some ref :=
        heq ▸ href
      rw [hdata, heq, Function.update_self]
      simp
    · rw [Function.update_of_ne heq]
      exact h.absent t
  case described =>
    intro t ref' hset
    by_cases heq : t = tid
    · have hsame : ref' = ref := by
        have hset : proc.threadData t = some ref' := hset
        rw [heq, href] at hset
        exact (Option.some.inj hset).symm
      rw [heq, hsame, Function.update_self]
      show PerthreadData.StoppedOnce (Function.update proc.heap ref _ ref)
      rw [Function.update_self]
      exact hrecord.shutDown proc.cfg io
    · have hother : ref' ≠ ref := fun hsame => heq (h.own t tid ref (hsame ▸ hset) href)
      rw [Function.update_of_ne heq]
      show (phases t).Describes (Function.update proc.heap ref _ ref')
      rw [Function.update_of_ne hother]
      exact h.described t ref' hset

/-- **One allowed callback succeeds and is tracked.** -/
theorem exec (h : Tracks proc phases) {callback : Callback}
    (hallowed : Phase.Allows phases callback) :
    ∃ next, callback.exec proc = .ok next ∧ Tracks next (Phase.step phases callback) ∧
      next.calledProcessShutdown = proc.calledProcessShutdown ∧
      next.printed = proc.printed := by
  cases callback with
  | initProcess tid io => cases hallowed
  | initThreadSupport =>
      exact ⟨_, rfl, ⟨h.events, h.fresh, h.own, h.table, h.absent, h.described⟩, rfl, rfl⟩
  | initThread tid io =>
      exact ⟨_, proc.papiexThreadInitRoutine_eq tid io, h.threadInitialised tid hallowed io,
        rfl, rfl⟩
  | finiThread tid io =>
      have hrunning : phases tid = .running := hallowed
      have hsome : proc.threadData tid ≠ none := by
        rw [ne_eq, ← h.absent, hrunning]
        simp
      obtain ⟨ref, href⟩ := Option.ne_none_iff_exists'.mp hsome
      obtain ⟨hexec, htracks⟩ := h.threadShutDown hrunning href io
      exact ⟨_, hexec, htracks, rfl, rfl⟩
  | finiProcess tid io => cases hallowed

/-- The state after any lawful history before the process ends. -/
theorem of_contract {main exiting : ℕ} {body : List Callback}
    (hcontract : MonitorContract main exiting body) (cfg : Config) (start : CallbackIo) :
    ∃ proc, FallibleRun.run Callback.exec (Process.initLibraryGlobals cfg)
        (.initProcess main start :: body) = .ok proc ∧
      Tracks proc (body.foldl Phase.step (Phase.start main)) ∧
      proc.calledProcessShutdown = false ∧ proc.printed = [] := by
  have hinit := (initLibraryGlobals cfg).threadInitialised main rfl start
  have hstep : ∀ before phases callback,
      (Tracks before phases ∧ before.calledProcessShutdown = false ∧ before.printed = []) →
      Phase.Allows phases callback → ∃ next, callback.exec before = .ok next ∧
        Tracks next (Phase.step phases callback) ∧ next.calledProcessShutdown = false ∧
          next.printed = [] := by
    rintro before phases callback ⟨htracks, hshut, hprinted⟩ hallowed
    obtain ⟨next, hexec, hnext, hsame, hsame'⟩ := htracks.exec hallowed
    exact ⟨next, hexec, hnext, hsame.trans hshut, hsame'.trans hprinted⟩
  obtain ⟨proc, hrun, htracks⟩ := FallibleRun.run_progress
    (fun proc phases => Tracks proc phases ∧ proc.calledProcessShutdown = false ∧
      proc.printed = []) Phase.step Phase.Allows hstep ⟨hinit, rfl, rfl⟩ hcontract.allows
  refine ⟨proc, FallibleRun.run_cons_eq_ok_iff.mpr ⟨_, ?_, hrun⟩, htracks⟩
  exact Process.papiexThreadInitRoutine_eq _ main start

end Tracks

/-! ## The end of the process -/

/-- The thread takes part in the process: it was created, or is the main one. -/
def TakesPart (main : ℕ) (body : List Callback) (t : ℕ) : Prop :=
  t = main ∨ ∃ io, .initThread t io ∈ body

/-- At the end every thread that takes part has been shut down, but for the main
one. -/
theorem MonitorContract.phase_of_takesPart {main exiting : ℕ} {body : List Callback}
    (h : MonitorContract main exiting body) {t : ℕ} (ht : TakesPart main body t) :
    body.foldl Phase.step (Phase.start main) t = if t = main then .running else .ended := by
  rw [h.final_phase]
  by_cases hmain : t = main
  · rw [if_pos hmain, if_pos hmain]
  · obtain ⟨io, hmem⟩ := ht.resolve_left hmain
    have hseen : body.filter (Callback.IsAbout t) ≠ [] := by
      intro hnil
      have hnot := List.filter_eq_nil_iff.mp hnil _ hmem
      simp [Callback.IsAbout] at hnot
    rw [if_neg hmain, if_neg hmain, if_neg hseen]

/-- The history ends with no fatal error, `print_process_stats` runs once, every
thread that takes part is in its table, and point 0 of every record it goes through
has been stopped exactly once. -/
def ShutsDownCleanly (cfg : Config) (main exiting : ℕ) (body : List Callback)
    (start finish : CallbackIo) : Prop :=
  ∃ proc records, FallibleRun.run Callback.exec (Process.initLibraryGlobals cfg)
      (processHistory main exiting body start finish) = .ok proc ∧
    proc.printed = [records] ∧ records = proc.tableRecords ∧
    (∀ record ∈ records, record.StoppedOnce) ∧
    ∀ t, TakesPart main body t → ∃ ref, (t, ref) ∈ proc.allThreads

/-- Process shutdown in the main thread. -/
theorem Tracks.finiProcess_main {proc : Process} {phases : ℕ → Phase} (h : Tracks proc phases)
    (hshut : proc.calledProcessShutdown = false) {main : ℕ} (hmain : phases main = .running)
    (hothers : ∀ t, t ≠ main → phases t ≠ .running) (finish : CallbackIo) :
    ∃ final, Callback.exec proc (.finiProcess main finish) = .ok final ∧
      final.printed = proc.printed ++ [final.tableRecords] ∧
      final.allThreads = proc.allThreads ∧
      ∀ record ∈ final.tableRecords, record.StoppedOnce := by
  have hmarked : Tracks { proc with calledProcessShutdown := true } phases :=
    ⟨h.events, h.fresh, h.own, h.table, h.absent, h.described⟩
  have hsome : proc.threadData main ≠ none := by
    rw [ne_eq, ← h.absent, hmain]
    simp
  obtain ⟨ref, href⟩ := Option.ne_none_iff_exists'.mp hsome
  obtain ⟨hexec, htracks⟩ := hmarked.threadShutDown hmain href finish
  unfold Callback.exec Process.papiexProcessShutdownRoutine
  simp only [hshut, Bool.false_eq_true, if_false, hexec]
  refine ⟨_, rfl, rfl, rfl, fun record hrecord => ?_⟩
  obtain ⟨⟨t, ref'⟩, hentry, rfl⟩ := List.mem_map.mp hrecord
  have hdescribed := htracks.described t ref' ((htracks.table t ref').mp hentry)
  by_cases heq : t = main
  · rw [heq, Function.update_self] at hdescribed
    exact hdescribed
  · rw [Function.update_of_ne heq] at hdescribed
    cases hphase : phases t with
    | absent =>
        rw [hphase] at hdescribed
        cases hdescribed
    | running => exact absurd hphase (hothers t heq)
    | ended =>
        rw [hphase] at hdescribed
        exact hdescribed

/-- Process shutdown in a thread that has been shut down. -/
theorem Tracks.finiProcess_ended {proc : Process} {phases : ℕ → Phase} (h : Tracks proc phases)
    (hshut : proc.calledProcessShutdown = false) {tid : ℕ} (hended : phases tid = .ended)
    (finish : CallbackIo) :
    Callback.exec proc (.finiProcess tid finish) = .error (.pointNotInUse 0) := by
  have hsome : proc.threadData tid ≠ none := by
    rw [ne_eq, ← h.absent, hended]
    simp
  obtain ⟨ref, href⟩ := Option.ne_none_iff_exists'.mp hsome
  have hrecord : (proc.heap ref).StoppedOnce := by
    have hdescribed := h.described tid ref href
    rwa [hended] at hdescribed
  have hfatal : Process.papiexThreadShutdownRoutine { proc with calledProcessShutdown := true }
      tid finish = .error (.pointNotInUse 0) :=
    Process.papiexThreadShutdownRoutine_of_closed (h.events tid ref href) href
      hrecord.entries hrecord.depth
  unfold Callback.exec Process.papiexProcessShutdownRoutine
  simp only [hshut, Bool.false_eq_true, if_false, hfatal]

/-- **Shutdown is clean exactly when the main thread exits.** -/
theorem process_shutdown_iff (cfg : Config) (main exiting : ℕ) (body : List Callback)
    (start finish : CallbackIo) (hcontract : MonitorContract main exiting body) :
    ShutsDownCleanly cfg main exiting body start finish ↔ exiting = main := by
  obtain ⟨proc, hrun, htracks, hshut, hprinted⟩ := Tracks.of_contract hcontract cfg start
  have hwhole : FallibleRun.run Callback.exec (Process.initLibraryGlobals cfg)
      (processHistory main exiting body start finish) =
        Callback.exec proc (.finiProcess exiting finish) := by
    rw [processHistory, FallibleRun.run_append, hrun]
    exact FallibleRun.run_singleton
  have hphase := hcontract.phase_of_takesPart hcontract.exiting_exists
  constructor
  · -- another thread was shut down when it ended, and its point 0 is stopped again
    rintro ⟨final, records, hfinal, -⟩
    by_contra hother
    rw [if_neg hother] at hphase
    rw [hwhole, htracks.finiProcess_ended hshut hphase finish] at hfinal
    cases hfinal
  · intro hmain
    rw [if_pos hmain, hmain] at hphase
    -- the other threads have ended, so only the main thread is still measured
    have hothers : ∀ t, t ≠ main → body.foldl Phase.step (Phase.start main) t ≠ .running := by
      intro t hne
      rw [hcontract.final_phase, if_neg hne]
      split <;> simp
    obtain ⟨final, hexec, hrecords, htable, hstopped⟩ :=
      htracks.finiProcess_main hshut hphase hothers finish
    refine ⟨final, final.tableRecords, ?_, ?_, rfl, hstopped, fun t ht => ?_⟩
    · rw [hwhole, hmain]
      exact hexec
    · rw [hrecords, hprinted]
      rfl
    · rw [htable]
      have hsome : proc.threadData t ≠ none := by
        rw [ne_eq, ← htracks.absent, hcontract.phase_of_takesPart ht]
        split <;> simp
      obtain ⟨ref, href⟩ := Option.ne_none_iff_exists'.mp hsome
      exact ⟨ref, (htracks.table t ref).mpr href⟩

/-! ### One created thread -/

/-- A callback that samples zeros. -/
def zeroCallbackIo : CallbackIo where
  sampling := (.ofReading 0)
  time := 1
  fpOps := true
  fpIns := true

/-- The callbacks about thread 1, which the main thread 0 created. -/
def oneThread : List Callback :=
  [.initThreadSupport, .initThread 1 zeroCallbackIo, .finiThread 1 zeroCallbackIo]

theorem oneThread_contract {exiting : ℕ} (h : exiting = 0 ∨ exiting = 1) :
    MonitorContract 0 exiting oneThread where
  created t := by
    by_cases heq : t = 1
    · rw [heq]
      exact .inr ⟨zeroCallbackIo, zeroCallbackIo, rfl⟩
    · have hne : 1 ≠ t := fun heq' => heq heq'.symm
      exact .inl (by simp [oneThread, Callback.IsAbout, hne])
  main_not_created := rfl
  exiting_exists := by
    rcases h with rfl | rfl
    · exact .inl rfl
    · exact .inr ⟨zeroCallbackIo, by simp [oneThread]⟩

/-- The main thread exits after the thread it created has ended. -/
theorem process_shutdown_main_exits :
    ShutsDownCleanly plainSettings 0 0 oneThread zeroCallbackIo zeroCallbackIo :=
  (process_shutdown_iff plainSettings 0 0 oneThread zeroCallbackIo zeroCallbackIo
    (oneThread_contract (.inl rfl))).mpr rfl

/-- **The created thread calls exit.**  Its point 0 is stopped by its own shutdown
and then again by that of the process, which is fatal. -/
theorem process_shutdown_worker_exits :
    MonitorContract 0 1 oneThread ∧
      FallibleRun.run Callback.exec (Process.initLibraryGlobals plainSettings)
        (processHistory 0 1 oneThread zeroCallbackIo zeroCallbackIo) =
          .error (.pointNotInUse 0) ∧
      ¬ ShutsDownCleanly plainSettings 0 1 oneThread zeroCallbackIo zeroCallbackIo := by
  have hrun : FallibleRun.run Callback.exec (Process.initLibraryGlobals plainSettings)
      (processHistory 0 1 oneThread zeroCallbackIo zeroCallbackIo) =
        .error (.pointNotInUse 0) := rfl
  refine ⟨oneThread_contract (.inr rfl), hrun, ?_⟩
  rintro ⟨proc, records, hclean, -⟩
  rw [hrun] at hclean
  cases hclean

end Papiex
