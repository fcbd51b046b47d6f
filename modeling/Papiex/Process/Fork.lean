import Papiex.Process.State

/-!
# Forked processes

A fork copies the memory of a process, the globals of the library included.
libmonitor then calls `monitor_init_process` in the child, and nothing resets
the table of threads: `init_library_globals` would, `init_process_globals` does
not.

A family is the tree of processes of one program.  Each member carries, besides
its state, the threads initialised in it since its own `monitor_init_process`,
with the records allocated for them.  This history is not read by the program;
it is what the table is compared with.

## Main results

* `Inherits`: the table of a process is what it inherited and its own threads.
* `fork_reportsOwnThreads_iff`: which processes of a family report their own threads.

## Design notes

Every process has in its table what it inherited, followed by its own threads, and a forked
process has inherited its parent's main thread at least.  So the first process of a family
reports its own threads, and no other does.
-/

namespace Papiex

/-- The number libmonitor gives the main thread of a process. -/
def mainThread : ℕ := 0

/-- A process, whether it has exited, and the history of its threads. -/
structure Member where
  proc : Process
  exited : Bool
  own : List (ℕ × ℕ)

/-- The processes that ever existed, by process id. -/
abbrev Family := ℕ → Option Member

/-- What happens in a family: the callbacks of libmonitor in one process, and a
fork by a thread of a process.  In the child libmonitor makes the callback
`monitor_init_process`, but not `monitor_init_library`. -/
inductive FamilyEvent where
  | initThreadSupport (pid : ℕ)
  | initThread (pid tid : ℕ) (io : CallbackIo)
  | finiThread (pid tid : ℕ) (io : CallbackIo)
  | finiProcess (pid tid : ℕ) (io : CallbackIo)
  | fork (parent tid child : ℕ) (io : CallbackIo)

namespace Member

/-- Execute a callback in a process; a fatal error makes it exit. -/
def exec (member : Member) (callback : Callback) (own : List (ℕ × ℕ)) : Member :=
  if member.exited then member
  else
    match callback.exec member.proc with
    | .error _ => { member with exited := true }
    | .ok proc => { member with proc, own }

/-- The memory of a child right after the fork.  Only the forking thread goes on,
as the main thread of the child. -/
def forkCopy (proc : Process) (tid : ℕ) : Process :=
  { proc with threadData := fun t => if t = mainThread then proc.threadData tid else none }

/-- A child whose main thread `monitor_init_process` has initialised. -/
def forked (parent : Member) (tid : ℕ) (io : CallbackIo) : Member :=
  exec { proc := forkCopy parent.proc tid, exited := false, own := [] }
    (.initProcess mainThread io) [(mainThread, parent.proc.heapEnd)]

/-- The table that `print_process_stats` iterates over has exactly one entry for
each thread initialised in the process since its own `monitor_init_process`, in
order, and none from anywhere else. -/
def ReportsOwnThreads (member : Member) : Prop := member.proc.allThreads = member.own

end Member

namespace Family

/-- A callback in one process of the family. -/
def callback (family : Family) (pid : ℕ) (step : Member → Member) : Family :=
  Function.update family pid ((family pid).map step)

/-- A fork, which gives the child an unused process id. -/
def fork (family : Family) (parent tid child : ℕ) (io : CallbackIo) : Family :=
  match family parent, family child with
  | some member, none =>
      if member.exited then family
      else Function.update family child (some (member.forked tid io))
  | _, _ => family

/-- One event of the family. -/
def step (family : Family) : FamilyEvent → Family
  | .initThreadSupport pid =>
      family.callback pid fun member => member.exec .initThreadSupport member.own
  | .initThread pid tid io =>
      family.callback pid fun member =>
        member.exec (.initThread tid io) (member.own ++ [(tid, member.proc.heapEnd)])
  | .finiThread pid tid io =>
      family.callback pid fun member => member.exec (.finiThread tid io) member.own
  | .finiProcess pid tid io =>
      family.callback pid fun member => member.exec (.finiProcess tid io) member.own
  | .fork parent tid child io => family.fork parent tid child io

/-- The family that starts with one process, whose library has been loaded and
whose main thread has been initialised. -/
def init (cfg : Config) (root : ℕ) (io : CallbackIo) : Family :=
  Function.update (fun _ => none) root
    (some (Member.exec { proc := Process.initLibraryGlobals cfg, exited := false, own := [] }
      (.initProcess mainThread io) [(mainThread, 0)]))

/-- The family after a history. -/
def after (cfg : Config) (root : ℕ) (io : CallbackIo) (history : List FamilyEvent) : Family :=
  history.foldl step (init cfg root io)

end Family

/-! ## What an entry in the table comes from -/

/-- The table of a member is what it inherited, followed by its own threads; its
main thread is among these, and only the first process inherited nothing. -/
structure Inherits (root pid : ℕ) (member : Member) (inherited : List (ℕ × ℕ)) : Prop where
  table_eq : member.proc.allThreads = inherited ++ member.own
  own_ne_nil : member.own ≠ []
  inherited_eq_nil_iff : inherited = [] ↔ pid = root

namespace Inherits

variable {root pid : ℕ} {member : Member} {inherited : List (ℕ × ℕ)}

/-- Only the first process of the family reports its own threads. -/
theorem reportsOwnThreads_iff (h : Inherits root pid member inherited) :
    member.ReportsOwnThreads ↔ pid = root := by
  rw [Member.ReportsOwnThreads, h.table_eq, ← h.inherited_eq_nil_iff]
  exact List.append_left_eq_self

/-- A callback that leaves the table alone. -/
theorem exec_same (h : Inherits root pid member inherited) {callback : Callback}
    (hsame : ∀ proc, callback.exec member.proc = .ok proc →
      proc.allThreads = member.proc.allThreads) :
    Inherits root pid (member.exec callback member.own) inherited := by
  unfold Member.exec
  by_cases hexited : member.exited = true
  · rw [if_pos hexited]
    exact h
  rw [if_neg hexited]
  cases hexec : callback.exec member.proc with
  | error stop => exact ⟨h.table_eq, h.own_ne_nil, h.inherited_eq_nil_iff⟩
  | ok proc => exact ⟨(hsame proc hexec).trans h.table_eq, h.own_ne_nil, h.inherited_eq_nil_iff⟩

/-- A thread initialisation enters the new thread. -/
theorem exec_initThread (h : Inherits root pid member inherited) (tid : ℕ) (io : CallbackIo) :
    Inherits root pid
      (member.exec (.initThread tid io) (member.own ++ [(tid, member.proc.heapEnd)]))
      inherited := by
  unfold Member.exec
  by_cases hexited : member.exited = true
  · rw [if_pos hexited]
    exact h
  rw [if_neg hexited]
  simp only [Callback.exec, Process.papiexThreadInitRoutine_eq]
  refine ⟨?_, by simp, h.inherited_eq_nil_iff⟩
  show member.proc.allThreads ++ [(tid, member.proc.heapEnd)] = _
  rw [h.table_eq, List.append_assoc]

/-- A fork makes the whole table of the parent the inheritance of the child. -/
theorem forked (h : Inherits root pid member inherited) {child : ℕ} (hchild : child ≠ root)
    (tid : ℕ) (io : CallbackIo) :
    Inherits root child (member.forked tid io) member.proc.allThreads := by
  have hinit := Process.papiexThreadInitRoutine_eq
    (Member.forkCopy member.proc tid).initProcessGlobals mainThread io
  have hne : member.proc.allThreads ≠ [] := by
    rw [h.table_eq]
    intro hnil
    exact h.own_ne_nil (List.append_eq_nil_iff.mp hnil).2
  unfold Member.forked Member.exec
  simp only [Bool.false_eq_true, if_false, Callback.exec, Process.monitorInitProcess, hinit]
  exact ⟨rfl, by simp, by simp [hne, hchild]⟩

end Inherits

/-! ### The callbacks that leave the table alone -/

/-- The table of threads is not the data of a thread. -/
theorem Process.putThreadData_allThreads (proc : Process) (tid : ℕ)
    (record : Option PerthreadData) :
    (proc.putThreadData tid record).allThreads = proc.allThreads := by
  unfold putThreadData
  split <;> rfl

/-- The end of a thread leaves the table as it is. -/
theorem Process.papiexThreadShutdownRoutine_allThreads {proc next : Process} {tid : ℕ}
    {io : CallbackIo} (h : proc.papiexThreadShutdownRoutine tid io = .ok next) :
    next.allThreads = proc.allThreads := by
  unfold papiexThreadShutdownRoutine at h
  cases hcall : proc.call tid (.stop 0 io.sampling) with
  | error stop =>
      rw [hcall] at h
      cases h
  | ok stopped =>
      rw [hcall] at h
      have hstopped : stopped.allThreads = proc.allThreads := by
        unfold call at hcall
        split at hcall
        · cases hcall
        · cases hcall
          exact putThreadData_allThreads _ _ _
      simp only at h
      split at h
      · cases h
      · cases h
        rw [putThreadData_allThreads, hstopped]

/-- The end of the process leaves the table as it is. -/
theorem Process.papiexProcessShutdownRoutine_allThreads {proc next : Process} {tid : ℕ}
    {io : CallbackIo} (h : proc.papiexProcessShutdownRoutine tid io = .ok next) :
    next.allThreads = proc.allThreads := by
  unfold papiexProcessShutdownRoutine at h
  split at h
  · cases h
    rfl
  · split at h
    · cases h
    · rename_i stopped hstopped
      cases h
      exact (papiexThreadShutdownRoutine_allThreads hstopped).trans rfl

/-! ## Every history -/

/-- Every member inherits: nothing if it is the first process, a table with at
least one entry if it was forked. -/
def EachInherits (root : ℕ) (family : Family) : Prop :=
  family root ≠ none ∧
    ∀ pid member, family pid = some member → ∃ inherited, Inherits root pid member inherited

namespace EachInherits

variable {root : ℕ} {family : Family}

/-- At the start there is one process, with its own thread. -/
theorem init (cfg : Config) (root : ℕ) (io : CallbackIo) :
    EachInherits root (Family.init cfg root io) := by
  have hinit := Process.papiexThreadInitRoutine_eq
    (Process.initLibraryGlobals cfg).initProcessGlobals mainThread io
  refine ⟨by simp [Family.init], fun pid member hmember => ⟨[], ?_⟩⟩
  unfold Family.init at hmember
  by_cases heq : pid = root
  · rw [heq, Function.update_self] at hmember
    cases hmember
    unfold Member.exec
    simp only [Bool.false_eq_true, if_false, Callback.exec, Process.monitorInitProcess, hinit]
    exact ⟨rfl, by simp, by simp [heq]⟩
  · rw [Function.update_of_ne heq] at hmember
    cases hmember

/-- A callback in one process. -/
theorem callback (h : EachInherits root family) (pid : ℕ) {step : Member → Member}
    (hstep : ∀ member inherited, Inherits root pid member inherited →
      Inherits root pid (step member) inherited) :
    EachInherits root (family.callback pid step) := by
  constructor
  · unfold Family.callback
    by_cases heq : root = pid
    · rw [← heq, Function.update_self]
      simpa using h.1
    · rw [Function.update_of_ne heq]
      exact h.1
  · intro other member hmember
    unfold Family.callback at hmember
    by_cases heq : other = pid
    · rw [heq, Function.update_self] at hmember
      obtain ⟨before, hbefore, rfl⟩ := Option.map_eq_some_iff.mp hmember
      obtain ⟨inherited, hinherits⟩ := h.2 pid before hbefore
      exact ⟨inherited, heq ▸ hstep before inherited hinherits⟩
    · rw [Function.update_of_ne heq] at hmember
      exact h.2 other member hmember

/-- What a fork can do: nothing, or bring one new process into the family. -/
theorem fork_cases (family : Family) (parent tid child : ℕ) (io : CallbackIo) :
    family.fork parent tid child io = family ∨
      ∃ member, family parent = some member ∧ family child = none ∧
        family.fork parent tid child io =
          Function.update family child (some (member.forked tid io)) := by
  unfold Family.fork
  cases hparent : family parent with
  | none => exact .inl rfl
  | some member =>
      cases hchild : family child with
      | some other => exact .inl rfl
      | none =>
          by_cases hexited : member.exited = true
          · exact .inl (if_pos hexited)
          · exact .inr ⟨member, rfl, rfl, if_neg hexited⟩

theorem fork (h : EachInherits root family) (parent tid child : ℕ) (io : CallbackIo) :
    EachInherits root (family.fork parent tid child io) := by
  rcases fork_cases family parent tid child io with hsame | ⟨member, hparent, hchild, hfork⟩
  · rw [hsame]
    exact h
  obtain ⟨inherited, hinherits⟩ := h.2 parent member hparent
  have hne : child ≠ root := by
    intro heq
    exact h.1 (heq ▸ hchild)
  rw [hfork]
  constructor
  · rw [Function.update_of_ne hne.symm]
    exact h.1
  · intro pid found hfound
    by_cases heq : pid = child
    · rw [heq, Function.update_self] at hfound
      cases hfound
      exact ⟨_, heq ▸ hinherits.forked hne tid io⟩
    · rw [Function.update_of_ne heq] at hfound
      exact h.2 pid found hfound

/-- **One event keeps it.** -/
theorem step (h : EachInherits root family) (event : FamilyEvent) :
    EachInherits root (family.step event) := by
  cases event with
  | initThreadSupport pid =>
      refine h.callback pid fun member inherited hinherits => hinherits.exec_same ?_
      rintro proc hexec
      cases hexec
      rfl
  | initThread pid tid io =>
      exact h.callback pid fun member inherited hinherits => hinherits.exec_initThread tid io
  | finiThread pid tid io =>
      exact h.callback pid fun member inherited hinherits =>
        hinherits.exec_same fun _ => Process.papiexThreadShutdownRoutine_allThreads
  | finiProcess pid tid io =>
      exact h.callback pid fun member inherited hinherits =>
        hinherits.exec_same fun _ => Process.papiexProcessShutdownRoutine_allThreads
  | fork parent tid child io => exact h.fork parent tid child io

/-- **In every family each process holds what it inherited and its own threads**, and only the
first inherited nothing. -/
theorem after (cfg : Config) (root : ℕ) (io : CallbackIo) (history : List FamilyEvent) :
    EachInherits root (Family.after cfg root io history) := by
  have hrun : ∀ (events : List FamilyEvent) (family : Family), EachInherits root family →
      EachInherits root (events.foldl Family.step family) := by
    intro events
    induction events with
    | nil => exact fun _ h => h
    | cons event events ih => exact fun family h => ih _ (h.step event)
  exact hrun history _ (init cfg root io)

end EachInherits

/-- **A process reports only its own threads exactly when it was not forked.**
After any history of thread creations, thread ends and nested forks, the table of
a process is its own threads if and only if it is the first process. -/
theorem fork_reportsOwnThreads_iff (cfg : Config) (root : ℕ) (io : CallbackIo)
    (history : List FamilyEvent) (pid : ℕ) (member : Member)
    (hmember : Family.after cfg root io history pid = some member) :
    member.ReportsOwnThreads ↔ pid = root := by
  obtain ⟨inherited, hinherits⟩ :=
    (EachInherits.after cfg root io history).2 pid member hmember
  exact hinherits.reportsOwnThreads_iff

/-! ### One fork -/

/-- A callback at the given time that samples zeros. -/
def callbackAt (time : ℤ) : CallbackIo where
  sampling := .ofReading 0
  time := time
  fpOps := true
  fpIns := true

/-- The first process reports its main thread and the one it created, whatever it
forks. -/
theorem fork_first_process_reports :
    ∃ member, Family.after plainSettings 100 (callbackAt 1)
        [.initThread 100 1 (callbackAt 2), .fork 100 1 101 (callbackAt 3)] 100 = some member ∧
      member.ReportsOwnThreads := by
  refine ⟨_, rfl, ?_⟩
  exact (fork_reportsOwnThreads_iff plainSettings 100 (callbackAt 1)
    [.initThread 100 1 (callbackAt 2), .fork 100 1 101 (callbackAt 3)] 100 _ rfl).mpr rfl

/-- **A forked child prints a record of its parent.**  The child has one thread
of its own; its table has two entries, and at its end it prints the record of the
parent's main thread, stamped at the start of the parent. -/
theorem fork_child_reports_parent :
    ∃ member, Family.after plainSettings 100 (callbackAt 1)
        [.fork 100 0 101 (callbackAt 2), .finiProcess 101 0 (callbackAt 3)] 101 = some member ∧
      member.own = [(0, 1)] ∧ member.proc.allThreads = [(0, 0), (0, 1)] ∧
      member.proc.printed.map (List.map PerthreadData.stamp) = [[1, 2]] ∧
      ¬ member.ReportsOwnThreads := by
  refine ⟨_, rfl, rfl, rfl, rfl, ?_⟩
  unfold Member.ReportsOwnThreads
  decide

end Papiex
