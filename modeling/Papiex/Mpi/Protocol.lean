import Papiex.Lib.Interleaving
import Papiex.Output.Path

/-!
# The ranks of an MPI job

What the tasks of an MPI job do from `MPI_Finalize` to their end, as far as they
meet in the file system.  Rank 0 chooses the base output path and leaves it in
the container file, from which the others take it.  Each rank writes its thread
files into the base directory and then, if the job is post-processed, a
placeholder.  Rank 0 waits for the placeholders, removes them and runs the
post-processing command.

A step is one operation on the file system.  Operations that fail for want of
space or of permission, and names too long for the system, are left out.

## Main results

* `MpiJob.act`: a step of a rank.
* `MpiJob.step_act`: what a step can do.

## Design notes

The ranks share nothing but files, and a step of a rank is one operation on them.  How much
of the path is in the container before rank 0 closes it is up to the buffer of `stdio`, and a
parameter; so another rank can read the container in between.  A placeholder comes with the
directory that it is in.
-/

namespace Papiex

open Chars

/-- What an MPI job depends on. -/
structure MpiJob where
  ntasks : ℕ
  ntasks_pos : 0 < ntasks
  request : OutputRequest
  papiexNextgen : Bool
  noWrite : Bool
  /-- `NO_WRITE` is ignored for nextgen papiex. -/
  nextgen_writes : papiexNextgen = true → noWrite = false
  /-- The number of threads of a rank. -/
  nthreads : ℕ → ℕ
  /-- How much of a text `fprintf` hands over to the file before `fclose` does. -/
  flushed : ℕ
  /-- The post-processing command succeeds. -/
  reportSucceeds : Bool

/-- Rank 0. -/
def MpiJob.root (job : MpiJob) : Fin job.ntasks := ⟨0, job.ntasks_pos⟩

/-- The container file: one that was there before rank 0 chose its path, or the one that
rank 0 created. -/
inductive Container where
  | earlier
  | created
  deriving DecidableEq

/-- How far the job has come with a thread file. -/
inductive ThreadFile where
  | untouched
  | opened
  | printed
  | closed
  deriving DecidableEq

/-- The files in which the ranks meet, and the ranks that ran the command. -/
structure MpiFiles where
  /-- What `.papiex.output` names. -/
  container : Option Container
  contents : Container → Text
  /-- The base directories that exist. -/
  dirs : Text → Bool
  /-- The files of a base directory, by rank and thread. -/
  threadFile : Text → ℕ → ℕ → ThreadFile
  /-- `.rank.%d.complete` in a base directory. -/
  placeholder : Text → ℕ → Bool
  placeholder_dir : ∀ dir i, placeholder dir i = true → dirs dir = true
  commands : List ℕ

/-- Why a rank ended early. -/
inductive MpiFault where
  | errorReadingBasePath
  | noFile
  | noBasePath
  | errorRunning
  deriving DecidableEq

/-- What a rank does next. -/
inductive MpiPc where
  /-- `monitor_fini_mpi` is called. -/
  | finiMpi
  /-- The instance is tried. -/
  | probe (inst : ℕ)
  | unlinkStaleContainer
  | createContainer
  | writeContainer
  | closeContainer
  /-- `papiex_process_shutdown_routine` is called. -/
  | shutdown
  | pollContainer
  | openContainer
  | readContainer (file : Container)
  | makeOutputPaths
  | openThread (i : ℕ)
  | printThread (i : ℕ)
  | closeThread (i : ℕ)
  | createPlaceholder
  | awaitPlaceholder (i : ℕ)
  | unlinkPlaceholder (i : ℕ)
  | unlinkContainer
  | runCommand
  | finished
  | exited (fault : MpiFault)
  deriving DecidableEq

/-- The state of a rank. -/
structure MpiRank where
  pc : MpiPc := .finiMpi
  basePath : Text := []
  calledProcessShutdown : Bool := false
  deriving DecidableEq

namespace MpiFiles

/-- The state of a thread file is set. -/
def setThreadFile (files : MpiFiles) (dir : Text) (rank thread : ℕ) (state : ThreadFile) :
    MpiFiles :=
  { files with
    threadFile := fun d r t =>
      if d = dir ∧ r = rank ∧ t = thread then state else files.threadFile d r t }

theorem threadFile_setThreadFile_self {files : MpiFiles} {dir : Text} {rank thread : ℕ}
    {state : ThreadFile} :
    (files.setThreadFile dir rank thread state).threadFile dir rank thread = state :=
  if_pos ⟨rfl, rfl, rfl⟩

/-- The file of another thread stays as it is. -/
theorem threadFile_setThreadFile_of_ne {files : MpiFiles} {dir d : Text} {rank r thread t : ℕ}
    {state : ThreadFile} (h : t ≠ thread) :
    (files.setThreadFile dir rank thread state).threadFile d r t = files.threadFile d r t :=
  if_neg fun hsame => h hsame.2.2

/-- The placeholder of a rank is removed. -/
def removePlaceholder (files : MpiFiles) (dir : Text) (rank : ℕ) : MpiFiles :=
  { files with
    placeholder := fun d i => if d = dir ∧ i = rank then false else files.placeholder d i
    placeholder_dir := fun d i h => by
      split at h
      · cases h
      · exact files.placeholder_dir d i h }

/-- The placeholder of a rank is created in a directory that is there. -/
def addPlaceholder (files : MpiFiles) (dir : Text) (rank : ℕ) (hdir : files.dirs dir = true) :
    MpiFiles :=
  { files with
    placeholder := fun d i => if d = dir ∧ i = rank then true else files.placeholder d i
    placeholder_dir := fun d i h => by
      split at h
      · rename_i heq
        exact heq.1 ▸ hdir
      · exact files.placeholder_dir d i h }

/-- The directory is made unless it is there. -/
def makeDir (files : MpiFiles) (dir : Text) : MpiFiles :=
  { files with
    dirs := fun d => d = dir || files.dirs d
    placeholder_dir := fun d i h => by simp [files.placeholder_dir d i h] }

/-- The container is created, with nothing in it. -/
def createContainer (files : MpiFiles) : MpiFiles :=
  { files with
    container := some .created
    contents := fun file => if file = .created then [] else files.contents file }

/-- Rank 0 has handed over the text. -/
def fillContainer (files : MpiFiles) (text : Text) : MpiFiles :=
  { files with contents := fun file => if file = .created then text else files.contents file }

end MpiFiles

namespace MpiJob

variable (job : MpiJob)

/-- The instance of the base path that rank 0 tries. -/
def instancePath (inst : ℕ) : Text := Papiex.instancePath job.request inst

/-- What a rank does once its thread files are written. -/
def afterWriting (rank : ℕ) : MpiPc :=
  if job.papiexNextgen = true ∧ rank = 0 then
    if 1 < job.ntasks then .awaitPlaceholder 0 else .runCommand
  else .finished

/-- A step of a rank. -/
def act (rank : ℕ) (me : MpiRank) (files : MpiFiles) : MpiRank × MpiFiles :=
  match me.pc with
  | .finiMpi =>
      if rank = 0 then ({ me with pc := .probe 1 }, files)
      else ({ me with pc := .shutdown }, files)
  | .probe inst =>
      if files.dirs (job.instancePath inst) then
        ({ me with pc := .probe (inst + 1), basePath := job.instancePath inst }, files)
      else ({ me with pc := .unlinkStaleContainer, basePath := job.instancePath inst }, files)
  | .unlinkStaleContainer =>
      ({ me with pc := .createContainer }, { files with container := none })
  | .createContainer => ({ me with pc := .writeContainer }, files.createContainer)
  | .writeContainer =>
      ({ me with pc := .closeContainer }, files.fillContainer (me.basePath.take job.flushed))
  | .closeContainer => ({ me with pc := .shutdown }, files.fillContainer me.basePath)
  | .shutdown =>
      if me.calledProcessShutdown then ({ me with pc := .finished }, files)
      else if me.basePath ≠ [] then
        ({ me with pc := .makeOutputPaths, calledProcessShutdown := true }, files)
      else ({ me with pc := .pollContainer, calledProcessShutdown := true }, files)
  | .pollContainer =>
      if files.container.isSome then ({ me with pc := .openContainer }, files)
      else ({ me with pc := .pollContainer }, files)
  | .openContainer =>
      match files.container with
      | some file => ({ me with pc := .readContainer file }, files)
      | none => ({ me with pc := .exited .noFile }, files)
  | .readContainer file =>
      -- `fscanf` of "%s"
      match word isspace (files.contents file) with
      | [] => ({ me with pc := .exited .errorReadingBasePath }, files)
      | path => ({ me with pc := .makeOutputPaths, basePath := path }, files)
  | .makeOutputPaths =>
      if job.noWrite then ({ me with pc := .createPlaceholder }, files)
      else if me.basePath = [] then ({ me with pc := .exited .noBasePath }, files)
      else ({ me with pc := .openThread 0 }, files.makeDir me.basePath)
  | .openThread i =>
      if i < job.nthreads rank then
        ({ me with pc := .printThread i }, files.setThreadFile me.basePath rank i .opened)
      else ({ me with pc := .createPlaceholder }, files)
  | .printThread i =>
      ({ me with pc := .closeThread i }, files.setThreadFile me.basePath rank i .printed)
  | .closeThread i =>
      ({ me with pc := .openThread (i + 1) }, files.setThreadFile me.basePath rank i .closed)
  | .createPlaceholder =>
      if job.papiexNextgen = true ∧ 1 < job.ntasks then
        if hdir : files.dirs me.basePath = true then
          ({ me with pc := job.afterWriting rank },
            files.addPlaceholder me.basePath rank hdir)
        else ({ me with pc := .exited .noFile }, files)
      else ({ me with pc := job.afterWriting rank }, files)
  | .awaitPlaceholder i =>
      if i < job.ntasks then
        if files.placeholder me.basePath i then ({ me with pc := .unlinkPlaceholder i }, files)
        else ({ me with pc := .awaitPlaceholder i }, files)
      else ({ me with pc := .unlinkContainer }, files)
  | .unlinkPlaceholder i =>
      ({ me with pc := .awaitPlaceholder (i + 1) }, files.removePlaceholder me.basePath i)
  | .unlinkContainer => ({ me with pc := .runCommand }, { files with container := none })
  | .runCommand =>
      if job.reportSucceeds then
        ({ me with pc := .finished }, { files with commands := files.commands ++ [rank] })
      else
        ({ me with pc := .exited .errorRunning },
          { files with commands := files.commands ++ [rank] })
  | .finished => ({ me with pc := .shutdown }, files)
  | .exited _ => (me, files)

/-- The ranks of the job. -/
def system : Interleaving.System (Fin job.ntasks) MpiRank MpiFiles where
  act rank := job.act rank

@[simp] theorem system_act (rank : Fin job.ntasks) : job.system.act rank = job.act rank := rfl

@[simp] theorem root_val : (job.root : ℕ) = 0 := rfl

/-- The state of the ranks and of their files. -/
abbrev State := Interleaving.State (Fin job.ntasks) MpiRank MpiFiles

/-- Every rank is about to call `monitor_fini_mpi`. -/
def start (files : MpiFiles) : job.State where
  locals _ := {}
  shared := files

end MpiJob

/-! ## One step -/

/-- What one step of a rank can do. -/
inductive MpiStep (job : MpiJob) (rank : ℕ) (me : MpiRank) (files : MpiFiles) :
    MpiRank × MpiFiles → Prop
  | chooses (hpc : me.pc = .finiMpi) (hrank : rank = 0) :
      MpiStep job rank me files ({ me with pc := .probe 1 }, files)
  | follows (hpc : me.pc = .finiMpi) (hrank : rank ≠ 0) :
      MpiStep job rank me files ({ me with pc := .shutdown }, files)
  | taken {inst : ℕ} (hpc : me.pc = .probe inst)
      (hdir : files.dirs (job.instancePath inst) = true) :
      MpiStep job rank me files
        ({ me with pc := .probe (inst + 1), basePath := job.instancePath inst }, files)
  | free {inst : ℕ} (hpc : me.pc = .probe inst)
      (hdir : files.dirs (job.instancePath inst) = false) :
      MpiStep job rank me files
        ({ me with pc := .unlinkStaleContainer, basePath := job.instancePath inst }, files)
  | unlinksStale (hpc : me.pc = .unlinkStaleContainer) :
      MpiStep job rank me files
        ({ me with pc := .createContainer }, { files with container := none })
  | creates (hpc : me.pc = .createContainer) :
      MpiStep job rank me files ({ me with pc := .writeContainer }, files.createContainer)
  | writes (hpc : me.pc = .writeContainer) :
      MpiStep job rank me files ({ me with pc := .closeContainer },
        files.fillContainer (me.basePath.take job.flushed))
  | closes (hpc : me.pc = .closeContainer) :
      MpiStep job rank me files ({ me with pc := .shutdown }, files.fillContainer me.basePath)
  | calledAgain (hpc : me.pc = .shutdown) (hcalled : me.calledProcessShutdown = true) :
      MpiStep job rank me files ({ me with pc := .finished }, files)
  | hasPath (hpc : me.pc = .shutdown) (hcalled : me.calledProcessShutdown = false)
      (hpath : me.basePath ≠ []) :
      MpiStep job rank me files
        ({ me with pc := .makeOutputPaths, calledProcessShutdown := true }, files)
  | lacksPath (hpc : me.pc = .shutdown) (hcalled : me.calledProcessShutdown = false)
      (hpath : me.basePath = []) :
      MpiStep job rank me files
        ({ me with pc := .pollContainer, calledProcessShutdown := true }, files)
  | sees (hpc : me.pc = .pollContainer) (hthere : files.container.isSome = true) :
      MpiStep job rank me files ({ me with pc := .openContainer }, files)
  | polls (hpc : me.pc = .pollContainer) (hnone : files.container = none) :
      MpiStep job rank me files ({ me with pc := .pollContainer }, files)
  | opens {file : Container} (hpc : me.pc = .openContainer)
      (hfile : files.container = some file) :
      MpiStep job rank me files ({ me with pc := .readContainer file }, files)
  | opensNone (hpc : me.pc = .openContainer) (hnone : files.container = none) :
      MpiStep job rank me files ({ me with pc := .exited .noFile }, files)
  | reads {file : Container} (hpc : me.pc = .readContainer file)
      (hword : word isspace (files.contents file) ≠ []) :
      MpiStep job rank me files ({ me with
        pc := .makeOutputPaths
        basePath := word isspace (files.contents file) }, files)
  | readsNone {file : Container} (hpc : me.pc = .readContainer file)
      (hword : word isspace (files.contents file) = []) :
      MpiStep job rank me files ({ me with pc := .exited .errorReadingBasePath }, files)
  | writesNothing (hpc : me.pc = .makeOutputPaths) (hwrite : job.noWrite = true) :
      MpiStep job rank me files ({ me with pc := .createPlaceholder }, files)
  | noPath (hpc : me.pc = .makeOutputPaths) (hwrite : job.noWrite = false)
      (hpath : me.basePath = []) :
      MpiStep job rank me files ({ me with pc := .exited .noBasePath }, files)
  | makesDir (hpc : me.pc = .makeOutputPaths) (hwrite : job.noWrite = false)
      (hpath : me.basePath ≠ []) :
      MpiStep job rank me files ({ me with pc := .openThread 0 }, files.makeDir me.basePath)
  | opensThread {i : ℕ} (hpc : me.pc = .openThread i) (hi : i < job.nthreads rank) :
      MpiStep job rank me files
        ({ me with pc := .printThread i }, files.setThreadFile me.basePath rank i .opened)
  | noThread {i : ℕ} (hpc : me.pc = .openThread i) (hi : job.nthreads rank ≤ i) :
      MpiStep job rank me files ({ me with pc := .createPlaceholder }, files)
  | printsThread {i : ℕ} (hpc : me.pc = .printThread i) :
      MpiStep job rank me files
        ({ me with pc := .closeThread i }, files.setThreadFile me.basePath rank i .printed)
  | closesThread {i : ℕ} (hpc : me.pc = .closeThread i) :
      MpiStep job rank me files
        ({ me with pc := .openThread (i + 1) }, files.setThreadFile me.basePath rank i .closed)
  | signals (hpc : me.pc = .createPlaceholder)
      (hmany : job.papiexNextgen = true ∧ 1 < job.ntasks)
      (hdir : files.dirs me.basePath = true) :
      MpiStep job rank me files ({ me with pc := job.afterWriting rank },
        files.addPlaceholder me.basePath rank hdir)
  | noDir (hpc : me.pc = .createPlaceholder)
      (hmany : job.papiexNextgen = true ∧ 1 < job.ntasks)
      (hdir : files.dirs me.basePath = false) :
      MpiStep job rank me files ({ me with pc := .exited .noFile }, files)
  | noSignal (hpc : me.pc = .createPlaceholder)
      (hmany : ¬ (job.papiexNextgen = true ∧ 1 < job.ntasks)) :
      MpiStep job rank me files ({ me with pc := job.afterWriting rank }, files)
  | finds {i : ℕ} (hpc : me.pc = .awaitPlaceholder i) (hi : i < job.ntasks)
      (hthere : files.placeholder me.basePath i = true) :
      MpiStep job rank me files ({ me with pc := .unlinkPlaceholder i }, files)
  | awaits {i : ℕ} (hpc : me.pc = .awaitPlaceholder i) (hi : i < job.ntasks)
      (hnone : files.placeholder me.basePath i = false) :
      MpiStep job rank me files ({ me with pc := .awaitPlaceholder i }, files)
  | foundAll {i : ℕ} (hpc : me.pc = .awaitPlaceholder i) (hi : job.ntasks ≤ i) :
      MpiStep job rank me files ({ me with pc := .unlinkContainer }, files)
  | unlinksPlaceholder {i : ℕ} (hpc : me.pc = .unlinkPlaceholder i) :
      MpiStep job rank me files
        ({ me with pc := .awaitPlaceholder (i + 1) }, files.removePlaceholder me.basePath i)
  | unlinksContainer (hpc : me.pc = .unlinkContainer) :
      MpiStep job rank me files ({ me with pc := .runCommand }, { files with container := none })
  | runs (hpc : me.pc = .runCommand) (hreport : job.reportSucceeds = true) :
      MpiStep job rank me files
        ({ me with pc := .finished }, { files with commands := files.commands ++ [rank] })
  | fails (hpc : me.pc = .runCommand) (hreport : job.reportSucceeds = false) :
      MpiStep job rank me files ({ me with pc := .exited .errorRunning },
        { files with commands := files.commands ++ [rank] })
  | finishes (hpc : me.pc = .finished) :
      MpiStep job rank me files ({ me with pc := .shutdown }, files)
  | stays {fault : MpiFault} (hpc : me.pc = .exited fault) : MpiStep job rank me files (me, files)

/-- Rank 0 goes on to the post-processing, and the others are through. -/
theorem MpiJob.afterWriting_cases (job : MpiJob) (rank : ℕ) :
    job.afterWriting rank = .finished ∨
      rank = 0 ∧ (job.afterWriting rank = .awaitPlaceholder 0 ∨
        job.afterWriting rank = .runCommand) := by
  unfold afterWriting
  split
  · rename_i hfirst
    refine .inr ⟨hfirst.2, ?_⟩
    split
    · exact .inl rfl
    · exact .inr rfl
  · exact .inl rfl

/-- With more than one task the command waits for the others. -/
theorem MpiJob.afterWriting_ne_runCommand {job : MpiJob} {rank : ℕ} (hmany : 1 < job.ntasks) :
    job.afterWriting rank ≠ .runCommand := by
  unfold afterWriting
  rw [if_pos hmany]
  split
  · nofun
  · nofun

/-- **One step of a rank.** -/
theorem MpiJob.step_act (job : MpiJob) (rank : ℕ) (me : MpiRank) (files : MpiFiles) :
    MpiStep job rank me files (job.act rank me files) := by
  unfold act
  cases hpc : me.pc with
  | finiMpi =>
      dsimp only
      split
      · rename_i hrank
        exact .chooses hpc hrank
      · rename_i hrank
        exact .follows hpc hrank
  | probe inst =>
      dsimp only
      split
      · rename_i hdir
        exact .taken hpc hdir
      · rename_i hdir
        exact .free hpc (Bool.eq_false_of_not_eq_true hdir)
  | unlinkStaleContainer => exact .unlinksStale hpc
  | createContainer => exact .creates hpc
  | writeContainer => exact .writes hpc
  | closeContainer => exact .closes hpc
  | shutdown =>
      dsimp only
      split
      · rename_i hcalled
        exact .calledAgain hpc hcalled
      · rename_i hcalled
        split
        · rename_i hpath
          exact .hasPath hpc (Bool.eq_false_of_not_eq_true hcalled) hpath
        · rename_i hpath
          exact .lacksPath hpc (Bool.eq_false_of_not_eq_true hcalled) (not_not.mp hpath)
  | pollContainer =>
      dsimp only
      split
      · rename_i hthere
        exact .sees hpc hthere
      · rename_i hthere
        exact .polls hpc (Option.not_isSome_iff_eq_none.mp hthere)
  | openContainer =>
      dsimp only
      split
      · rename_i hfile
        exact .opens hpc hfile
      · rename_i hnone
        exact .opensNone hpc hnone
  | readContainer file =>
      dsimp only
      split
      · rename_i hword
        exact .readsNone hpc hword
      · rename_i hword
        exact .reads hpc hword
  | makeOutputPaths =>
      dsimp only
      split
      · rename_i hwrite
        exact .writesNothing hpc hwrite
      · rename_i hwrite
        split
        · rename_i hpath
          exact .noPath hpc (Bool.eq_false_of_not_eq_true hwrite) hpath
        · rename_i hpath
          exact .makesDir hpc (Bool.eq_false_of_not_eq_true hwrite) hpath
  | openThread i =>
      dsimp only
      split
      · rename_i hi
        exact .opensThread hpc hi
      · rename_i hi
        exact .noThread hpc (not_lt.mp hi)
  | printThread i => exact .printsThread hpc
  | closeThread i => exact .closesThread hpc
  | createPlaceholder =>
      dsimp only
      split
      · rename_i hmany
        split
        · rename_i hdir
          exact .signals hpc hmany hdir
        · rename_i hdir
          exact .noDir hpc hmany (Bool.eq_false_of_not_eq_true hdir)
      · rename_i hmany
        exact .noSignal hpc hmany
  | awaitPlaceholder i =>
      dsimp only
      split
      · rename_i hi
        split
        · rename_i hthere
          exact .finds hpc hi hthere
        · rename_i hthere
          exact .awaits hpc hi (Bool.eq_false_of_not_eq_true hthere)
      · rename_i hi
        exact .foundAll hpc (not_lt.mp hi)
  | unlinkPlaceholder i => exact .unlinksPlaceholder hpc
  | unlinkContainer => exact .unlinksContainer hpc
  | runCommand =>
      dsimp only
      split
      · rename_i hreport
        exact .runs hpc hreport
      · rename_i hreport
        exact .fails hpc (Bool.eq_false_of_not_eq_true hreport)
  | finished => exact .finishes hpc
  | exited fault => exact .stays hpc

/-! ## What a step does to the files -/

section Frame

variable {job : MpiJob} {rank i thread : ℕ} {me : MpiRank} {files : MpiFiles} {dir : Text}

/-- A rank writes its own thread files only. -/
theorem MpiJob.act_threadFile_of_ne (h : i ≠ rank) :
    (job.act rank me files).2.threadFile dir i thread = files.threadFile dir i thread := by
  have hstep := job.step_act rank me files
  generalize job.act rank me files = result at hstep ⊢
  cases hstep with
  | opensThread | printsThread | closesThread => simp [MpiFiles.setThreadFile, h]
  | _ => rfl

/-- A placeholder is there before the step, or it is the one of the rank that takes it. -/
theorem MpiJob.act_placeholder
    (h : (job.act rank me files).2.placeholder dir i = true) :
    files.placeholder dir i = true ∨
      me.pc = .createPlaceholder ∧ files.dirs me.basePath = true ∧ dir = me.basePath ∧
        i = rank := by
  have hstep := job.step_act rank me files
  generalize job.act rank me files = result at hstep h
  cases hstep with
  | signals hpc hmany hdir =>
      by_cases hown : dir = me.basePath ∧ i = rank
      · exact .inr ⟨hpc, hdir, hown.1, hown.2⟩
      · simp only [MpiFiles.addPlaceholder, if_neg hown] at h
        exact .inl h
  | unlinksPlaceholder hpc =>
      simp only [MpiFiles.removePlaceholder] at h
      split at h
      · cases h
      · exact .inl h
  | _ => exact .inl h

theorem MpiJob.act_dirs (h : files.dirs dir = true) :
    (job.act rank me files).2.dirs dir = true := by
  have hstep := job.step_act rank me files
  generalize job.act rank me files = result at hstep ⊢
  cases hstep with
  | makesDir => simp [MpiFiles.makeDir, h]
  | _ => exact h

theorem MpiJob.act_commands :
    (job.act rank me files).2.commands =
      if me.pc = .runCommand then files.commands ++ [rank] else files.commands := by
  have hstep := job.step_act rank me files
  generalize job.act rank me files = result at hstep ⊢
  cases hstep with
  | runs hpc | fails hpc => rw [if_pos hpc]
  | _ => exact (if_neg (by simp_all)).symm

theorem MpiJob.runCommand_of_commands_ne
    (h : (job.act rank me files).2.commands ≠ files.commands) : me.pc = .runCommand := by
  by_contra hpc
  rw [act_commands, if_neg hpc] at h
  exact h rfl

end Frame

/-- The files before the job ends: it has written nothing and run no command. -/
structure MpiFiles.Initial (files : MpiFiles) : Prop where
  untouched : ∀ dir rank thread, files.threadFile dir rank thread = .untouched
  noCommand : files.commands = []

/-- An empty directory. -/
def MpiFiles.empty : MpiFiles where
  container := none
  contents _ := []
  dirs _ := false
  threadFile _ _ _ := .untouched
  placeholder _ _ := false
  placeholder_dir _ _ h := by cases h
  commands := []

theorem MpiFiles.initial_empty : MpiFiles.empty.Initial := ⟨fun _ _ _ => rfl, rfl⟩

/-- Two ranks of one thread each, started with the prefix of `-p`. -/
def twoRanks (pathPrefix : Text) : MpiJob where
  ntasks := 2
  ntasks_pos := Nat.two_pos
  request :=
    { option := .pathPrefix pathPrefix
      processName := "a.out".toList
      hostname := "node1".toList
      pid := 4242
      papiexThreaded := true
      papiexNextgen := true
      noSummaryStats := false
      noWrite := false
      nthreads := 1
      nthreads_pos := Nat.one_pos }
  papiexNextgen := true
  noWrite := false
  nextgen_writes _ := rfl
  nthreads _ := 1
  flushed := 0
  reportSucceeds := true

/-- Rank 1. -/
def rankOne (pathPrefix : Text) : Fin (twoRanks pathPrefix).ntasks := ⟨1, Nat.one_lt_two⟩

end Papiex
