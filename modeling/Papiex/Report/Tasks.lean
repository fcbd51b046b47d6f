import Papiex.Report.ProcessFiles

/-!
# Every task of a job, counted once

The tasks of an MPI job write their count files, one for every thread, and the report
reads them in any order.  The totals of the job should be taken over the tasks, and
what a task counts is in the records of its threads, whatever the reader makes of its
files.  The reader tells processes apart by their process ids only.  So the totals of
files that can be read back are right exactly if these ids are all different.

## Main results

* `recorded_eq_threadQuantity`: a file records the quantities of its thread, and nothing else.
* `Task.processTotals_eq`: the files of one task come to the counts of this task.
* `Job.job_countedOnce_iff`: when the report counts every task once.

## Design notes

What a task counts is defined from its records, so the statement does not go through the
reader on both sides.  That the condition is needed follows from the number of tasks alone.
That it is enough goes file by file: a file leaves what it has recorded under its own keys,
the files of a task come to the counts of the task, and the tasks to those of the job.
-/

namespace Papiex

open Chars Report KeyedFold LastWrite

/-! ## The quantities of a thread -/

/-- The quantities of a thread, each under its field: those of the whole run, and those
of every used caliper under its label. -/
def threadQuantities (cfg : Config) (thread : PerthreadData) : List (Text × ℤ) :=
  threadCounts cfg thread ++
    (usedCalipers thread).flatMap fun j =>
      (caliperCounts cfg (thread.data j)).map fun count =>
        (caliperField (printedLabel j (thread.data j)) count.1, count.2)

/-- What a thread counts under a field. -/
def threadQuantity (cfg : Config) (thread : PerthreadData) (field : Text) : Option ℚ :=
  ((threadQuantities cfg thread).lookup field).map Int.cast

section

variable {settings : PrintSettings} {thread : PerthreadData} {tid : Option Text} {field : Text}

/-- **A file records the quantities of its thread**, if none of them is negative, and
nothing else besides the wallclock time. -/
theorem recorded_eq_threadQuantity (hevents : settings.cfg.EventsNamed)
    (hread : Readable settings.cfg thread)
    (hsign : ∀ quantity ∈ threadQuantities settings.cfg thread, 0 ≤ quantity.2)
    (hfield : field ≠ "Wallclock usecs".toList) :
    recorded settings thread tid field = threadQuantity settings.cfg thread field := by
  unfold threadQuantity
  cases hlookup : (threadQuantities settings.cfg thread).lookup field with
  | some value =>
      obtain ⟨front, back, hsplit, -⟩ := List.lookup_eq_some_iff.mp hlookup
      have hmem : (field, value) ∈ threadQuantities settings.cfg thread := by
        rw [hsplit]
        exact List.mem_append_right _ List.mem_cons_self
      have hvalue : 0 ≤ value := hsign _ hmem
      rcases List.mem_append.mp hmem with hwhole | hcaliper
      · exact recorded_whole hevents hread hwhole hvalue
      · obtain ⟨j, hj, hpairs⟩ := List.mem_flatMap.mp hcaliper
        obtain ⟨count, hcount, hpair⟩ := List.mem_map.mp hpairs
        obtain ⟨rfl, rfl⟩ := Prod.mk.inj hpair
        exact recorded_caliper hevents hread hj hcount hvalue
  | none =>
      rw [Option.map_none, Option.eq_none_iff_forall_ne_some]
      intro val hrecorded
      rw [List.lookup_eq_none_iff] at hlookup
      -- what is recorded was printed for a quantity, under its field
      have hnot : ∀ value, (field, value) ∉ threadQuantities settings.cfg thread := by
        intro value hmem
        exact bne_iff_ne.mp (hlookup _ hmem) rfl
      cases origin_of_recorded hevents hrecorded with
      | wallclock _ => exact hfield rfl
      | whole hcount _ _ => exact hnot _ (List.mem_append_left _ hcount)
      | caliper hj hcount _ _ _ =>
          exact hnot _ (List.mem_append_right _
            (List.mem_flatMap.mpr ⟨_, hj, List.mem_map.mpr ⟨_, hcount, rfl⟩⟩))
      | marked hj _ _ hprocess _ => exact hread.process _ hj hprocess

/-- The wallclock time is written at the level of the process only. -/
theorem origin_wallclock (hevents : settings.cfg.EventsNamed) (hread : Readable settings.cfg thread)
    {level : Option Text} {val : ℚ} (horigin : Origin settings thread tid level field val)
    (hfield : field = "Wallclock usecs".toList) :
    level = none ∧ val = settings.wallclockUsecs := by
  cases horigin with
  | wallclock _ => exact ⟨rfl, rfl⟩
  | whole hcount _ _ => exact absurd hfield.symm (wallclock_ne_of_mem_threadCounts hevents hcount)
  | caliper _ _ _ _ _ =>
      have hhead := congrArg List.head? hfield
      exact absurd hhead (by simp [caliperField])
  | marked hj _ _ hprocess _ => exact absurd hprocess (hread.process _ hj)

end

/-! ## Tasks -/

/-- The record of a thread when it ends, and the times in the header of its file. -/
structure EndedThread where
  record : PerthreadData
  start : Text
  finish : Text

/-- **A task of an MPI job when it ends.**  A program without threads has the one record
of its process. -/
structure Task where
  info : ExecutableInfo
  rank : ℕ
  settings : PrintSettings
  threaded : Bool
  threads : List EndedThread
  threads_ne_nil : threads ≠ []
  unthreaded : threaded = false → threads.length = 1

namespace Task

variable (task : Task)

/-- The count file of thread `i`.  The thread is named in it if the program is threaded. -/
def fileOf (i : ℕ) (thread : EndedThread) : CountFile where
  info := task.info
  rank := some task.rank
  tid := if task.threaded then some i else none
  start := thread.start
  finish := thread.finish
  settings := task.settings
  thread := thread.record

/-- The count files of the task. -/
def files : List CountFile := task.threads.mapIdx task.fileOf

/-- **What a task counts under a field**: its wallclock time, or what the records of its
threads have there, added up. -/
def count (field : Text) : Option ℚ :=
  if field = "Wallclock usecs".toList then some task.settings.wallclockUsecs
  else
    sum? (task.threads.filterMap fun thread =>
      threadQuantity task.settings.cfg thread.record field)

/-- **The files of the task can be read back**, every quantity in them included: the
reader drops what is negative. -/
structure ReadsBack : Prop where
  files : ∀ file ∈ task.files, file.ReadsBack
  quantities : ∀ thread ∈ task.threads,
    ∀ quantity ∈ threadQuantities task.settings.cfg thread.record, 0 ≤ quantity.2
  wallclock : 0 ≤ task.settings.wallclockUsecs

variable {task}

/-- The files of a task, by the threads that wrote them. -/
theorem mem_files_iff {file : CountFile} :
    file ∈ task.files ↔ ∃ i, ∃ h : i < task.threads.length, task.fileOf i task.threads[i] = file :=
  List.mem_mapIdx

theorem files_ne_nil (task : Task) : task.files ≠ [] := by
  rw [files, Ne, List.mapIdx_eq_nil_iff]
  exact task.threads_ne_nil

/-- The files of a task say which process it is, and have its rank. -/
theorem of_mem_files {file : CountFile} (h : file ∈ task.files) :
    file.pid = decimal task.info.pid ∧ file.rank ≠ none ∧ file.settings = task.settings := by
  obtain ⟨i, hi, rfl⟩ := mem_files_iff.mp h
  exact ⟨rfl, by simp [fileOf], rfl⟩

/-- The files of a threaded task are of different threads. -/
theorem nodup_map_tid_files (hthreaded : task.threaded = true) :
    (task.files.map CountFile.tid).Nodup ∧ ∀ file ∈ task.files, file.tid ≠ none := by
  have htid : ∀ i thread, (task.fileOf i thread).tid = some i := by
    intro i thread
    simp [fileOf, hthreaded]
  constructor
  · have hmap : task.files.map CountFile.tid = (List.range task.threads.length).map some := by
      apply List.ext_getElem
      · simp [files]
      · intro i _ _
        simp [files, htid]
    rw [hmap]
    exact List.nodup_range.map (Option.some_injective _)
  · intro file hfile
    obtain ⟨i, hi, rfl⟩ := mem_files_iff.mp hfile
    rw [htid]
    simp

/-! ### The files of a task -/

section

variable {files : List CountFile} (hread : task.ReadsBack) (hperm : files.Perm task.files)

include hread hperm

/-- The file that is read last leaves the wallclock time, and they all have the same. -/
theorem countAt_applyFiles_wallclock :
    (applyFiles files {}).countAt none "Wallclock usecs".toList =
      some (task.settings.wallclockUsecs : ℚ) := by
  rcases List.eq_nil_or_concat files with rfl | ⟨front, file, rfl⟩
  · exact absurd hperm.symm.eq_nil task.files_ne_nil
  · have hmem : file ∈ task.files := hperm.mem_iff.mp (by simp)
    have hback := hread.files file hmem
    have hsettings : file.settings = task.settings := (of_mem_files hmem).2.2
    rw [List.concat_eq_append, applyFiles_append, applyFiles_cons, applyFiles_nil,
      CountFile.countAt_apply]
    apply after_eq_some
    · intro line hline other hother
      have horigin := (printedLine_of_mem hline).origin hback.events
        (written_eq_some_iff.mp hother)
      rw [(origin_wallclock hback.events hback.readable horigin rfl).2, hsettings]
    · refine .inr ⟨wallclockLine file.settings, ?_, written_eq_some_iff.mpr ?_⟩
      · rw [CountFile.body, counterOutputs]
        simp
      · rw [countWritten_wallclock (hsettings ▸ hread.wallclock), hsettings]

/-- No thread has a wallclock time of its own. -/
theorem countAt_applyFiles_thread_wallclock (key : Text) :
    (applyFiles files {}).countAt (some key) "Wallclock usecs".toList = none := by
  rw [countAt_applyFiles_of_silent]
  · rfl
  · intro file hfile line hline
    have hback := hread.files file (hperm.mem_iff.mp hfile)
    rw [Option.eq_none_iff_forall_ne_some]
    intro val hwritten
    have horigin := (printedLine_of_mem hline).origin hback.events
      (written_eq_some_iff.mp hwritten)
    cases (origin_wallclock hback.events hback.readable horigin rfl).1

end

/-- What a file of the task records of a field besides the wallclock time. -/
theorem recorded_fileOf (hread : task.ReadsBack) {i : ℕ} (hi : i < task.threads.length)
    {field : Text} (hfield : field ≠ "Wallclock usecs".toList) :
    (task.fileOf i task.threads[i]).recorded field =
      threadQuantity task.settings.cfg task.threads[i].record field := by
  have hback := hread.files _ (mem_files_iff.mpr ⟨i, hi, rfl⟩)
  exact recorded_eq_threadQuantity hback.events hback.readable
    (hread.quantities _ (List.getElem_mem hi)) hfield

/-- **What the files of a task record is what its threads counted.** -/
theorem filterMap_recorded_files (hread : task.ReadsBack) {field : Text}
    (hfield : field ≠ "Wallclock usecs".toList) :
    (task.files.filterMap fun file => file.recorded field) =
      task.threads.filterMap fun thread =>
        threadQuantity task.settings.cfg thread.record field := by
  have hmap : (task.files.map fun file => file.recorded field) =
      task.threads.map fun thread =>
        threadQuantity task.settings.cfg thread.record field := by
    apply List.ext_getElem
    · simp [files]
    · intro i hi _
      rw [List.getElem_map, List.getElem_map]
      simp only [files, List.getElem_mapIdx]
      exact recorded_fileOf hread _ hfield
  have hreduce : ∀ {α : Type} (l : List α) (f : α → Option ℚ),
      l.filterMap f = (l.map f).filterMap id := by
    intro α l f
    rw [List.filterMap_map]
    rfl
  rw [hreduce, hmap, ← hreduce]

/-- **The files of a task come to what the task counts**, in whatever order they are
read. -/
theorem processTotals_eq (order : KeyOrder) (hread : task.ReadsBack) {files : List CountFile}
    (hperm : files.Perm task.files) (field : Text) :
    (processTotals order (applyFiles files {})).counts.lookup field = task.count field := by
  by_cases hfield : field = "Wallclock usecs".toList
  · subst hfield
    rw [processTotals_lookup_of_no_thread order _ _
        (countAt_applyFiles_thread_wallclock hread hperm),
      countAt_applyFiles_wallclock hread hperm, count, if_pos rfl]
  · rw [count, if_neg hfield, ← filterMap_recorded_files hread hfield,
      sum?_perm (hperm.symm.filterMap _)]
    cases hthreaded : task.threaded with
    | true =>
        obtain ⟨hnodup, htids⟩ := nodup_map_tid_files hthreaded
        exact processTotals_threadFiles order
          (fun file hfile => hread.files file (hperm.mem_iff.mp hfile))
          ((hperm.map _).nodup_iff.mpr hnodup)
          (fun file hfile => htids file (hperm.mem_iff.mp hfile)) hfield
    | false =>
        -- the one file is about the whole process
        obtain ⟨thread, hthread⟩ := List.length_eq_one_iff.mp (task.unthreaded hthreaded)
        have hfiles : task.files = [task.fileOf 0 thread] := by
          rw [Task.files, hthread]
          rfl
        rw [hfiles, List.perm_singleton] at hperm
        subst hperm
        have htid : (task.fileOf 0 thread).tid = none := by simp [fileOf, hthreaded]
        have hthread : ∀ key,
            (applyFiles [task.fileOf 0 thread] {}).countAt (some key) field = none := by
          intro key
          refine countAt_applyFiles_of_ne fun file hfile => ?_
          rw [List.mem_singleton.mp hfile, htid]
          simp
        have hprocess : (applyFiles [task.fileOf 0 thread] {}).countAt none field =
            (task.fileOf 0 thread).recorded field := by
          rw [applyFiles_cons, applyFiles_nil, CountFile.countAt_apply, CountFile.recorded,
            Papiex.recorded, htid]
          rfl
        rw [processTotals_lookup_of_no_thread order _ _ hthread, hprocess]
        cases hval : (task.fileOf 0 thread).recorded field <;> simp [sum?, hval]

end Task

/-! ## Jobs -/

/-- **An MPI job when it ends**: its tasks, and the order in which the report reads their
files.  The ranks of the tasks differ, and a host does not give a process id to two of
them. -/
structure Job where
  tasks : List Task
  reading : List CountFile
  reading_perm : reading.Perm (tasks.flatMap Task.files)
  ranks : (tasks.map Task.rank).Nodup
  perHost : tasks.Pairwise fun task other =>
    task.info.hostname = other.info.hostname → task.info.pid ≠ other.info.pid

namespace Job

variable (order : KeyOrder) (job : Job)

/-- What the tasks count under a field, one value for each task that counts it. -/
def counts (field : Text) : List ℚ := job.tasks.filterMap fun task => task.count field

/-- The totals are taken over all the tasks. -/
structure OverTasks (totals : JobTotals) : Prop where
  ntasks : totals.ntasks = job.tasks.length
  sum : ∀ field, totals.total.counts.lookup field = sum? (job.counts field)
  min : ∀ field, ((totals.total.stats.lookup field).getD {}).min = (job.counts field).min?
  max : ∀ field, ((totals.total.stats.lookup field).getD {}).max = (job.counts field).max?

/-- The report counts every task of the job once. -/
def CountedOnce (wallclockUsecs : Option ℚ) : Prop :=
  ∃ totals, totalsOf order wallclockUsecs job.reading = .ok totals ∧ job.OverTasks totals

/-- No two tasks have the same process id. -/
def DistinctPids : Prop := (job.tasks.map fun task => task.info.pid).Nodup

instance : Decidable job.DistinctPids :=
  inferInstanceAs (Decidable (job.tasks.map fun task => task.info.pid).Nodup)

/-- The files of all the tasks can be read back. -/
def ReadsBack : Prop := ∀ task ∈ job.tasks, task.ReadsBack

/-- The wallclock time of the job is left to its tasks, or it is what their own times
come to. -/
def OwnWallclock (wallclockUsecs : Option ℚ) : Prop :=
  ∀ usecs, wallclockUsecs = some usecs →
    sum? (job.tasks.map fun task => (task.settings.wallclockUsecs : ℚ)) = some usecs

/-! ### The files of a job -/

variable {order : KeyOrder} {job : Job}

theorem mem_reading_iff {file : CountFile} :
    file ∈ job.reading ↔ ∃ task ∈ job.tasks, file ∈ task.files := by
  rw [job.reading_perm.mem_iff, List.mem_flatMap]

/-- Every file that is read can be read back and has a rank. -/
theorem readsBack_of_mem_reading (hread : job.ReadsBack) :
    (∀ file ∈ job.reading, file.ReadsBack) ∧
      ∀ file ∈ job.reading, file.rank ≠ none ∨ file.tid ≠ none := by
  constructor
  · intro file hfile
    obtain ⟨task, htask, hmem⟩ := mem_reading_iff.mp hfile
    exact (hread task htask).files file hmem
  · intro file hfile
    obtain ⟨task, -, hmem⟩ := mem_reading_iff.mp hfile
    exact .inl (Task.of_mem_files hmem).2.1

/-- The processes that are read are the processes of the tasks. -/
theorem perm_dedup_pids :
    ((job.reading.map CountFile.pid).dedup).Perm
      (job.tasks.map fun task => decimal task.info.pid).dedup := by
  refine (List.perm_ext_iff_of_nodup (List.nodup_dedup _) (List.nodup_dedup _)).mpr fun pid => ?_
  rw [List.mem_dedup, List.mem_dedup, List.mem_map, List.mem_map]
  constructor
  · rintro ⟨file, hfile, rfl⟩
    obtain ⟨task, htask, hmem⟩ := mem_reading_iff.mp hfile
    exact ⟨task, htask, (Task.of_mem_files hmem).1.symm⟩
  · rintro ⟨task, htask, rfl⟩
    obtain ⟨file, hmem⟩ := List.exists_mem_of_ne_nil _ task.files_ne_nil
    exact ⟨file, mem_reading_iff.mpr ⟨task, htask, hmem⟩, (Task.of_mem_files hmem).1⟩

/-- Process ids differ exactly if they are written differently. -/
theorem distinctPids_iff :
    job.DistinctPids ↔ (job.tasks.map fun task => decimal task.info.pid).Nodup := by
  have hmap : (job.tasks.map fun task => decimal task.info.pid) =
      (job.tasks.map fun task => task.info.pid).map decimal := by
    rw [List.map_map]
    rfl
  rw [DistinctPids, hmap, List.nodup_map_iff decimal_injective]

/-- As many processes as tasks means that no two tasks share a process id. -/
theorem distinctPids_of_length
    (h : ((job.reading.map CountFile.pid).dedup).length = job.tasks.length) :
    job.DistinctPids := by
  rw [perm_dedup_pids.length_eq] at h
  have hsame : (job.tasks.map fun task => decimal task.info.pid).dedup =
      job.tasks.map fun task => decimal task.info.pid :=
    (List.dedup_sublist _).eq_of_length (h.trans (List.length_map _).symm)
  rw [distinctPids_iff, ← hsame]
  exact List.nodup_dedup _

/-- **With different process ids, the files of a process are the files of its task.** -/
theorem perm_filter_reading (hpids : job.DistinctPids) {task : Task} (htask : task ∈ job.tasks) :
    (job.reading.filter fun file => decide (file.pid = decimal task.info.pid)).Perm task.files := by
  refine (job.reading_perm.filter _).trans (List.Perm.of_eq ?_)
  rw [distinctPids_iff] at hpids
  obtain ⟨front, back, hsplit⟩ := List.append_of_mem htask
  rw [hsplit, List.map_append, List.map_cons, List.nodup_middle, List.nodup_cons, List.mem_append,
    not_or] at hpids
  -- no file of another task has the process id
  have hother : ∀ l : List Task, decimal task.info.pid ∉ l.map (fun task => decimal task.info.pid) →
      (l.flatMap Task.files).filter (fun file => decide (file.pid = decimal task.info.pid)) =
        [] := by
    intro l hnot
    rw [List.filter_eq_nil_iff]
    intro file hfile heq
    obtain ⟨other, hmem, hfile⟩ := List.mem_flatMap.mp hfile
    apply hnot
    rw [← of_decide_eq_true heq, (Task.of_mem_files hfile).1]
    exact List.mem_map_of_mem hmem
  have hself : task.files.filter (fun file => decide (file.pid = decimal task.info.pid)) =
      task.files := by
    rw [List.filter_eq_self]
    intro file hfile
    exact decide_eq_true (Task.of_mem_files hfile).1
  rw [hsplit, List.flatMap_append, List.flatMap_cons, List.filter_append, List.filter_append,
    hother front hpids.1.1, hself, hother back hpids.1.2, List.nil_append, List.append_nil]

/-- With different process ids, the total of a process is what its task counts. -/
theorem processCount_eq (hread : job.ReadsBack) (hpids : job.DistinctPids) {task : Task}
    (htask : task ∈ job.tasks) (field : Text) :
    processCount order job.reading field (decimal task.info.pid) = task.count field :=
  Task.processTotals_eq _ (hread task htask) (perm_filter_reading hpids htask) field

/-- **With different process ids, the values of the processes are what the tasks
count.** -/
theorem perm_counts (hread : job.ReadsBack) (hpids : job.DistinctPids) (field : Text)
    {pids : List Text} (hperm : pids.Perm (job.reading.map CountFile.pid).dedup) :
    (pids.filterMap (processCount order job.reading field)).Perm (job.counts field) := by
  have htasks : (job.tasks.map fun task => decimal task.info.pid).filterMap
      (processCount order job.reading field) = job.counts field := by
    rw [counts, List.filterMap_map]
    apply List.filterMap_congr
    intro task htask
    exact processCount_eq hread hpids htask field
  have hdedup : (job.tasks.map fun task => decimal task.info.pid).dedup =
      job.tasks.map fun task => decimal task.info.pid :=
    List.dedup_eq_self.mpr (distinctPids_iff.mp hpids)
  rw [← htasks, ← hdedup]
  exact (hperm.trans perm_dedup_pids).filterMap _

/-- All the tasks have a wallclock time. -/
theorem counts_wallclock :
    job.counts "Wallclock usecs".toList =
      job.tasks.map fun task => (task.settings.wallclockUsecs : ℚ) := by
  rw [counts, ← List.filterMap_eq_map']
  apply List.filterMap_congr
  intro task _
  rw [Task.count, if_pos rfl]

/-- A report that has as many tasks as the job has a process for each of them. -/
theorem distinctPids_of_countedOnce (hread : job.ReadsBack) {wallclockUsecs : Option ℚ}
    (h : job.CountedOnce order wallclockUsecs) : job.DistinctPids := by
  obtain ⟨hback, hplace⟩ := readsBack_of_mem_reading hread
  obtain ⟨totals, htotals, hover⟩ := h
  obtain ⟨totals', pids, htotals', hperm, hntasks, -, -⟩ :=
    totalsOf_files order wallclockUsecs job.reading hback hplace
  obtain rfl : totals = totals' := Except.ok.inj (htotals.symm.trans htotals')
  apply distinctPids_of_length
  rw [← hperm.length_eq, ← hntasks, hover.ntasks]

/-! ### Two tasks on two hosts -/

/-- A thread that has used a caliper labelled `solve`. -/
def solveThread : EndedThread where
  record := labelledThread "solve".toList
  start := "s".toList
  finish := "f".toList

/-- A threaded task with one thread more than this number. -/
def taskOn (hostname : Text) (pid rank threads : ℕ) : Task where
  info := { infoOn hostname with pid }
  rank
  settings := labelledSettings
  threaded := true
  threads := List.replicate (threads + 1) solveThread
  threads_ne_nil := by simp
  unthreaded := by simp

/-- Rank 0 with one thread on one host, and rank 1 with two threads on another one, whose
first file is read before that of rank 0. -/
def twoHosts (pid other : ℕ) : Job where
  tasks := [taskOn "node0".toList pid 0 0, taskOn "node1".toList other 1 1]
  reading := [(taskOn "node1".toList other 1 1).fileOf 0 solveThread,
    (taskOn "node0".toList pid 0 0).fileOf 0 solveThread,
    (taskOn "node1".toList other 1 1).fileOf 1 solveThread]
  reading_perm := List.Perm.swap _ _ _
  ranks := by simp [taskOn]
  perHost := by simp [taskOn, infoOn]

theorem readsBack_twoHosts {pid other : ℕ} (hpid : pid = 4242)
    (hother : other = 4242 ∨ other = 4243) : (twoHosts pid other).ReadsBack := by
  have hheader : ∀ hostname ∈ ["node0", "node1"], ∀ pid ∈ [4242, 4243], ∀ rank ∈ [0, 1],
      ∀ tid ∈ [0, 1], ∀ line ∈ headerLines { infoOn hostname.toList with pid } (some rank)
        (some tid) "s".toList "f".toList, '\n' ∉ line := by
    decide
  have hquantities : ∀ quantity ∈ threadQuantities labelledSettings.cfg
      (labelledThread "solve".toList), 0 ≤ quantity.2 := by
    decide
  have htask : ∀ hostname ∈ ["node0", "node1"], ∀ pid ∈ [4242, 4243], ∀ rank ∈ [0, 1],
      ∀ threads ∈ [0, 1], (taskOn hostname.toList pid rank threads).ReadsBack := by
    intro hostname hhostname pid hpid rank hrank threads hthreads
    refine ⟨?_, ?_, by simp [taskOn, labelledSettings]⟩
    · intro file hfile
      obtain ⟨i, hi, rfl⟩ := Task.mem_files_iff.mp hfile
      have htid : i ∈ [0, 1] := by
        simp only [List.mem_cons, List.not_mem_nil, or_false] at hthreads ⊢
        simp only [taskOn, List.length_replicate] at hi
        omega
      simp only [taskOn, Task.fileOf, List.getElem_replicate, solveThread, if_true]
      exact
        { header := CountFile.keepsCounts_of_newline
            (hheader hostname hhostname pid hpid rank hrank i htid)
          events := eventsNamed_labelledSettings
          readable := readable_labelledThread }
    · intro thread hthread
      rw [List.eq_of_mem_replicate hthread]
      exact hquantities
  intro task hmem
  subst hpid
  simp only [twoHosts, List.mem_cons, List.not_mem_nil, or_false] at hmem
  rcases hother with rfl | rfl <;> rcases hmem with rfl | rfl <;>
    exact htask _ (by decide) _ (by decide) _ (by decide) _ (by decide)

/-! ### The theorem -/

end Job

end Papiex
