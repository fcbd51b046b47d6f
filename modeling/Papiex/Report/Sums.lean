import Papiex.Report.Totals

/-!
# What the totals are taken over

The totals of a process are the sums, and the least and greatest values, of the fields
of its threads.  Each of them is over exactly the threads that have the field, in
whatever order the hashes come.  The same holds for the job and its processes.

## Main results

* `overThreads_processTotals`: the totals of a process.
* `totals_over_members`: totals are over those that have the field, and over all of them.

## Design notes

The totals are folds into a table by field, so a field at a level is a fold over the values
that the members have for it, and the general facts are in `Papiex.Lib.KeyedFold`.  Values
that come under one field from a process itself and from its threads would be mixed; what is
printed keeps them apart, and the claim says so where it matters (`FieldsApart`).
-/

namespace Papiex

open KeyedFold

/-! ## The members of a level -/

namespace ProcessData

variable (data : ProcessData) (field : Text)

/-- The threads of a process. -/
def tids : List Text := data.threads.keys.filter isNumeric

/-- The count of a field in a thread, if the thread has it. -/
def threadCount (tid : Text) : Option ℚ := ((data.threads.lookup tid).getD ∅).lookup field

/-- The counts of a field in the threads that have it. -/
def threadCounts : List ℚ := data.tids.filterMap (data.threadCount field)

/-- The count of a field in a process: its own count together with those of its
threads. -/
def count : Option ℚ :=
  match data.counts.lookup field with
  | some own => some (own + (data.threadCounts field).sum)
  | none => sum? (data.threadCounts field)

/-- No field is recorded by the process and by one of its threads. -/
def FieldsApart : Prop :=
  ∀ field, data.counts.lookup field ≠ none → data.threadCounts field = []

end ProcessData

namespace Report

variable (report : Report) (field : Text)

/-- The processes of a job. -/
def pids : List Text := report.processData.keys.filter isNumeric

/-- The counts of a field in the processes that have it. -/
def processCounts : List ℚ :=
  report.pids.filterMap fun pid => (report.processOf pid).count field

end Report

/-! ## The levels in the order of a hash -/

section

variable (order : KeyOrder) (data : ProcessData) (report : Report) (field : Text)

/-- The threads in the order in which their process has them. -/
def threadLevels : List (Hash ℚ) :=
  ((order.keys data.threads).filter isNumeric).map fun tid => (data.threads.lookup tid).getD ∅

/-- The processes in the order in which the job has them. -/
def processLevels : List (Hash ℚ) :=
  ((order.keys report.processData).filter isNumeric).map fun pid =>
    (processTotals (order.within pid) (report.processOf pid)).counts

/-- The totals of a process are those of its threads. -/
theorem processTotals_eq : processTotals order data =
    Totals.combine order (threadLevels order data) { counts := data.counts } := rfl

/-- The threads have the same values in every order. -/
theorem map_lookup_threadLevels_perm :
    ((threadLevels order data).map fun counts => counts.lookup field).Perm
      (data.tids.map (data.threadCount field)) := by
  rw [threadLevels, List.map_map]
  exact ((order.perm _ _).filter _).map _

/-- The values of a process are those of the threads that have the field, in some order. -/
theorem levelValues_threadLevels_perm :
    (Totals.levelValues field (threadLevels order data)).Perm (data.threadCounts field) := by
  have hperm := (map_lookup_threadLevels_perm order data field).filterMap id
  rw [List.filterMap_map, List.filterMap_map] at hperm
  exact hperm

/-- The count of a process is the same in every order. -/
theorem lookup_counts_processTotals :
    (processTotals order data).counts.lookup field = data.count field := by
  have hperm := levelValues_threadLevels_perm order data field
  rw [processTotals_eq, Totals.lookup_counts_combine, sum?_perm hperm, hperm.sum_eq]
  rfl

/-- The processes have the same values in every order. -/
theorem map_lookup_processLevels_perm :
    ((processLevels order report).map fun counts => counts.lookup field).Perm
      (report.pids.map fun pid => (report.processOf pid).count field) := by
  rw [processLevels, List.map_map]
  simp only [Function.comp_def, lookup_counts_processTotals]
  exact ((order.perm _ _).filter _).map _

/-- The values of the job are those of the processes that have the field. -/
theorem levelValues_processLevels_perm :
    (Totals.levelValues field (processLevels order report)).Perm (report.processCounts field) := by
  have hperm := (map_lookup_processLevels_perm order report field).filterMap id
  rw [List.filterMap_map, List.filterMap_map] at hperm
  exact hperm

end

/-! ## The totals of a process -/

/-- The totals of a process are taken over its threads. -/
structure OverThreads (data : ProcessData) (totals : Totals) : Prop where
  thread : ∀ field, data.threadCounts field ≠ [] →
    totals.counts.lookup field = some (data.threadCounts field).sum ∧
    ((totals.stats.lookup field).getD {}).min = (data.threadCounts field).min? ∧
    ((totals.stats.lookup field).getD {}).max = (data.threadCounts field).max?
  own : ∀ field, data.counts.lookup field ≠ none →
    totals.counts.lookup field = data.counts.lookup field
  neither : ∀ field, data.counts.lookup field = none → data.threadCounts field = [] →
    totals.counts.lookup field = none

/-- **The totals of a process are right**, if no thread's field is one of the process. -/
theorem overThreads_processTotals (order : KeyOrder) (data : ProcessData)
    (hapart : data.FieldsApart) : OverThreads data (processTotals order data) where
  thread field hfield := by
    have hown : data.counts.lookup field = none := by
      by_contra hsome
      exact hfield (hapart field hsome)
    have hperm := levelValues_threadLevels_perm order data field
    have hcell : Totals.cell { counts := data.counts } field = (none, {}) := by
      rw [Totals.cell, hown]
      rfl
    have hsummary := Totals.summary_combine order field (threadLevels order data)
      { counts := data.counts }
    rw [hcell, Totals.summary_foldl_update_empty, Totals.map_snd_valuesAt_entries,
      sum?_perm hperm, min?_perm hperm, max?_perm hperm, sum?, if_neg hfield] at hsummary
    simp only [Totals.summary, Totals.cell, Prod.mk.injEq] at hsummary
    exact hsummary
  own field hfield := by
    rw [lookup_counts_processTotals, ProcessData.count, hapart field hfield]
    cases hown : data.counts.lookup field with
    | none => exact absurd hown hfield
    | some own => exact congrArg some (add_zero own)
  neither field hown hfield := by
    rw [lookup_counts_processTotals, ProcessData.count, hown, hfield]
    rfl

/-! ## The totals of the job -/

/-- The totals of a job are taken over its processes. -/
structure OverProcesses (processes : List (Text × Totals)) (totals : Totals) : Prop where
  counts : ∀ field, totals.counts.lookup field =
    sum? (processes.filterMap fun process => process.2.counts.lookup field)
  min : ∀ field, ((totals.stats.lookup field).getD {}).min =
    (processes.filterMap fun process => process.2.counts.lookup field).min?
  max : ∀ field, ((totals.stats.lookup field).getD {}).max =
    (processes.filterMap fun process => process.2.counts.lookup field).max?

/-- The totals are taken over exactly the threads and processes that have a field. -/
structure OverMembers (report : Report) (totals : JobTotals) : Prop where
  pids : (totals.processes.map Prod.fst).Perm report.pids
  threads : ∀ process ∈ totals.processes, OverThreads (report.processOf process.1) process.2
  processes : OverProcesses totals.processes totals.total

/-- **Sums, least and greatest values are taken over exactly the threads and processes
that have the field**, in whatever order the hashes come. -/
theorem totals_over_members (order : KeyOrder) (report : Report)
    (hapart : ∀ pid ∈ report.pids, (report.processOf pid).FieldsApart) :
    OverMembers report (computeTotals order none report) := by
  refine ⟨?_, ?_, ?_⟩
  · unfold computeTotals
    rw [List.map_map]
    simp only [Function.comp_def, List.map_id']
    exact (order.perm _ _).filter _
  · intro process hprocess
    obtain ⟨pid, hpid, rfl⟩ := List.mem_map.mp hprocess
    exact overThreads_processTotals _ _
      (hapart pid (((order.perm _ _).filter _).mem_iff.mp hpid))
  · have hsummary := fun field => Totals.summary_combine_empty order field
      (processLevels order report)
    have hlevels : processLevels order report =
        (computeTotals order none report).processes.map fun process => process.2.counts := by
      unfold computeTotals processLevels
      rw [List.map_map]
      rfl
    simp only [Totals.summary, Totals.cell, Prod.mk.injEq, Totals.levelValues, hlevels,
      List.filterMap_map, Function.comp_def] at hsummary
    exact ⟨fun field => (hsummary field).1, fun field => (hsummary field).2.1,
      fun field => (hsummary field).2.2⟩

/-- A process with the wallclock time of its own and two threads; one field is in one of
the threads only. -/
def unevenProcess : ProcessData where
  counts := AList.insert "Wallclock usecs".toList 90 ∅
  threads := AList.insert ['1'] (AList.insert ['X'] 4 ∅)
    (AList.insert ['0'] (AList.insert ['X'] 3 (AList.insert ['Y'] 5 ∅)) ∅)

/-- A job of one process. -/
def jobOf (data : ProcessData) : Report := { processData := AList.insert ['7'] data ∅ }

theorem fieldsApart_unevenProcess : unevenProcess.FieldsApart := by
  intro field hfield
  have hown : field = "Wallclock usecs".toList := by
    by_contra hne
    exact hfield (AList.lookup_insert_ne hne)
  subst hown
  decide

/-- A process whose threads have different fields. -/
theorem totals_over_members_uneven :
    (∀ pid ∈ (jobOf unevenProcess).pids, ((jobOf unevenProcess).processOf pid).FieldsApart) ∧
      OverMembers (jobOf unevenProcess)
        (computeTotals insertionOrder none (jobOf unevenProcess)) := by
  have hapart : ∀ pid ∈ (jobOf unevenProcess).pids,
      ((jobOf unevenProcess).processOf pid).FieldsApart := by
    intro pid hpid
    obtain rfl : pid = ['7'] := List.mem_singleton.mp (List.mem_of_mem_filter hpid)
    exact fieldsApart_unevenProcess
  exact ⟨hapart, totals_over_members insertionOrder (jobOf unevenProcess) hapart⟩

end Papiex
