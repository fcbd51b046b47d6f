import Papiex.Classic.Deviation

/-!
# The rows of the summary

`print_min_max_mean_cv` prints the statistics of the whole run, and then a section for
each caliper with a positive mean number of executions.  The rows of the events in these
sections are copied from the rows of the whole run, together with the index 0.  The label
of a section comes from the mean, where it is always empty.

The rows are modelled as the values that are given to `fprintf`; `double` values are the
integers they are converted from.

## Main results

* `sectionRight_iff`: when a section shows its caliper.
* `sections_right_iff`: when all of them do.

## Design notes

A section is right if its label and its rows are those of the caliper, in both formats.  The
mean takes a label only from an empty one, so a section has its label only where no thread
has given one.  The index 0 does not show where the statistics of the caliper are those of
the whole run.
-/

namespace Papiex

/-! ## Rows -/

/-- The quotient of a deviation and a mean in `float`. -/
inductive Cov where
  | value (x : ℚ)
  | infinite (negative : Bool)
  | nan
  deriving DecidableEq

/-- `(float)stddev/mean`. -/
def covQuotient (stddev mean : ℤ) : Cov :=
  let numerator := Binary32.round stddev
  let denominator := Binary32.round mean
  if denominator = 0 then
    if numerator = 0 then .nan else .infinite (decide (numerator < 0))
  else .value (Binary32.round (numerator / denominator))

/-- `mean > 0 ? (float)stddev/mean : 0`. -/
def covIfPositive (stddev mean : ℤ) : Cov :=
  if 0 < mean then covQuotient stddev mean else .value 0

/-- A row of statistics. -/
structure StatsRow where
  name : Text
  min : ℤ
  max : ℤ
  mean : ℤ
  cov : Cov
  deriving DecidableEq

/-- The section of a caliper. -/
structure CaliperSection where
  point : ℕ
  label : Text
  clockRows : List StatsRow
  eventRows : List StatsRow
  deriving DecidableEq

/-- What `print_min_max_mean_cv` prints. -/
structure SummaryText where
  rows : List StatsRow
  calipers : List CaliperSection
  deriving DecidableEq

/-- The records that `print_min_max_mean_cv` is called with. -/
structure SummaryData where
  minData : PerthreadData
  maxData : PerthreadData
  meanData : PerthreadData
  stddevData : PerthreadData

/-- The records of `print_process_stats`. -/
def summaryData (cfg : Config) (threads : List PerthreadData) : SummaryData :=
  { minData := minData cfg threads
    maxData := maxData cfg threads
    meanData := meanData cfg threads
    stddevData := stddevData cfg threads }

namespace SummaryData

variable (data : SummaryData)

/-- The row of one quantity. -/
def row (cov : ℤ → ℤ → Cov) (name : Text) (quantity : PerthreadData → ℤ) : StatsRow :=
  { name
    min := quantity data.minData
    max := quantity data.maxData
    mean := quantity data.meanData
    cov := cov (quantity data.stddevData) (quantity data.meanData) }

/-- The rows of the events, with the counters of this index. -/
def eventRows (cfg : Config) (cov : ℤ → ℤ → Cov) (j : ℕ) : List StatsRow :=
  cfg.eventnames.zipIdx.map fun event =>
    data.row cov event.1 fun record => (record.data j).counters event.2

/-- The rows of the profiling wrappers, as far as they are on. -/
def profilingRows (cfg : Config) (cov : ℤ → ℤ → Cov) : List StatsRow :=
  (if !cfg.noMpiProf && cfg.isMpied then
    [data.row cov "MPI cycles".toList PerthreadData.papiexMpiprof,
      data.row cov "MPI Sync cycles".toList PerthreadData.papiexMpisyncprof] else []) ++
  (if !cfg.noIoProf then [data.row cov "IO cycles".toList PerthreadData.papiexIoprof] else []) ++
  (if !cfg.noThreadsyncProf then
    [data.row cov "Thr Sync cycles".toList PerthreadData.papiexThreadsyncprof] else [])

/-- The calipers that have a section. -/
def sections : List ℕ :=
  (List.range maxCalipers).filter fun j =>
    decide (j ≠ 0) && decide (0 < (data.meanData.data j).used)

/-- The format with `-q`. -/
def quietText (cfg : Config) : SummaryText where
  rows :=
    [data.row covQuotient "Real cycles".toList fun record => (record.data 0).realCyc,
      data.row covQuotient "Real usecs".toList fun record => (record.data 0).realUsec,
      data.row covQuotient "Virtual cycles".toList fun record => (record.data 0).virtCyc,
      data.row covQuotient "Virtual usecs".toList fun record => (record.data 0).virtUsec] ++
    data.profilingRows cfg covQuotient ++ data.eventRows cfg covQuotient 0
  calipers := data.sections.map fun j =>
    { point := j
      label := (data.meanData.data j).label
      clockRows :=
        if cfg.fullCaliperData then
          [data.row covQuotient "Real usecs".toList fun record => (record.data j).realUsec,
            data.row covQuotient "Virtual usecs".toList fun record => (record.data j).virtUsec,
            data.row covQuotient "Virtual cycles".toList fun record => (record.data j).virtCyc]
        else []
      eventRows := data.eventRows cfg covQuotient 0 }

/-- The format without `-q`. -/
def normalText (cfg : Config) : SummaryText where
  rows :=
    [data.row covQuotient "Real usecs".toList fun record => (record.data 0).realUsec,
      data.row covQuotient "Real cycles".toList fun record => (record.data 0).realCyc,
      data.row covQuotient "Virtual usecs".toList fun record => (record.data 0).virtUsec,
      data.row covQuotient "Virtual cycles".toList fun record => (record.data 0).virtCyc] ++
    data.profilingRows cfg covIfPositive ++ data.eventRows cfg covIfPositive 0
  calipers := data.sections.map fun j =>
    { point := j
      label := (data.meanData.data j).label
      clockRows :=
        if cfg.fullCaliperData then
          [data.row covIfPositive "Real usecs".toList fun record => (record.data j).realUsec,
            data.row covIfPositive "Virtual usec:".toList fun record => (record.data j).virtUsec,
            data.row covIfPositive "Virtual cycles".toList fun record => (record.data j).virtCyc]
        else []
      eventRows := data.eventRows cfg covIfPositive 0 }

end SummaryData

/-- `print_min_max_mean_cv`. -/
def printMinMaxMeanCv (cfg : Config) (quiet : Bool) (data : SummaryData) : SummaryText :=
  if quiet then data.quietText cfg else data.normalText cfg

/-- The quotient of the format. -/
def covOf (quiet : Bool) : ℤ → ℤ → Cov := if quiet then covQuotient else covIfPositive

/-! ## The sections of the calipers -/

/-- The section of a caliper shows the caliper: under the label that the threads have
given it, and with its own statistics. -/
def SectionRight (cfg : Config) (threads : List PerthreadData) (quiet : Bool) (j : ℕ) : Prop :=
  ∃ shown ∈ (printMinMaxMeanCv cfg quiet (summaryData cfg threads)).calipers,
    shown.point = j ∧ (∀ record ∈ recordsOf j threads, shown.label = record.label) ∧
      shown.eventRows = (summaryData cfg threads).eventRows cfg (covOf quiet) j

/-- The statistics of an event are the same for a caliper as for the whole run. -/
def SameStatistics (cfg : Config) (threads : List PerthreadData) (j k : ℕ) : Prop :=
  ((minData cfg threads).data 0).counters k = ((minData cfg threads).data j).counters k ∧
    ((maxData cfg threads).data 0).counters k = ((maxData cfg threads).data j).counters k ∧
    ((meanData cfg threads).data 0).counters k = ((meanData cfg threads).data j).counters k ∧
    covQuotient (((stddevData cfg threads).data 0).counters k)
        (((meanData cfg threads).data 0).counters k) =
      covQuotient (((stddevData cfg threads).data j).counters k)
        (((meanData cfg threads).data j).counters k)

section

variable {cfg : Config} {threads : List PerthreadData} {j k : ℕ}

/-- A caliper has a section if a thread has used it. -/
theorem used_meanData_pos_iff (hagree : LabelsAgree threads) (hsize : FullSize threads)
    (hj : j ≠ 0) (hlt : j < maxCalipers) :
    0 < ((meanData cfg threads).data j).used ↔ recordsOf j threads ≠ [] := by
  have hdata : (meanData cfg threads).data j =
      meanCaliper cfg threads.length ((processDataSums cfg threads).data j) := by
    rw [meanData_data, summaryRecords_caliper hj hlt]
  have hlength : recordsOf j threads ≠ [] → (0 : ℚ) < threads.length := fun hrecords => by
    exact_mod_cast (List.length_pos_iff.mpr hrecords).trans_le length_recordsOf_le
  rw [hdata, ← used_processDataSums_pos_iff cfg hagree hsize hj hlt]
  constructor
  · intro hused
    by_contra hnot
    rw [meanCaliper, if_neg hnot] at hused
    exact lt_irrefl 0 hused
  · intro hsum
    have hrecords := (used_processDataSums_pos_iff cfg hagree hsize hj hlt).mp hsum
    rw [← hdata, (meanData_caliper cfg hagree hsize hj hlt hrecords).1]
    rw [(processDataSums_records cfg hagree hsize hj hlt).1] at hsum
    exact Binary32.round_pos (div_pos hsum (hlength hrecords))

/-- **The label of a caliper is lost in the mean.** -/
theorem label_meanData (cfg : Config) (threads : List PerthreadData) (hj : j ≠ 0)
    (hlt : j < maxCalipers) : ((meanData cfg threads).data j).label = [] := by
  rw [meanData_data, summaryRecords_caliper hj hlt]
  by_cases hused : 0 < ((processDataSums cfg threads).data j).used
  · rw [(meanCaliper_eq cfg threads.length hused).1]
    split
    · next hlength => exact List.length_eq_zero_iff.mp hlength
    · rfl
  · rw [meanCaliper, if_neg hused]

/-- The sections of the calipers, but for their clocks. -/
theorem calipers_printMinMaxMeanCv (cfg : Config) (quiet : Bool) (data : SummaryData) :
    ∃ clockRows : ℕ → List StatsRow, (printMinMaxMeanCv cfg quiet data).calipers =
      data.sections.map fun j =>
        { point := j, label := (data.meanData.data j).label, clockRows := clockRows j
          eventRows := data.eventRows cfg (covOf quiet) 0 } := by
  cases quiet with
  | false => exact ⟨_, rfl⟩
  | true => exact ⟨_, rfl⟩

/-- The rows of the events are the same for two indices exactly if the statistics are. -/
theorem eventRows_eq_iff (data : SummaryData) (cov : ℤ → ℤ → Cov) (j : ℕ) :
    data.eventRows cfg cov 0 = data.eventRows cfg cov j ↔
      ∀ k < cfg.eventcnt,
        (data.minData.data 0).counters k = (data.minData.data j).counters k ∧
        (data.maxData.data 0).counters k = (data.maxData.data j).counters k ∧
        (data.meanData.data 0).counters k = (data.meanData.data j).counters k ∧
        cov ((data.stddevData.data 0).counters k) ((data.meanData.data 0).counters k) =
          cov ((data.stddevData.data j).counters k) ((data.meanData.data j).counters k) := by
  rw [SummaryData.eventRows, SummaryData.eventRows, List.map_inj_left]
  constructor
  · intro hrows k hk
    have hrow := hrows (cfg.eventnames.get ⟨k, hk⟩, k) (by
      rw [List.mem_zipIdx_iff_getElem?]
      exact List.getElem?_eq_getElem hk)
    simpa [SummaryData.row] using hrow
  · rintro hsame ⟨name, k⟩ hmem
    have hk : k < cfg.eventcnt := by
      rw [List.mem_zipIdx_iff_getElem?] at hmem
      exact (List.getElem?_eq_some_iff.mp hmem).1
    simp only [SummaryData.row, StatsRow.mk.injEq, true_and]
    exact hsame k hk

/-- A section shows its caliper exactly if there is no label to show, and if the caliper has
the statistics of the whole run. -/
theorem sectionRight_iff (hagree : LabelsAgree threads) (hsize : FullSize threads) (quiet : Bool)
    (hj : j ≠ 0) (hlt : j < maxCalipers) (hrecords : recordsOf j threads ≠ []) :
    SectionRight cfg threads quiet j ↔
      (∀ record ∈ recordsOf j threads, record.label = []) ∧
        (summaryData cfg threads).eventRows cfg (covOf quiet) 0 =
          (summaryData cfg threads).eventRows cfg (covOf quiet) j := by
  obtain ⟨clockRows, hcalipers⟩ := calipers_printMinMaxMeanCv cfg quiet (summaryData cfg threads)
  have hlabel : ((summaryData cfg threads).meanData.data j).label = [] :=
    label_meanData cfg threads hj hlt
  have hmem : j ∈ (summaryData cfg threads).sections := by
    simp only [SummaryData.sections, List.mem_filter, List.mem_range, Bool.and_eq_true,
      decide_eq_true_eq]
    exact ⟨hlt, hj, (used_meanData_pos_iff hagree hsize hj hlt).mpr hrecords⟩
  rw [SectionRight, hcalipers]
  constructor
  · rintro ⟨shown, hshown, hpoint, hlabels, hrows⟩
    obtain ⟨i, -, rfl⟩ := List.mem_map.mp hshown
    obtain rfl : i = j := hpoint
    exact ⟨fun record hrecord => (hlabels record hrecord).symm.trans hlabel, hrows⟩
  · rintro ⟨hlabels, hrows⟩
    refine ⟨_, List.mem_map_of_mem hmem, rfl, fun record hrecord => ?_, hrows⟩
    exact hlabel.trans (hlabels record hrecord).symm

/-- A caliper has the statistics of the whole exactly if its rows are the same. -/
theorem sameStatistics_iff_eventRows :
    (∀ k < cfg.eventcnt, SameStatistics cfg threads j k) ↔ ∀ quiet,
      (summaryData cfg threads).eventRows cfg (covOf quiet) 0 =
        (summaryData cfg threads).eventRows cfg (covOf quiet) j := by
  constructor
  · intro hsame quiet
    rw [eventRows_eq_iff]
    intro k hk
    obtain ⟨hmin, hmax, hmean, hcov⟩ := hsame k hk
    refine ⟨hmin, hmax, hmean, ?_⟩
    cases quiet with
    | true => exact hcov
    | false =>
        have hpositive : covIfPositive (((stddevData cfg threads).data 0).counters k)
            (((meanData cfg threads).data 0).counters k) =
          covIfPositive (((stddevData cfg threads).data j).counters k)
            (((meanData cfg threads).data j).counters k) := by
          rw [covIfPositive, hcov, covIfPositive, hmean]
        exact hpositive
  · intro hrows k hk
    exact (eventRows_eq_iff _ _ _).mp (hrows true) k hk

end

/-- **The sections of the calipers show the calipers** exactly if these have no labels, and
have the statistics of the whole run. -/
theorem sections_right_iff (cfg : Config) (threads : List PerthreadData)
    (hsize : FullSize threads) (hagree : LabelsAgree threads) :
    (∀ quiet, ∀ j < maxCalipers, j ≠ 0 → 0 < ((meanData cfg threads).data j).used →
        SectionRight cfg threads quiet j) ↔
      ∀ j < maxCalipers, j ≠ 0 → recordsOf j threads ≠ [] →
        (∀ record ∈ recordsOf j threads, record.label = []) ∧
          ∀ k < cfg.eventcnt, SameStatistics cfg threads j k := by
  constructor
  · intro hright j hlt hj hrecords
    have hsections := fun quiet => (sectionRight_iff hagree hsize quiet hj hlt hrecords).mp
      (hright quiet j hlt hj ((used_meanData_pos_iff hagree hsize hj hlt).mpr hrecords))
    exact ⟨(hsections true).1, sameStatistics_iff_eventRows.mpr fun quiet => (hsections quiet).2⟩
  · intro hsame quiet j hlt hj hused
    have hrecords := (used_meanData_pos_iff hagree hsize hj hlt).mp hused
    obtain ⟨hlabels, hstatistics⟩ := hsame j hlt hj hrecords
    exact (sectionRight_iff hagree hsize quiet hj hlt hrecords).mpr
      ⟨hlabels, sameStatistics_iff_eventRows.mp hstatistics quiet⟩

/-- A thread with a count for the whole run, and a caliper with a label and a count. -/
def solvingThread (label : Text) (whole count : ℤ) : PerthreadData :=
  (PerthreadData.setCaliper {} 1 { label, used := 1, counters := fun _ => count }).setCaliper 0
    { counters := fun _ => whole }

theorem labelsAgree_singleton (thread : PerthreadData) : LabelsAgree [thread] := by
  intro left hleft right hright j _ _
  rw [List.mem_singleton.mp hleft, List.mem_singleton.mp hright]

theorem fullSize_solvingThread (label : Text) (whole count : ℤ) :
    FullSize [solvingThread label whole count] := by
  intro thread hthread
  rw [List.mem_singleton.mp hthread]
  rfl

theorem eq_one_of_solvingThread {label : Text} {whole count : ℤ} {j : ℕ} (hj : j ≠ 0)
    (hrecords : recordsOf j [solvingThread label whole count] ≠ []) : j = 1 := by
  obtain ⟨record, hrecord⟩ := List.exists_mem_of_ne_nil _ hrecords
  have hused := used_of_mem_recordsOf hrecord
  obtain ⟨thread, hthread, rfl⟩ := List.mem_map.mp (List.mem_of_mem_filter hrecord)
  rw [List.mem_singleton.mp hthread] at hused
  by_contra hne
  rw [solvingThread, PerthreadData.setCaliper_data_of_ne _ _ _ _ hj,
    PerthreadData.setCaliper_data_of_ne _ _ _ _ hne] at hused
  exact lt_irrefl 0 hused

/-- A caliper around the whole run. -/
theorem sections_right_wholeRun :
    (FullSize [solvingThread [] 7 7] ∧ LabelsAgree [solvingThread [] 7 7]) ∧
      ∀ quiet, ∀ j < maxCalipers, j ≠ 0 →
        0 < ((meanData oneEvent [solvingThread [] 7 7]).data j).used →
        SectionRight oneEvent [solvingThread [] 7 7] quiet j := by
  have hsize := fullSize_solvingThread [] 7 7
  have hagree := labelsAgree_singleton (solvingThread [] 7 7)
  refine ⟨⟨hsize, hagree⟩, (sections_right_iff oneEvent _ hsize hagree).mpr ?_⟩
  intro j _ hj hrecords
  obtain rfl := eq_one_of_solvingThread hj hrecords
  refine ⟨by decide +kernel, fun k hk => ?_⟩
  obtain rfl : k = 0 := Nat.lt_one_iff.mp hk
  unfold SameStatistics
  decide +kernel

/-- **A caliper with the label `solve` and a count of 5 is shown without a label**, and with
the count of the whole run. -/
theorem sections_right_solve :
    (FullSize [solvingThread "solve".toList 9 5] ∧
      LabelsAgree [solvingThread "solve".toList 9 5]) ∧
    ¬ ∀ quiet, ∀ j < maxCalipers, j ≠ 0 →
      0 < ((meanData oneEvent [solvingThread "solve".toList 9 5]).data j).used →
      SectionRight oneEvent [solvingThread "solve".toList 9 5] quiet j := by
  have hsize := fullSize_solvingThread "solve".toList 9 5
  have hagree := labelsAgree_singleton (solvingThread "solve".toList 9 5)
  refine ⟨⟨hsize, hagree⟩, fun hright => ?_⟩
  have hused : 0 < ((meanData oneEvent [solvingThread "solve".toList 9 5]).data 1).used := by
    decide +kernel
  obtain ⟨hlabels, -⟩ := (sectionRight_iff hagree hsize true (by decide) (by decide)
    ((used_meanData_pos_iff hagree hsize (by decide) (by decide)).mp hused)).mp
    (hright true 1 (by decide) (by decide) hused)
  revert hlabels
  decide +kernel

end Papiex
