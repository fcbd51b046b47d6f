import Papiex.Classic.Sums

/-!
# The summary of classic mode

`print_process_stats` takes the mean, the least and the greatest value and the standard
deviation of every quantity over the threads of a process, each in a pass of its own.
The records of the passes start as zero.  Calipers that a thread has not used are
skipped, but by the mean they are not: it divides the sum by the number of threads.

The sums of squares are `double` in the source; here they are the integers that they
would be without rounding.

## Main results

* `meanData`, `minData`, `maxData`, `stddevData`: the four passes.

## Design notes

The four passes follow one pattern, and so do the groups of assignments in each of them:
the clocks and counters of the whole run, those of the calipers that were used, and the
quantities of the profiling wrappers as far as these are on.  Each group is a function with
the operation as an argument.  The pass for the extremes is one definition, which is given
`min` or `max`; what the two have in common is proved once (`IsPick` in the next module).
-/

namespace Papiex

/-- The counters of the configured events. -/
def limitCounters (cfg : Config) (counters : ℕ → ℤ) : ℕ → ℤ :=
  fun k => if k < cfg.eventcnt then counters k else 0

/-- The counters of the configured events, two records taken together. -/
def combineCounters (cfg : Config) (combine : ℤ → ℤ → ℤ) (left right : ℕ → ℤ) : ℕ → ℤ :=
  fun k => if k < cfg.eventcnt then combine (left k) (right k) else left k

/-- The conversion of a `float` to `long long`. -/
def truncate (x : ℚ) : ℤ := if 0 ≤ x then ⌊x⌋ else ⌈x⌉

/-- The records of a summary: the one of the whole run and those of the calipers. -/
def summaryRecords (whole : CaliperData) (caliper : ℕ → CaliperData) (j : ℕ) : CaliperData :=
  if j = 0 then whole else if j < maxCalipers then caliper j else {}

theorem summaryRecords_caliper {whole : CaliperData} {caliper : ℕ → CaliperData} {j : ℕ}
    (hj : j ≠ 0) (hlt : j < maxCalipers) : summaryRecords whole caliper j = caliper j := by
  rw [summaryRecords, if_neg hj, if_pos hlt]

/-! ## The mean -/

/-- The quantities of the profiling wrappers divided by the number of threads, as far as
they are on. -/
def divideProfiling (cfg : Config) (nthreads : ℕ) (mean sums : CaliperData) : CaliperData :=
  let mpied := if !cfg.noMpiProf && cfg.isMpied then
      { mean with mpiprof := sums.mpiprof.tdiv nthreads
                  mpisyncprof := sums.mpisyncprof.tdiv nthreads }
    else mean
  let ioed := if !cfg.noIoProf then { mpied with ioprof := sums.ioprof.tdiv nthreads } else mpied
  if !cfg.noThreadsyncProf then
    { ioed with threadsyncprof := sums.threadsyncprof.tdiv nthreads }
  else ioed

section

variable (cfg : Config) (nthreads : ℕ) (mean sums : CaliperData)

@[simp] theorem divideProfiling_label :
    (divideProfiling cfg nthreads mean sums).label = mean.label := by
  simp only [divideProfiling]
  split_ifs <;> rfl

@[simp] theorem divideProfiling_used :
    (divideProfiling cfg nthreads mean sums).used = mean.used := by
  simp only [divideProfiling]
  split_ifs <;> rfl

@[simp] theorem divideProfiling_counters :
    (divideProfiling cfg nthreads mean sums).counters = mean.counters := by
  simp only [divideProfiling]
  split_ifs <;> rfl

end

/-- The mean of the whole run. -/
def meanWhole (cfg : Config) (nthreads : ℕ) (sums : CaliperData) : CaliperData :=
  divideProfiling cfg nthreads
    { used := Binary32.round (sums.used / nthreads)
      realUsec := sums.realUsec.tdiv nthreads
      realCyc := sums.realCyc.tdiv nthreads
      virtUsec := sums.virtUsec.tdiv nthreads
      virtCyc := sums.virtCyc.tdiv nthreads
      counters := limitCounters cfg fun k => (sums.counters k).tdiv nthreads } sums

/-- The mean of a caliper.  The label is copied if it is empty. -/
def meanCaliper (cfg : Config) (nthreads : ℕ) (sums : CaliperData) : CaliperData :=
  if 0 < sums.used then
    let basic : CaliperData :=
      { label := if sums.label.length = 0 then sums.label else []
        used := Binary32.round (sums.used / nthreads)
        realCyc := sums.realCyc.tdiv nthreads
        counters := limitCounters cfg fun k => (sums.counters k).tdiv nthreads }
    if cfg.fullCaliperData then
      divideProfiling cfg nthreads
        { basic with realUsec := sums.realUsec.tdiv nthreads
                     virtUsec := sums.virtUsec.tdiv nthreads
                     virtCyc := sums.virtCyc.tdiv nthreads } sums
    else basic
  else {}

/-- What the mean of a caliper holds. -/
theorem meanCaliper_eq (cfg : Config) (nthreads : ℕ) {sums : CaliperData} (hused : 0 < sums.used) :
    (meanCaliper cfg nthreads sums).label = (if sums.label.length = 0 then sums.label else []) ∧
      (meanCaliper cfg nthreads sums).used = Binary32.round (sums.used / nthreads) ∧
      (meanCaliper cfg nthreads sums).counters =
        limitCounters cfg fun k => (sums.counters k).tdiv nthreads := by
  rw [meanCaliper, if_pos hused]
  dsimp only
  split <;> simp

/-- `mean_data`. -/
def meanData (cfg : Config) (threads : List PerthreadData) : PerthreadData :=
  let sums := processDataSums cfg threads
  let n := threads.length
  let mpied := !cfg.noMpiProf && cfg.isMpied
  { maxCaliperEntries := 0
    papiexMpiprof := if mpied then sums.papiexMpiprof.tdiv n else 0
    papiexMpisyncprof := if mpied then sums.papiexMpisyncprof.tdiv n else 0
    papiexIoprof := if !cfg.noIoProf then sums.papiexIoprof.tdiv n else 0
    papiexThreadsyncprof := if !cfg.noThreadsyncProf then sums.papiexThreadsyncprof.tdiv n else 0
    data :=
      summaryRecords (meanWhole cfg n (sums.data 0)) fun j => meanCaliper cfg n (sums.data j) }

theorem meanData_data (cfg : Config) (threads : List PerthreadData) :
    (meanData cfg threads).data =
      summaryRecords (meanWhole cfg threads.length ((processDataSums cfg threads).data 0)) fun j =>
        meanCaliper cfg threads.length ((processDataSums cfg threads).data j) := rfl

/-! ## The least and the greatest values -/

/-- The quantities of the profiling wrappers, two summaries taken together. -/
def combineProfiling (cfg : Config) (combine : ℤ → ℤ → ℤ) (left right : PerthreadData)
    (data : ℕ → CaliperData) : PerthreadData :=
  let mpied := !cfg.noMpiProf && cfg.isMpied
  { maxCaliperEntries := 0
    papiexMpiprof :=
      if mpied then combine left.papiexMpiprof right.papiexMpiprof else left.papiexMpiprof
    papiexMpisyncprof :=
      if mpied then combine left.papiexMpisyncprof right.papiexMpisyncprof
      else left.papiexMpisyncprof
    papiexIoprof :=
      if !cfg.noIoProf then combine left.papiexIoprof right.papiexIoprof else left.papiexIoprof
    papiexThreadsyncprof :=
      if !cfg.noThreadsyncProf then combine left.papiexThreadsyncprof right.papiexThreadsyncprof
      else left.papiexThreadsyncprof
    data }

@[simp] theorem combineProfiling_data (cfg : Config) (combine : ℤ → ℤ → ℤ)
    (left right : PerthreadData) (data : ℕ → CaliperData) :
    (combineProfiling cfg combine left right data).data = data := rfl

/-- The clocks and the counters of the whole run, two records taken together. -/
def combineWhole (cfg : Config) (combine : ℤ → ℤ → ℤ) (left right : CaliperData) : CaliperData :=
  { left with
    realUsec := combine left.realUsec right.realUsec
    realCyc := combine left.realCyc right.realCyc
    virtUsec := combine left.virtUsec right.virtUsec
    virtCyc := combine left.virtCyc right.virtCyc
    counters := combineCounters cfg combine left.counters right.counters }

/-- The clocks and the counters of a caliper, two records taken together. -/
def combineCaliper (cfg : Config) (combine : ℤ → ℤ → ℤ) (left right : CaliperData) : CaliperData :=
  let basic :=
    { left with
      realCyc := combine left.realCyc right.realCyc
      counters := combineCounters cfg combine left.counters right.counters }
  if cfg.fullCaliperData then
    { basic with realUsec := combine left.realUsec right.realUsec
                 virtUsec := combine left.virtUsec right.virtUsec
                 virtCyc := combine left.virtCyc right.virtCyc }
  else basic

/-- The second of two values. -/
def second (_ right : ℤ) : ℤ := right

/-- A caliper of the first thread is copied if it has been used. -/
def copyCaliper (cfg : Config) (record : CaliperData) : CaliperData :=
  if 0 < record.used then { combineCaliper cfg second {} record with used := record.used } else {}

/-- A caliper of a later thread is compared if it has been used.  `min` and `max` are
functions of two `long long`. -/
def compareCaliper (cfg : Config) (pick : ℤ → ℤ → ℤ) (extreme record : CaliperData) : CaliperData :=
  if 0 < record.used then
    { combineCaliper cfg pick extreme record with
      used := Binary32.round (pick (truncate extreme.used) (truncate record.used)) }
  else extreme

/-- The first thread is copied. -/
def copyThread (cfg : Config) (thread : PerthreadData) : PerthreadData :=
  combineProfiling cfg second {} thread
    (summaryRecords (combineWhole cfg second {} (thread.data 0)) fun j =>
      copyCaliper cfg (thread.data j))

/-- A later thread is compared. -/
def compareThread (cfg : Config) (pick : ℤ → ℤ → ℤ) (extremes thread : PerthreadData) :
    PerthreadData :=
  combineProfiling cfg pick extremes thread
    (summaryRecords (combineWhole cfg pick (extremes.data 0) (thread.data 0)) fun j =>
      compareCaliper cfg pick (extremes.data j) (thread.data j))

/-- The pass for the least or the greatest values. -/
def extremeData (cfg : Config) (pick : ℤ → ℤ → ℤ) : List PerthreadData → PerthreadData
  | [] => { maxCaliperEntries := 0 }
  | first :: rest => rest.foldl (compareThread cfg pick) (copyThread cfg first)

/-- `min_data`. -/
def minData (cfg : Config) : List PerthreadData → PerthreadData := extremeData cfg min

/-- `max_data`. -/
def maxData (cfg : Config) : List PerthreadData → PerthreadData := extremeData cfg max

/-! ## The standard deviation -/

/-- `sqdiff_ll`. -/
def sqdiffLl (arg1 arg2 : ℤ) : ℤ := (arg1 - arg2) ^ 2

/-- The squared difference of a value to the mean is added. -/
def addSqdiff (mean sum val : ℤ) : ℤ := sum + sqdiffLl mean val

/-- The squared differences of the counters. -/
def squareCounters (cfg : Config) (mean sums counters : ℕ → ℤ) : ℕ → ℤ :=
  fun k => if k < cfg.eventcnt then addSqdiff (mean k) (sums k) (counters k) else sums k

/-- The squared differences of the whole run. -/
def squareWhole (cfg : Config) (mean sums record : CaliperData) : CaliperData :=
  { sums with
    realCyc := addSqdiff mean.realCyc sums.realCyc record.realCyc
    realUsec := addSqdiff mean.realUsec sums.realUsec record.realUsec
    virtUsec := addSqdiff mean.virtUsec sums.virtUsec record.virtUsec
    virtCyc := addSqdiff mean.virtCyc sums.virtCyc record.virtCyc
    counters := squareCounters cfg mean.counters sums.counters record.counters }

/-- The squared differences of a caliper, if the thread has used it.  Its `used` is a
`float`. -/
def squareCaliper (cfg : Config) (mean sums record : CaliperData) : CaliperData :=
  if 0 < record.used then
    let basic :=
      { sums with
        used := Binary32.round (sums.used + sqdiffLl (truncate mean.used) (truncate record.used))
        realCyc := addSqdiff mean.realCyc sums.realCyc record.realCyc
        counters := squareCounters cfg mean.counters sums.counters record.counters }
    if cfg.fullCaliperData then
      { basic with realUsec := addSqdiff mean.realUsec sums.realUsec record.realUsec
                   virtUsec := addSqdiff mean.virtUsec sums.virtUsec record.virtUsec
                   virtCyc := addSqdiff mean.virtCyc sums.virtCyc record.virtCyc }
    else basic
  else sums

/-- One turn of the loop over the threads. -/
def squareThread (cfg : Config) (mean sums thread : PerthreadData) : PerthreadData :=
  let mpied := !cfg.noMpiProf && cfg.isMpied
  { maxCaliperEntries := 0
    papiexMpiprof :=
      if mpied then addSqdiff mean.papiexMpiprof sums.papiexMpiprof thread.papiexMpiprof
      else sums.papiexMpiprof
    papiexMpisyncprof :=
      if mpied then
        addSqdiff mean.papiexMpisyncprof sums.papiexMpisyncprof thread.papiexMpisyncprof
      else sums.papiexMpisyncprof
    papiexIoprof :=
      if !cfg.noIoProf then addSqdiff mean.papiexIoprof sums.papiexIoprof thread.papiexIoprof
      else sums.papiexIoprof
    papiexThreadsyncprof :=
      if !cfg.noThreadsyncProf then
        addSqdiff mean.papiexThreadsyncprof sums.papiexThreadsyncprof thread.papiexThreadsyncprof
      else sums.papiexThreadsyncprof
    data := summaryRecords (squareWhole cfg (mean.data 0) (sums.data 0) (thread.data 0)) fun j =>
      squareCaliper cfg (mean.data j) (sums.data j) (thread.data j) }

/-- `squared_sums`. -/
def squaredSums (cfg : Config) (threads : List PerthreadData) : PerthreadData :=
  threads.foldl (squareThread cfg (meanData cfg threads)) { maxCaliperEntries := 0 }

/-- `(long long) sqrt(squares / (double)nthreads)`. -/
def stddevOf (nthreads : ℕ) (squares : ℤ) : ℤ := Nat.sqrt (squares.toNat / nthreads)

/-- The standard deviation of the whole run. -/
def stddevWhole (cfg : Config) (nthreads : ℕ) (squares : CaliperData) : CaliperData where
  realUsec := stddevOf nthreads squares.realUsec
  realCyc := stddevOf nthreads squares.realCyc
  virtUsec := stddevOf nthreads squares.virtUsec
  virtCyc := stddevOf nthreads squares.virtCyc
  counters := limitCounters cfg fun k => stddevOf nthreads (squares.counters k)

/-- The standard deviation of a caliper.  Its `used`, which nothing reads, is left out. -/
def stddevCaliper (cfg : Config) (nthreads : ℕ) (squares : CaliperData) : CaliperData :=
  if 0 < squares.used then
    let basic : CaliperData :=
      { realCyc := stddevOf nthreads squares.realCyc
        counters := limitCounters cfg fun k => stddevOf nthreads (squares.counters k) }
    if cfg.fullCaliperData then
      { basic with realUsec := stddevOf nthreads squares.realUsec
                   virtUsec := stddevOf nthreads squares.virtUsec
                   virtCyc := stddevOf nthreads squares.virtCyc }
    else basic
  else {}

/-- `stddev_data`. -/
def stddevData (cfg : Config) (threads : List PerthreadData) : PerthreadData :=
  let squares := squaredSums cfg threads
  let n := threads.length
  let mpied := !cfg.noMpiProf && cfg.isMpied
  { maxCaliperEntries := 0
    papiexMpiprof := if mpied then stddevOf n squares.papiexMpiprof else 0
    papiexMpisyncprof := if mpied then stddevOf n squares.papiexMpisyncprof else 0
    papiexIoprof := if !cfg.noIoProf then stddevOf n squares.papiexIoprof else 0
    papiexThreadsyncprof :=
      if !cfg.noThreadsyncProf then stddevOf n squares.papiexThreadsyncprof else 0
    data := summaryRecords (stddevWhole cfg n (squares.data 0)) fun j =>
      stddevCaliper cfg n (squares.data j) }

theorem squareThread_data (cfg : Config) (mean sums thread : PerthreadData) :
    (squareThread cfg mean sums thread).data =
      summaryRecords (squareWhole cfg (mean.data 0) (sums.data 0) (thread.data 0)) fun j =>
        squareCaliper cfg (mean.data j) (sums.data j) (thread.data j) := rfl

theorem stddevData_data (cfg : Config) (threads : List PerthreadData) :
    (stddevData cfg threads).data =
      summaryRecords (stddevWhole cfg threads.length ((squaredSums cfg threads).data 0)) fun j =>
        stddevCaliper cfg threads.length ((squaredSums cfg threads).data j) := rfl

end Papiex
