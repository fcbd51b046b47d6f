import Papiex.Caliper.Record
import Papiex.Lib.Chars

/-!
# The raw count file

What `print_thread_stats` writes for one thread in nextgen mode: the header, and
then the lines of `print_counters`.  Every count is a line of its own, the value
padded to 16 columns, a blank, and the name of the field.  Labels are printed as
they are.

The options that print resource usage and memory information in between are
taken to be off.

## Main results

* `printCounters`: the lines of a thread.
* `headerLines`: the lines in front of them.

## Design notes

A line is printed from a pair of a value and a field, and the pairs of a thread are made
apart from the text (`threadCounts`, `caliperCounts`).  The proofs about readers go by the
pairs, and the text is looked at in one place.  A label may hold a newline, so the outputs
are the calls of `fprintf`, of which one can come to several lines.
-/

namespace Papiex

open Chars

/-- `PAPIEX_MPX_MIN_SAMPLES`. -/
def mpxMinSamples : ℤ := 10

/-- The settings `print_counters` reads.  The wallclock time is the difference of
`proc_fini_time` and `proc_init_time` in microseconds. -/
structure PrintSettings where
  cfg : Config
  multiplex : Bool
  mpxInterval : ℤ
  wallclockUsecs : ℤ

/-! ## Formats -/

/-- `"%-16lld %s"`, one line. -/
def countLine (value : ℤ) (field : Text) : Text := padRight 16 (signed value) ++ ' ' :: field

/-- `"%4.2f"` of the `float` nearest to the number. -/
def fixed2 (x : ℚ) : Text :=
  let hundredths := Binary32.roundHalfEven (Binary32.round x * 100)
  let digits := decimal (hundredths.natAbs / 100) ++
    '.' :: (decimal (hundredths.natAbs / 10 % 10) ++ decimal (hundredths.natAbs % 10))
  let text := if hundredths < 0 then '-' :: digits else digits
  List.replicate (4 - text.length) ' ' ++ text

/-! ## `print_counters` -/

/-- The label a caliper is printed under: its index, if the user set none. -/
def printedLabel (j : ℕ) (record : CaliperData) : Text :=
  if record.label = [] then decimal j else record.label

/-- The configured events with their counts. -/
def eventCounts (cfg : Config) (record : CaliperData) : List (Text × ℤ) :=
  cfg.eventnames.mapIdx fun i name => (name, record.counters i)

/-- The quantities of the whole run of a thread besides the events. -/
def threadClocks (cfg : Config) (thread : PerthreadData) : List (Text × ℤ) :=
  [("Real usecs".toList, (thread.data 0).realUsec),
    ("Real cycles".toList, (thread.data 0).realCyc),
    ("Virtual usecs".toList, (thread.data 0).virtUsec),
    ("Virtual cycles".toList, (thread.data 0).virtCyc)] ++
  (if !cfg.noMpiProf && cfg.isMpied then
    [("MPI cycles".toList, thread.papiexMpiprof),
      ("MPI Sync cycles".toList, thread.papiexMpisyncprof)] else []) ++
  (if !cfg.noIoProf then [("IO cycles".toList, thread.papiexIoprof)] else []) ++
  (if !cfg.noThreadsyncProf then [("Thr Sync cycles".toList, thread.papiexThreadsyncprof)]
    else [])

/-- The quantities of the whole run of a thread, in the order they are printed. -/
def threadCounts (cfg : Config) (thread : PerthreadData) : List (Text × ℤ) :=
  threadClocks cfg thread ++ eventCounts cfg (thread.data 0)

/-- The quantities of one caliper besides the events. -/
def caliperClocks (cfg : Config) (record : CaliperData) : List (Text × ℤ) :=
  [("Measurements".toList, ⌊record.used⌋), ("Real cycles".toList, record.realCyc)] ++
  (if cfg.fullCaliperData then
    [("Real usecs".toList, record.realUsec), ("Virtual usecs".toList, record.virtUsec),
      ("Virtual cycles".toList, record.virtCyc)] ++
    (if !cfg.noMpiProf && cfg.isMpied then
      [("MPI cycles".toList, record.mpiprof), ("MPI Sync cycles".toList, record.mpisyncprof)]
      else []) ++
    (if !cfg.noIoProf then [("IO cycles".toList, record.ioprof)] else []) ++
    (if !cfg.noThreadsyncProf then [("Thr Sync cycles".toList, record.threadsyncprof)] else [])
  else [])

/-- The quantities of one caliper, in the order they are printed. -/
def caliperCounts (cfg : Config) (record : CaliperData) : List (Text × ℤ) :=
  caliperClocks cfg record ++ eventCounts cfg record

/-- The field of a quantity of a caliper. -/
def caliperField (label quantity : Text) : Text := '[' :: label ++ "] ".toList ++ quantity

/-- The line of a quantity of a caliper. -/
def caliperLine (label : Text) (quantity : Text × ℤ) : Text :=
  countLine quantity.2 (caliperField label quantity.1)

/-- The marker of the line that gives the label of a caliper. -/
def labelMarker : Text := "[LABEL] ".toList

/-- The marker of a line about the whole process. -/
def processMarker : Text := "[PROCESS] ".toList

/-- The points of the calipers that have been used. -/
def usedCalipers (thread : PerthreadData) : List ℕ :=
  (List.range thread.maxCaliperEntries).filter fun j =>
    decide (j ≠ 0) && decide (0 < (thread.data j).used)

/-- The lines of one used caliper. -/
def caliperLines (cfg : Config) (thread : PerthreadData) (j : ℕ) : List Text :=
  [] :: countLine j (labelMarker ++ (thread.data j).label) ::
    (caliperCounts cfg (thread.data j)).map (caliperLine (printedLabel j (thread.data j)))

/-- The warning about too few samples with multiplexing. -/
def mpxWarning (settings : PrintSettings) (thread : PerthreadData) : List Text :=
  if settings.multiplex ∧
      (thread.data 0).virtUsec ≤ (1000000 * mpxMinSamples).tdiv settings.mpxInterval then
    [[], "--- WARNING ---".toList,
      "This thread ran for ".toList ++
        fixed2 (Binary32.round (thread.data 0).virtUsec / 1000000) ++
        " secs (CPU time), which is less than the time".toList,
      '(' :: fixed2 (mpxMinSamples / settings.mpxInterval) ++
        " secs) needed to get the minimum ".toList ++ signed mpxMinSamples ++
        " samples. The numbers are suspect.".toList,
      "Try the run without multiplex (without -a and -m) or increase the multiplex".toList,
      "frequency. You can increase the frequency from the current ".toList ++
        signed settings.mpxInterval ++ " by specifying".toList,
      "-m<interval> to get more samples.".toList, []]
  else []

/-- The line about the whole process. -/
def wallclockLine (settings : PrintSettings) : Text :=
  countLine settings.wallclockUsecs (processMarker ++ "Wallclock usecs".toList)

/-- The outputs of `print_counters` in nextgen mode, each of them ended by a
newline.  A label with a newline makes more than one line of one output. -/
def counterOutputs (settings : PrintSettings) (thread : PerthreadData) : List Text :=
  mpxWarning settings thread ++ wallclockLine settings ::
    (threadCounts settings.cfg thread).map (fun count => countLine count.2 count.1) ++
    (usedCalipers thread).flatMap (caliperLines settings.cfg thread)

/-- `print_counters` in nextgen mode. -/
def printCounters (settings : PrintSettings) (thread : PerthreadData) : Text :=
  unlines (counterOutputs settings thread)

/-! ## `print_thread_stats` -/

/-- What `print_executable_info` prints. -/
structure ExecutableInfo where
  version : Text
  build : Text
  executable : Text
  arguments : Text
  processor : Text
  clockrate : Text
  hostname : Text
  options : Text
  domain : Text
  parentPid : ℕ
  pid : ℕ

/-- `"%-30s: %s"`, one line. -/
def infoLine (name value : Text) : Text := padRight 30 name ++ ": ".toList ++ value

/-- `print_executable_info`. -/
def executableInfoLines (info : ExecutableInfo) : List Text :=
  [infoLine "papiex version".toList info.version,
    infoLine "papiex build".toList info.build,
    infoLine "Executable".toList info.executable,
    infoLine "Arguments".toList info.arguments,
    infoLine "Processor".toList info.processor,
    infoLine "Clockrate (MHz)".toList info.clockrate,
    infoLine "Hostname".toList info.hostname,
    infoLine "Options".toList info.options,
    infoLine "Domain".toList info.domain,
    infoLine "Parent process id".toList (decimal info.parentPid),
    infoLine "Process id".toList (decimal info.pid)]

/-- The header `print_thread_stats` writes when it is not quiet: the rank in an MPI
program, the thread id in a threaded one, and the two times. -/
def headerLines (info : ExecutableInfo) (rank tid : Option ℕ) (start finish : Text) :
    List Text :=
  executableInfoLines info ++
    (rank.map fun rank => infoLine "Mpi Rank".toList (decimal rank)).toList ++
    (tid.map fun tid => infoLine "Thread id".toList (decimal tid)).toList ++
    [infoLine "Start".toList start, infoLine "Finish".toList finish, []]

end Papiex
