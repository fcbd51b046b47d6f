import Papiex.Lib.Binary32

/-!
# Caliper records

The per-thread records of `papiex_internal.h` and the settings of the library
that the caliper routines read.  The C arrays are total functions on the index;
every routine bounds its index before it uses one.  The 64-bit counters and
clocks are integers, since signed overflow is undefined in the source; the
`float` field `used` is the rational it holds.

## Main results

* `CaliperData`, `PerthreadData`: the records.
* `Config`, `LibpapiexError`: the settings, and the errors that end a program.
-/

namespace Papiex

/-- A C string: its characters, without the terminating NUL. -/
abbrev Text := List Char

/-- `PAPIEX_MAX_CALIPERS`. -/
def maxCalipers : ℕ := 32

/-- `MAX_LABEL_SIZE`, the terminating NUL included. -/
def maxLabelSize : ℕ := 64

/-- `papiex_caliper_data_t`: one caliper point of one thread. -/
structure CaliperData where
  label : Text := []
  used : ℚ := 0
  depth : ℤ := 0
  tmpRealUsec : ℤ := 0
  realUsec : ℤ := 0
  tmpVirtUsec : ℤ := 0
  virtUsec : ℤ := 0
  tmpRealCyc : ℤ := 0
  realCyc : ℤ := 0
  virtCyc : ℤ := 0
  tmpVirtCyc : ℤ := 0
  mpiprof : ℤ := 0
  tmpMpiprof : ℤ := 0
  mpisyncprof : ℤ := 0
  tmpMpisyncprof : ℤ := 0
  ioprof : ℤ := 0
  tmpIoprof : ℤ := 0
  threadsyncprof : ℤ := 0
  tmpThreadsyncprof : ℤ := 0
  tmpCounters : ℕ → ℤ := fun _ => 0
  counters : ℕ → ℤ := fun _ => 0

/-- `struct hsearch_data` as `hcreate_r` and `hsearch_r` use it: the capacity,
zero while the table does not exist, and the entries entered so far. -/
structure HsearchData where
  size : ℕ := 0
  entries : List (Text × ℕ) := []

/-- `papiex_perthread_data_t`.  `papiex_thread_init_routine` clears the record
and sets the number of entries. -/
structure PerthreadData where
  stamp : ℤ := 0
  finish : ℤ := 0
  papiexMpiprof : ℤ := 0
  papiexMpisyncprof : ℤ := 0
  papiexIoprof : ℤ := 0
  papiexThreadsyncprof : ℤ := 0
  maxCaliperEntries : ℕ := maxCalipers
  maxCaliperUsed : ℕ := 0
  htab : HsearchData := {}
  data : ℕ → CaliperData := fun _ => {}

/-- The settings the caliper routines read: the names of the configured events,
the compile-time switch `FULL_CALIPER_DATA`, and the profiling flags. -/
structure Config where
  eventnames : List Text
  fullCaliperData : Bool
  noMpiProf : Bool
  isMpied : Bool
  noIoProf : Bool
  noThreadsyncProf : Bool

/-- `eventcnt`, the number of configured events. -/
def Config.eventcnt (cfg : Config) : ℕ := cfg.eventnames.length

/-- The events `papiex_thread_init_routine` falls back to when none was asked
for; the two flags are the answers of `PAPI_query_event` for `PAPI_FP_OPS` and
`PAPI_FP_INS`. -/
def defaultEvents (fpOps fpIns : Bool) : List Text :=
  ["PAPI_TOT_CYC".toList,
    if fpOps then "PAPI_FP_OPS".toList
    else if fpIns then "PAPI_FP_INS".toList else "PAPI_TOT_INS".toList]

/-- The settings after a thread initialisation has made sure there are events. -/
def Config.withDefaultEvents (fpOps fpIns : Bool) (cfg : Config) : Config :=
  { cfg with eventnames :=
      if cfg.eventnames = [] then defaultEvents fpOps fpIns else cfg.eventnames }

/-- There is always an event, if only by default. -/
theorem Config.eventcnt_withDefaultEvents_pos (fpOps fpIns : Bool) (cfg : Config) :
    0 < (cfg.withDefaultEvents fpOps fpIns).eventcnt := by
  unfold Config.eventcnt Config.withDefaultEvents
  split
  · exact Nat.succ_pos 1
  · exact List.length_pos_iff.mpr ‹_›

/-- Where `LIBPAPIEX_ERROR` leaves the process. -/
inductive LibpapiexError where
  | nullThreadData
  | pointOutOfRange (point : ℤ)
  | pointNotInUse (point : ℤ)
  | pointAlreadyInUse (point : ℤ)
  | functionNotFound (key : Text)
  | hashFull (key : Text)
  deriving DecidableEq

/-- The text `LIBPAPIEX_ERROR` prints after `libpapiex error: `. -/
def LibpapiexError.message : LibpapiexError → String
  | .nullThreadData => "PAPI_get_thr_specific() returned NULL."
  | .pointOutOfRange point => "Caliper point " ++ toString point ++ " is out of range"
  | .pointNotInUse point => "Caliper point " ++ toString point ++ " is not in use"
  | .pointAlreadyInUse point => "Caliper point " ++ toString point ++ " is already in use"
  | .functionNotFound key => "Function 0x" ++ String.ofList key ++ " not found.\n"
  | .hashFull key => "hsearch_r(ENTER," ++ String.ofList key ++ ") failed."

namespace PerthreadData

/-- Overwrite one caliper record. -/
def setCaliper (thread : PerthreadData) (point : ℕ) (record : CaliperData) : PerthreadData :=
  { thread with data := Function.update thread.data point record }

variable (thread : PerthreadData) (point other : ℕ) (record : CaliperData)

@[simp] theorem setCaliper_data_self : (thread.setCaliper point record).data point = record := by
  simp [setCaliper]

theorem setCaliper_data_of_ne (h : other ≠ point) :
    (thread.setCaliper point record).data other = thread.data other := by
  simp [setCaliper, Function.update_of_ne h]

@[simp] theorem setCaliper_maxCaliperEntries :
    (thread.setCaliper point record).maxCaliperEntries = thread.maxCaliperEntries := rfl

@[simp] theorem setCaliper_maxCaliperUsed :
    (thread.setCaliper point record).maxCaliperUsed = thread.maxCaliperUsed := rfl

@[simp] theorem setCaliper_htab : (thread.setCaliper point record).htab = thread.htab := rfl

end PerthreadData

end Papiex
