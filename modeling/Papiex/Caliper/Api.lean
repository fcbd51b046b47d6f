import Papiex.Caliper.Record
import Papiex.Lib.FallibleRun

/-!
# `papiex_start`, `papiex_accum` and `papiex_stop`

The three calls of the caliper interface, as the library executes them on the
record of the calling thread.  What a call takes from outside is in its
`Sampling`: what `PAPI_read_ts` did, the clocks, and what the stack held in the
uninitialised locals `counters[]` and `real_cyc`.

The checks come in the order of the source.  In particular a point beyond the
table is only reported to the debug log, while a negative point, a start of an
open point and an accum or stop of a closed one end the process.

## Main results

* `papiexStart`, `papiexAccum`, `papiexStop`: the calls, with what PAPI and the clocks return.
* `Call.exec_eq_ok_iff`: what a call can do that does not end the program.
* `Call.apply_data_of_ne`: it leaves the records of the other points alone.

## Design notes

The three routines have one frame.  Without events nothing happens; the record of the
thread has to be there; a point may not be below the lowest one, and one beyond the table
is let pass; then the depth of the point decides.  The frame is `callOnPoint`, and what
differs between the routines is its arguments.  What a call does to a record is written
apart from the checks (`start`, `accum`, `stop`), a group of statements at a time.

A read of the counters can succeed, fail, or be skipped with `PAPI_OK` in the status.  Each
outcome says what is in the locals afterwards, since the code goes on with them.
-/

namespace Papiex

/-- A pair of buffers `PAPI_read_ts` fills: the counters and the cycle clock. -/
structure ReadBuffer where
  counters : ℕ → ℤ
  realCyc : ℤ

/-- What became of the read of a call: it succeeded with these values, it
returned an error, or the zero-counts workaround skipped it. -/
inductive Read where
  | done (counters : ℕ → ℤ) (realCyc : ℤ)
  | failed
  | skipped

/-- What the read leaves in a buffer.  `PAPI_read_ts` writes one counter for
each configured event, and nothing when it fails. -/
def Read.into (eventcnt : ℕ) : Read → ReadBuffer → ReadBuffer
  | .done counters realCyc, buffer =>
      ⟨fun i => if i < eventcnt then counters i else buffer.counters i, realCyc⟩
  | .failed, buffer => buffer
  | .skipped, buffer => buffer

/-- `retval == PAPI_OK` after the read.  A skipped read leaves the `PAPI_OK` of
`PAPI_get_thr_specific` in `retval`. -/
def Read.retvalOk : Read → Bool
  | .done _ _ => true
  | .failed => false
  | .skipped => true

/-- What one call takes from outside the records. -/
structure Sampling where
  read : Read
  locals : ReadBuffer
  realUsec : ℤ
  virtUsec : ℤ
  virtCyc : ℤ

/-- The locals `counters[]` and `real_cyc` of `papiex_stop` and `papiex_accum`
once the read is over. -/
def Sampling.buffer (cfg : Config) (io : Sampling) : ReadBuffer :=
  io.read.into cfg.eventcnt io.locals

/-! ## The record updates -/

namespace CaliperData

/-- The label after a start: `strncpy` into an empty label, for a non-zero point
with a label given. -/
def keptLabel (point : ℕ) (label : Option Text) (old : Text) : Text :=
  match label with
  | none => old
  | some label => if point ≠ 0 ∧ old = [] then label.take (maxLabelSize - 1) else old

/-- The baselines other than the counters that `papiex_start` takes. -/
def takeClocks (cfg : Config) (thread : PerthreadData) (point : ℕ) (io : Sampling)
    (record : CaliperData) : CaliperData :=
  if cfg.fullCaliperData ∨ point = 0 then
    { record with
      tmpVirtUsec := io.virtUsec
      tmpRealUsec := io.realUsec
      tmpVirtCyc := io.virtCyc
      tmpMpiprof :=
        if !cfg.noMpiProf && cfg.isMpied then thread.papiexMpiprof else record.tmpMpiprof
      tmpMpisyncprof :=
        if !cfg.noMpiProf && cfg.isMpied then thread.papiexMpisyncprof
        else record.tmpMpisyncprof
      tmpIoprof := if !cfg.noIoProf then thread.papiexIoprof else record.tmpIoprof
      tmpThreadsyncprof :=
        if !cfg.noThreadsyncProf then thread.papiexThreadsyncprof
        else record.tmpThreadsyncprof }
  else record

/-- The read of `papiex_start` goes straight into the baselines. -/
def takeBase (cfg : Config) (io : Sampling) (record : CaliperData) : CaliperData :=
  let buffer := io.read.into cfg.eventcnt ⟨record.tmpCounters, record.tmpRealCyc⟩
  { record with tmpCounters := buffer.counters, tmpRealCyc := buffer.realCyc }

/-- `papiex_start` on an admissible point. -/
def start (cfg : Config) (thread : PerthreadData) (point : ℕ) (label : Option Text)
    (io : Sampling) (record : CaliperData) : CaliperData :=
  takeBase cfg io (takeClocks cfg thread point io
    { record with
      depth := record.depth + 1
      label := keptLabel point label record.label })

/-- One more completed execution; `used` is a `float`. -/
def countUse (record : CaliperData) : CaliperData :=
  { record with used := Binary32.round (record.used + 1) }

/-- The counters and the cycles of a stop: the baselines stay. -/
def addCounters (cfg : Config) (buffer : ReadBuffer) (record : CaliperData) : CaliperData :=
  { record with counters := fun i =>
      if i < cfg.eventcnt then
        record.counters i + (buffer.counters i - record.tmpCounters i)
      else record.counters i }

/-- What a stop adds of the other clocks. -/
def addClocks (cfg : Config) (thread : PerthreadData) (io : Sampling)
    (record : CaliperData) : CaliperData :=
  { record with
    realUsec := record.realUsec + (io.realUsec - record.tmpRealUsec)
    virtUsec := record.virtUsec + (io.virtUsec - record.tmpVirtUsec)
    virtCyc := record.virtCyc + (io.virtCyc - record.tmpVirtCyc)
    mpiprof :=
      if !cfg.noMpiProf && cfg.isMpied then
        record.mpiprof + (thread.papiexMpiprof - record.tmpMpiprof)
      else record.mpiprof
    mpisyncprof :=
      if !cfg.noMpiProf && cfg.isMpied then
        record.mpisyncprof + (thread.papiexMpisyncprof - record.tmpMpisyncprof)
      else record.mpisyncprof
    ioprof :=
      if !cfg.noIoProf then record.ioprof + (thread.papiexIoprof - record.tmpIoprof)
      else record.ioprof
    threadsyncprof :=
      if !cfg.noThreadsyncProf then
        record.threadsyncprof + (thread.papiexThreadsyncprof - record.tmpThreadsyncprof)
      else record.threadsyncprof }

/-- `papiex_stop` on an open point. -/
def stop (cfg : Config) (thread : PerthreadData) (point : ℕ) (io : Sampling)
    (record : CaliperData) : CaliperData :=
  let buffer := io.buffer cfg
  let closed : CaliperData :=
    countUse { record with
      depth := record.depth - 1
      realCyc := record.realCyc + (buffer.realCyc - record.tmpRealCyc) }
  if io.read.retvalOk then
    let counted := addCounters cfg buffer closed
    if cfg.fullCaliperData ∨ point = 0 then addClocks cfg thread io counted else counted
  else closed

/-- Re-base the counters an accum has just added. -/
def rebaseCounters (cfg : Config) (buffer : ReadBuffer) (record : CaliperData) :
    CaliperData :=
  { record with tmpCounters := fun i =>
      if i < cfg.eventcnt then buffer.counters i else record.tmpCounters i }

/-- What an accum adds of the other clocks, re-basing them.  The profiled times
are left to the stop. -/
def accumClocks (io : Sampling) (record : CaliperData) : CaliperData :=
  { record with
    realUsec := record.realUsec + (io.realUsec - record.tmpRealUsec)
    tmpRealUsec := io.realUsec
    virtUsec := record.virtUsec + (io.virtUsec - record.tmpVirtUsec)
    tmpVirtUsec := io.virtUsec
    virtCyc := record.virtCyc + (io.virtCyc - record.tmpVirtCyc)
    tmpVirtCyc := io.virtCyc }

/-- `papiex_accum` on an open point. -/
def accum (cfg : Config) (point : ℕ) (io : Sampling) (record : CaliperData) : CaliperData :=
  let buffer := io.buffer cfg
  let based : CaliperData :=
    { countUse record with
      realCyc := record.realCyc + (buffer.realCyc - record.tmpRealCyc)
      tmpRealCyc := buffer.realCyc }
  if io.read.retvalOk then
    let counted := rebaseCounters cfg buffer (addCounters cfg buffer based)
    if cfg.fullCaliperData ∨ point = 0 then accumClocks io counted else counted
  else based

end CaliperData

/-! ## The three calls -/

/-- The frame the three calls share.  Without events a call returns at once, and
without a record of the calling thread it is fatal.  Then a point below
`lowest` is fatal, a point beyond the table is left alone, and the record of
the point either refuses the call, which is fatal, or is updated. -/
def callOnPoint (cfg : Config) (tls : Option PerthreadData) (lowest point : ℤ)
    (refuses : CaliperData → Bool) (fatal : LibpapiexError)
    (update : PerthreadData → PerthreadData) :
    Except LibpapiexError (Option PerthreadData) :=
  if cfg.eventcnt = 0 then .ok tls
  else
    match tls with
    | none => .error .nullThreadData
    | some thread =>
        if point < lowest then .error (.pointOutOfRange point)
        else if thread.maxCaliperEntries ≤ point.toNat then .ok (some thread)
        else if refuses (thread.data point.toNat) then .error fatal
        else .ok (some (update thread))

/-- What an admitted `papiex_start` does to the thread's record. -/
def PerthreadData.startPoint (cfg : Config) (point : ℕ) (label : Option Text)
    (io : Sampling) (thread : PerthreadData) : PerthreadData :=
  { thread.setCaliper point
      (CaliperData.start cfg thread point label io (thread.data point)) with
    maxCaliperUsed := max thread.maxCaliperUsed point }

/-- What an admitted `papiex_stop` does to the thread's record. -/
def PerthreadData.stopPoint (cfg : Config) (point : ℕ) (io : Sampling)
    (thread : PerthreadData) : PerthreadData :=
  thread.setCaliper point (CaliperData.stop cfg thread point io (thread.data point))

/-- What an admitted `papiex_accum` does to the thread's record. -/
def PerthreadData.accumPoint (cfg : Config) (point : ℕ) (io : Sampling)
    (thread : PerthreadData) : PerthreadData :=
  thread.setCaliper point (CaliperData.accum cfg point io (thread.data point))

/-- `papiex_start`. -/
def papiexStart (cfg : Config) (tls : Option PerthreadData) (point : ℤ)
    (label : Option Text) (io : Sampling) : Except LibpapiexError (Option PerthreadData) :=
  callOnPoint cfg tls 0 point (fun record => record.depth ≠ 0) (.pointAlreadyInUse point)
    (PerthreadData.startPoint cfg point.toNat label io)

/-- `papiex_stop`. -/
def papiexStop (cfg : Config) (tls : Option PerthreadData) (point : ℤ) (io : Sampling) :
    Except LibpapiexError (Option PerthreadData) :=
  callOnPoint cfg tls 0 point (fun record => record.depth = 0) (.pointNotInUse point)
    (PerthreadData.stopPoint cfg point.toNat io)

/-- `papiex_accum`, which is never called on point 0. -/
def papiexAccum (cfg : Config) (tls : Option PerthreadData) (point : ℤ) (io : Sampling) :
    Except LibpapiexError (Option PerthreadData) :=
  callOnPoint cfg tls 1 point (fun record => record.depth = 0) (.pointNotInUse point)
    (PerthreadData.accumPoint cfg point.toNat io)

/-- A call of the caliper interface with what it samples. -/
inductive Call where
  | start (point : ℤ) (label : Option Text) (io : Sampling)
  | accum (point : ℤ) (io : Sampling)
  | stop (point : ℤ) (io : Sampling)

namespace Call

/-- The point a call names. -/
def point : Call → ℤ
  | .start point _ _ => point
  | .accum point _ => point
  | .stop point _ => point

/-- What a call samples. -/
def io : Call → Sampling
  | .start _ _ io => io
  | .accum _ io => io
  | .stop _ io => io

/-- The lowest point a call takes. -/
def lowest : Call → ℤ
  | .start _ _ _ => 0
  | .accum _ _ => 1
  | .stop _ _ => 0

theorem lowest_nonneg (call : Call) : 0 ≤ call.lowest := by
  cases call <;> simp [lowest]

/-- Execute a call on the record of the calling thread. -/
def exec (cfg : Config) (tls : Option PerthreadData) :
    Call → Except LibpapiexError (Option PerthreadData)
  | .start point label io => papiexStart cfg tls point label io
  | .accum point io => papiexAccum cfg tls point io
  | .stop point io => papiexStop cfg tls point io

/-- The record of the call's point does not refuse it: a start wants it closed,
the other two want it open. -/
def Admits (record : CaliperData) : Call → Prop
  | .start _ _ _ => record.depth = 0
  | .accum _ _ => record.depth ≠ 0
  | .stop _ _ => record.depth ≠ 0

/-- The effect of an admitted call. -/
def apply (cfg : Config) (thread : PerthreadData) : Call → PerthreadData
  | .start point label io => thread.startPoint cfg point.toNat label io
  | .accum point io => thread.accumPoint cfg point.toNat io
  | .stop point io => thread.stopPoint cfg point.toNat io

end Call

/-! ## What one call can do -/

section Spec

variable {cfg : Config} {thread : PerthreadData} {tls' : Option PerthreadData}

/-- **What a call on a point can do**: it ignores a point past the table, and otherwise updates
the record that does not refuse it. -/
theorem callOnPoint_eq_ok_iff (hev : cfg.eventcnt ≠ 0) {lowest point : ℤ}
    {refuses : CaliperData → Bool} {fatal : LibpapiexError}
    {update : PerthreadData → PerthreadData} :
    callOnPoint cfg (some thread) lowest point refuses fatal update = .ok tls' ↔
      lowest ≤ point ∧
        (thread.maxCaliperEntries ≤ point.toNat ∧ tls' = some thread ∨
          point.toNat < thread.maxCaliperEntries ∧
            refuses (thread.data point.toNat) = false ∧ tls' = some (update thread)) := by
  unfold callOnPoint
  simp only [hev, if_false]
  by_cases hlow : point < lowest
  · simp [hlow]
  by_cases hbeyond : thread.maxCaliperEntries ≤ point.toNat
  · simp [hlow, hbeyond, not_lt.mp hlow, not_lt.mpr hbeyond, @eq_comm _ (some thread)]
  · cases href : refuses (thread.data point.toNat) with
    | true => simp [hlow, hbeyond]
    | false =>
        simp [hlow, hbeyond, not_lt.mp hlow, not_le.mp hbeyond,
          @eq_comm _ (some (update thread))]

/-- **What a surviving call can do.**  Its point is not below the lowest one the
call takes; beyond the table nothing happens; and inside it the record of the
point admitted the call and has taken its effect. -/
theorem Call.exec_eq_ok_iff (hev : cfg.eventcnt ≠ 0) {call : Call} :
    call.exec cfg (some thread) = .ok tls' ↔
      call.lowest ≤ call.point ∧
        (thread.maxCaliperEntries ≤ call.point.toNat ∧ tls' = some thread ∨
          call.point.toNat < thread.maxCaliperEntries ∧
            call.Admits (thread.data call.point.toNat) ∧
              tls' = some (call.apply cfg thread)) := by
  cases call with
  | start point label io =>
      unfold exec
      refine (callOnPoint_eq_ok_iff hev).trans ?_
      simp [lowest, Call.point, Admits, apply]
  | accum point io =>
      unfold exec
      refine (callOnPoint_eq_ok_iff hev).trans ?_
      simp [lowest, Call.point, Admits, apply]
  | stop point io =>
      unfold exec
      refine (callOnPoint_eq_ok_iff hev).trans ?_
      simp [lowest, Call.point, Admits, apply]

/-- A surviving call keeps a record in place. -/
theorem Call.exec_isSome (hev : cfg.eventcnt ≠ 0) {call : Call}
    (h : call.exec cfg (some thread) = .ok tls') : ∃ thread', tls' = some thread' := by
  obtain ⟨-, ⟨-, rfl⟩ | ⟨-, -, rfl⟩⟩ := (exec_eq_ok_iff hev).mp h
  · exact ⟨thread, rfl⟩
  · exact ⟨_, rfl⟩

/-! ### A point of the table -/

variable {point : ℕ} {label : Option Text} {io : Sampling}

theorem papiexStart_of_closed (hev : cfg.eventcnt ≠ 0) (hpoint : point < thread.maxCaliperEntries)
    (hdepth : (thread.data point).depth = 0) :
    papiexStart cfg (some thread) point label io =
      .ok (some (thread.startPoint cfg point label io)) := by
  rw [papiexStart, callOnPoint_eq_ok_iff hev]
  exact ⟨Int.natCast_nonneg point, .inr ⟨hpoint, by simpa using hdepth, rfl⟩⟩

theorem papiexStop_of_open (hev : cfg.eventcnt ≠ 0) (hpoint : point < thread.maxCaliperEntries)
    (hdepth : (thread.data point).depth ≠ 0) :
    papiexStop cfg (some thread) point io = .ok (some (thread.stopPoint cfg point io)) := by
  rw [papiexStop, callOnPoint_eq_ok_iff hev]
  exact ⟨Int.natCast_nonneg point, .inr ⟨hpoint, by simpa using hdepth, rfl⟩⟩

/-- A point that is open is not started once more. -/
theorem papiexStart_of_open (hev : cfg.eventcnt ≠ 0) (hpoint : point < thread.maxCaliperEntries)
    (hdepth : (thread.data point).depth ≠ 0) :
    papiexStart cfg (some thread) point label io = .error (.pointAlreadyInUse point) := by
  have hnot : ¬ thread.maxCaliperEntries ≤ point := not_le.mpr hpoint
  simp [papiexStart, callOnPoint, hev, hnot, hdepth]

theorem papiexStop_of_closed (hev : cfg.eventcnt ≠ 0) (hpoint : point < thread.maxCaliperEntries)
    (hdepth : (thread.data point).depth = 0) :
    papiexStop cfg (some thread) point io = .error (.pointNotInUse point) := by
  have hnot : ¬ thread.maxCaliperEntries ≤ point := not_le.mpr hpoint
  simp [papiexStop, callOnPoint, hev, hnot, hdepth]

/-- `papiex_accum` adds up at a point that is open, except for point 0. -/
theorem papiexAccum_of_open (hev : cfg.eventcnt ≠ 0) (hpos : 0 < point)
    (hpoint : point < thread.maxCaliperEntries) (hdepth : (thread.data point).depth ≠ 0) :
    papiexAccum cfg (some thread) point io = .ok (some (thread.accumPoint cfg point io)) := by
  rw [papiexAccum, callOnPoint_eq_ok_iff hev]
  exact ⟨by omega, .inr ⟨hpoint, by simpa using hdepth, rfl⟩⟩

variable (cfg thread) (call : Call)

@[simp] theorem Call.apply_maxCaliperEntries :
    (call.apply cfg thread).maxCaliperEntries = thread.maxCaliperEntries := by
  cases call <;> rfl

/-- **A call changes the record of its own point only.** -/
theorem Call.apply_data_of_ne {other : ℕ} (h : other ≠ call.point.toNat) :
    (call.apply cfg thread).data other = thread.data other := by
  cases call <;> exact PerthreadData.setCaliper_data_of_ne _ _ _ _ h

end Spec

/-! ## The fields of an updated record -/

namespace CaliperData

variable (cfg : Config) (thread : PerthreadData) (point : ℕ) (label : Option Text)
variable (io : Sampling) (record : CaliperData)

@[simp] theorem takeClocks_depth :
    (takeClocks cfg thread point io record).depth = record.depth := by
  unfold takeClocks
  split <;> rfl

@[simp] theorem takeClocks_used :
    (takeClocks cfg thread point io record).used = record.used := by
  unfold takeClocks
  split <;> rfl

@[simp] theorem takeClocks_counters :
    (takeClocks cfg thread point io record).counters = record.counters := by
  unfold takeClocks
  split <;> rfl

@[simp] theorem takeClocks_realCyc :
    (takeClocks cfg thread point io record).realCyc = record.realCyc := by
  unfold takeClocks
  split <;> rfl

@[simp] theorem start_depth :
    (start cfg thread point label io record).depth = record.depth + 1 := by
  simp [start, takeBase]

@[simp] theorem start_used : (start cfg thread point label io record).used = record.used := by
  simp [start, takeBase]

@[simp] theorem start_counters :
    (start cfg thread point label io record).counters = record.counters := by
  simp [start, takeBase]

@[simp] theorem start_realCyc :
    (start cfg thread point label io record).realCyc = record.realCyc := by
  simp [start, takeBase]

@[simp] theorem stop_depth : (stop cfg thread point io record).depth = record.depth - 1 := by
  unfold stop
  simp only
  split
  · split <;> rfl
  · rfl

@[simp] theorem stop_used :
    (stop cfg thread point io record).used = Binary32.round (record.used + 1) := by
  unfold stop
  simp only
  split
  · split <;> rfl
  · rfl

@[simp] theorem stop_realCyc :
    (stop cfg thread point io record).realCyc =
      record.realCyc + ((io.buffer cfg).realCyc - record.tmpRealCyc) := by
  unfold stop
  simp only
  split
  · split <;> rfl
  · rfl

@[simp] theorem accum_depth : (accum cfg point io record).depth = record.depth := by
  unfold accum
  simp only
  split
  · split <;> rfl
  · rfl

@[simp] theorem accum_used :
    (accum cfg point io record).used = Binary32.round (record.used + 1) := by
  unfold accum
  simp only
  split
  · split <;> rfl
  · rfl

@[simp] theorem accum_realCyc :
    (accum cfg point io record).realCyc =
      record.realCyc + ((io.buffer cfg).realCyc - record.tmpRealCyc) := by
  unfold accum
  simp only
  split
  · split <;> rfl
  · rfl

end CaliperData

/-! ## Concrete settings and samples -/

/-- The settings of the library before any event is chosen, with no profiling. -/
def plainSettings : Config where
  eventnames := []
  fullCaliperData := false
  noMpiProf := true
  isMpied := false
  noIoProf := true
  noThreadsyncProf := true

/-- A read that returns the same value in every counter and in the cycles. -/
def Sampling.ofReading (value : ℤ) : Sampling where
  read := .done (fun _ => value) value
  locals := ⟨fun _ => 0, 0⟩
  realUsec := 0
  virtUsec := 0
  virtCyc := 0

/-! ## The record of a fresh thread -/

namespace PerthreadData

/-- The record `papiex_thread_init_routine` leaves behind: cleared, stamped and
with point 0 started under an empty label. -/
def initialised (cfg : Config) (stamp : ℤ) (io : Sampling) : PerthreadData :=
  startPoint cfg 0 (some []) io { stamp }

variable (cfg : Config) (stamp : ℤ) (io : Sampling)

/-- The start of a thread is `papiex_start` at point 0 without a label. -/
theorem papiexStart_initialised (hev : cfg.eventcnt ≠ 0) :
    papiexStart cfg (some { stamp }) 0 (some []) io = .ok (some (initialised cfg stamp io)) :=
  papiexStart_of_closed hev (Nat.succ_pos 31) rfl

@[simp] theorem initialised_maxCaliperEntries :
    (initialised cfg stamp io).maxCaliperEntries = maxCalipers := rfl

@[simp] theorem initialised_maxCaliperUsed : (initialised cfg stamp io).maxCaliperUsed = 0 := rfl

@[simp] theorem initialised_htab : (initialised cfg stamp io).htab = {} := rfl

@[simp] theorem initialised_data_zero_depth :
    ((initialised cfg stamp io).data 0).depth = 1 := by
  simp [initialised, startPoint]

/-- All other points of a new thread are closed and empty. -/
theorem initialised_data_of_pos {point : ℕ} (h : 0 < point) :
    (initialised cfg stamp io).data point = {} :=
  setCaliper_data_of_ne _ _ _ _ h.ne'

end PerthreadData

end Papiex
