import Papiex.Caliper.Api
import Papiex.Lib.Stopwatch

/-!
# Caliper accounting

What the caliper records of a thread are for: each point is a stopwatch with
laps, read in all counters at once, and its record carries the ledger of the
episodes the calls have made on it.  The record of a point is related to the
ledger of that point alone (`Accounts`); one call keeps the relation for every
point (`Accounts.exec`), and so does a whole run (`accounts_of_run`).

## Main results

* `ledgerOf`: the ledger of a point, from the calls alone.
* `Accounts`: a record holds what its ledger says; `Accounts.exec` keeps it over one call.
* `caliper_accounting`: every run of calls that takes no error exit.

## Design notes

The ledger is made from the calls alone and knows nothing of the code.  Every counter and
the cycles are meters that carry one and the same ledger, so that the laps telescope once,
in `Papiex.Lib.Stopwatch`, and not again for each counter.  That a start is unmatched is
said of the list of calls as well, and the depth of the record is shown to tell it.
-/

namespace Papiex

/-! ## The ledger of a point -/

/-- The read succeeded. -/
def Read.Succeeds (read : Read) : Prop := ∃ counters realCyc, read = .done counters realCyc

/-- What a call sampled: the values its read returned. -/
def Sampling.sampled (io : Sampling) : ReadBuffer :=
  match io.read with
  | .done counters realCyc => ⟨counters, realCyc⟩
  | .failed => io.locals
  | .skipped => io.locals

namespace Call

/-- A call as a use of the stopwatch of point `p`, if it names that point. -/
def opOn (p : ℕ) : Call → Option (Stopwatch.Op ReadBuffer)
  | .start point _ io => if point = p then some (.start io.sampled) else none
  | .accum point io => if point = p then some (.lap io.sampled) else none
  | .stop point io => if point = p then some (.stop io.sampled) else none

/-- A call on another point is no operation on this one. -/
theorem opOn_of_ne {p : ℕ} {call : Call} (h : call.point ≠ p) : opOn p call = none := by
  cases call <;> exact if_neg h

/-- The uses of point `p` among the calls. -/
def opsOn (p : ℕ) (calls : List Call) : List (Stopwatch.Op ReadBuffer) :=
  calls.filterMap (opOn p)

/-- The ledger of point `p`: its completed episodes, each with what was sampled
at its start and at its stop, and its open episode if there is one. -/
def ledgerOf (p : ℕ) (calls : List Call) : Stopwatch.Ledger ReadBuffer :=
  .ofOps (opsOn p calls)

/-- The calls leave an unmatched start of point `p`. -/
def UnmatchedStart (p : ℕ) (calls : List Call) : Prop :=
  ∃ front label io rest, calls = front ++ .start p label io :: rest ∧
    ∀ io', .stop p io' ∉ rest

/-- Enter one call in the ledger of point `p`. -/
def enter (p : ℕ) (ledger : Stopwatch.Ledger ReadBuffer) (call : Call) :
    Stopwatch.Ledger ReadBuffer :=
  (opOn p call).elim ledger ledger.step

/-- The ledger of a point is kept call by call. -/
theorem ledgerOf_eq_foldl (p : ℕ) (calls : List Call) :
    ledgerOf p calls = calls.foldl (enter p) .empty := by
  unfold ledgerOf opsOn Stopwatch.Ledger.ofOps
  rw [List.foldl_filterMap]
  congr 1
  funext ledger call
  cases h : opOn p call <;> simp [enter, h]

/-- The open episodes of the ledger are the unmatched starts of the calls. -/
theorem opened_ledgerOf_iff (p : ℕ) (calls : List Call) :
    (ledgerOf p calls).opened ≠ none ↔ UnmatchedStart p calls := by
  -- the starts and stops among the operations are those among the calls
  have hstart : ∀ call reading, opOn p call = some (.start reading) →
      ∃ label io, call = .start p label io := by
    intro call reading h
    cases call with
    | start point label io =>
        by_cases hp : point = p
        · exact ⟨label, io, by rw [hp]⟩
        · simp [opOn, hp] at h
    | accum point io => by_cases hp : point = p <;> simp [opOn, hp] at h
    | stop point io => by_cases hp : point = p <;> simp [opOn, hp] at h
  have hstop : ∀ rest : List Call,
      (∀ later ∈ rest, ∀ r, opOn p later ≠ some (.stop r)) ↔ ∀ io, .stop p io ∉ rest := by
    intro rest
    constructor
    · intro h io hmem
      exact h _ hmem io.sampled (by simp [opOn])
    · intro h later hmem r hop
      cases later with
      | start point label io => by_cases hp : point = p <;> simp [opOn, hp] at hop
      | accum point io => by_cases hp : point = p <;> simp [opOn, hp] at hop
      | stop point io =>
          by_cases hp : point = p
          · exact h io (hp ▸ hmem)
          · simp [opOn, hp] at hop
  unfold ledgerOf Stopwatch.Ledger.ofOps opsOn
  rw [Stopwatch.Ledger.opened_foldl_filterMap_iff]
  simp only [Stopwatch.Ledger.empty, ne_eq, not_true_eq_false, false_and, or_false]
  constructor
  · rintro ⟨front, call, reading, rest, rfl, hcall, hrest⟩
    obtain ⟨label, io, rfl⟩ := hstart call reading hcall
    exact ⟨front, label, io, rest, rfl, (hstop rest).mp hrest⟩
  · rintro ⟨front, label, io, rest, rfl, hrest⟩
    exact ⟨front, .start p label io, io.sampled, rest, rfl, by simp [opOn],
      (hstop rest).mpr hrest⟩

end Call

/-! ## A record carries its ledger -/

/-- The meter of one event in a caliper record. -/
def CaliperData.counterMeter (record : CaliperData) (i : ℕ) : Stopwatch.Meter ℤ :=
  ⟨record.counters i, record.tmpCounters i⟩

/-- The cycle meter of a caliper record. -/
def CaliperData.cycMeter (record : CaliperData) : Stopwatch.Meter ℤ :=
  ⟨record.realCyc, record.tmpRealCyc⟩

/-- The record of a point accounts for the ledger of its calls: every configured
event and the cycles are metered, and the depth says whether it is open. -/
structure Accounts (cfg : Config) (record : CaliperData)
    (ledger : Stopwatch.Ledger ReadBuffer) : Prop where
  counters : ∀ i < cfg.eventcnt,
    (record.counterMeter i).Carries (fun buffer => buffer.counters i) ledger
  cyc : record.cycMeter.Carries ReadBuffer.realCyc ledger
  depth_closed : ledger.opened = none → record.depth = 0
  depth_open : ledger.opened ≠ none → record.depth = 1

variable {cfg : Config} {thread : PerthreadData} {record : CaliperData}
variable {ledger : Stopwatch.Ledger ReadBuffer} {io : Sampling} {point : ℕ}

theorem accounts_empty : Accounts cfg {} .empty where
  counters _ _ := Stopwatch.Meter.carries_empty 0
  cyc := Stopwatch.Meter.carries_empty 0
  depth_closed _ := rfl
  depth_open h := absurd rfl h

theorem Accounts.opened_eq_none (h : Accounts cfg record ledger) (hdepth : record.depth = 0) :
    ledger.opened = none := by
  by_contra hopen
  have := h.depth_open hopen
  omega

theorem Accounts.opened_ne_none (h : Accounts cfg record ledger) (hdepth : record.depth ≠ 0) :
    ledger.opened ≠ none := fun hclosed => hdepth (h.depth_closed hclosed)

/-! ### The meters under the three updates -/

section Meters

variable (cfg thread record point) (label : Option Text)

theorem counterMeter_start (hread : io.read.Succeeds) {i : ℕ} (hi : i < cfg.eventcnt) :
    (CaliperData.start cfg thread point label io record).counterMeter i =
      (record.counterMeter i).step (.start (io.sampled.counters i)) := by
  obtain ⟨counters, realCyc, hread⟩ := hread
  simp [CaliperData.counterMeter, Stopwatch.Meter.step, CaliperData.start,
    CaliperData.takeBase, Sampling.sampled, hread, Read.into, hi]

theorem cycMeter_start (hread : io.read.Succeeds) :
    (CaliperData.start cfg thread point label io record).cycMeter =
      record.cycMeter.step (.start io.sampled.realCyc) := by
  obtain ⟨counters, realCyc, hread⟩ := hread
  simp [CaliperData.cycMeter, Stopwatch.Meter.step, CaliperData.start,
    CaliperData.takeBase, Sampling.sampled, hread, Read.into]

theorem counterMeter_accum (hread : io.read.Succeeds) {i : ℕ} (hi : i < cfg.eventcnt) :
    (CaliperData.accum cfg point io record).counterMeter i =
      (record.counterMeter i).step (.lap (io.sampled.counters i)) := by
  obtain ⟨counters, realCyc, hread⟩ := hread
  simp only [CaliperData.counterMeter, Stopwatch.Meter.step, CaliperData.accum,
    Sampling.sampled, Sampling.buffer, hread, Read.into, Read.retvalOk,
    if_true]
  split <;> simp [CaliperData.accumClocks, CaliperData.rebaseCounters,
    CaliperData.addCounters, CaliperData.countUse, hi]

theorem cycMeter_accum (hread : io.read.Succeeds) :
    (CaliperData.accum cfg point io record).cycMeter =
      record.cycMeter.step (.lap io.sampled.realCyc) := by
  obtain ⟨counters, realCyc, hread⟩ := hread
  simp only [CaliperData.cycMeter, Stopwatch.Meter.step, CaliperData.accum,
    Sampling.sampled, Sampling.buffer, hread, Read.into, Read.retvalOk,
    if_true]
  split <;> rfl

theorem counterMeter_stop (hread : io.read.Succeeds) {i : ℕ} (hi : i < cfg.eventcnt) :
    (CaliperData.stop cfg thread point io record).counterMeter i =
      (record.counterMeter i).step (.stop (io.sampled.counters i)) := by
  obtain ⟨counters, realCyc, hread⟩ := hread
  simp only [CaliperData.counterMeter, Stopwatch.Meter.step, CaliperData.stop,
    Sampling.sampled, Sampling.buffer, hread, Read.into, Read.retvalOk,
    if_true]
  split <;> simp [CaliperData.addClocks, CaliperData.addCounters, CaliperData.countUse, hi]

theorem cycMeter_stop (hread : io.read.Succeeds) :
    (CaliperData.stop cfg thread point io record).cycMeter =
      record.cycMeter.step (.stop io.sampled.realCyc) := by
  obtain ⟨counters, realCyc, hread⟩ := hread
  simp only [CaliperData.cycMeter, Stopwatch.Meter.step, CaliperData.stop,
    Sampling.sampled, Sampling.buffer, hread, Read.into, Read.retvalOk,
    if_true]
  split <;> rfl

end Meters

/-! ### One update -/

theorem Accounts.start (h : Accounts cfg record ledger) (hread : io.read.Succeeds)
    (hdepth : record.depth = 0) (thread : PerthreadData) (point : ℕ) (label : Option Text) :
    Accounts cfg (CaliperData.start cfg thread point label io record)
      (ledger.step (.start io.sampled)) where
  counters i hi := by
    rw [counterMeter_start cfg thread record point label hread hi]
    exact (h.counters i hi).step (.start io.sampled) (h.opened_eq_none hdepth)
  cyc := by
    rw [cycMeter_start cfg thread record point label hread]
    exact h.cyc.step (.start io.sampled) (h.opened_eq_none hdepth)
  depth_closed hclosed := by simp [Stopwatch.Ledger.step] at hclosed
  depth_open _ := by simp [hdepth]

/-- The record and the ledger take a lap together. -/
theorem Accounts.accum (h : Accounts cfg record ledger) (hread : io.read.Succeeds)
    (hdepth : record.depth ≠ 0) (point : ℕ) :
    Accounts cfg (CaliperData.accum cfg point io record)
      (ledger.step (.lap io.sampled)) where
  counters i hi := by
    rw [counterMeter_accum cfg record point hread hi]
    exact (h.counters i hi).step (.lap io.sampled) (h.opened_ne_none hdepth)
  cyc := by
    rw [cycMeter_accum cfg record point hread]
    exact h.cyc.step (.lap io.sampled) (h.opened_ne_none hdepth)
  depth_closed hclosed := by
    refine absurd ?_ (h.opened_ne_none hdepth)
    simpa [Stopwatch.Ledger.step] using hclosed
  depth_open _ := by simpa using h.depth_open (h.opened_ne_none hdepth)

theorem Accounts.stop (h : Accounts cfg record ledger) (hread : io.read.Succeeds)
    (hdepth : record.depth ≠ 0) (thread : PerthreadData) (point : ℕ) :
    Accounts cfg (CaliperData.stop cfg thread point io record)
      (ledger.step (.stop io.sampled)) where
  counters i hi := by
    rw [counterMeter_stop cfg thread record point hread hi]
    exact (h.counters i hi).step (.stop io.sampled) (h.opened_ne_none hdepth)
  cyc := by
    rw [cycMeter_stop cfg thread record point hread]
    exact h.cyc.step (.stop io.sampled) (h.opened_ne_none hdepth)
  depth_closed _ := by
    rw [CaliperData.stop_depth, h.depth_open (h.opened_ne_none hdepth)]
    rfl
  depth_open hopen := absurd rfl hopen

/-! ### One call and a whole run -/

/-- **One call keeps the accounts of every point.** -/
theorem Accounts.exec (hev : cfg.eventcnt ≠ 0) {call : Call} {p : ℕ}
    (hp : p < thread.maxCaliperEntries) (h : Accounts cfg (thread.data p) ledger)
    (hread : call.io.read.Succeeds) {thread' : PerthreadData}
    (hexec : call.exec cfg (some thread) = .ok (some thread')) :
    thread'.maxCaliperEntries = thread.maxCaliperEntries ∧
      Accounts cfg (thread'.data p) (Call.enter p ledger call) := by
  have hlowest := call.lowest_nonneg
  obtain ⟨hlow, ⟨hbeyond, hsame⟩ | ⟨-, hadmitted, hsome⟩⟩ := (Call.exec_eq_ok_iff hev).mp hexec
  · -- a point beyond the table is none of the points accounted for
    cases hsame
    have hne : call.point ≠ p := by omega
    exact ⟨rfl, by simpa [Call.enter, Call.opOn_of_ne hne] using h⟩
  · cases hsome
    refine ⟨by simp, ?_⟩
    by_cases hpoint : call.point = p
    · have hnat : call.point.toNat = p := by omega
      rw [hnat] at hadmitted
      cases call with
      | start point label io =>
          cases hpoint
          have hread : io.read.Succeeds := hread
          simpa [Call.enter, Call.opOn, Call.apply, PerthreadData.startPoint] using
            h.start hread hadmitted thread p label
      | accum point io =>
          cases hpoint
          have hread : io.read.Succeeds := hread
          simpa [Call.enter, Call.opOn, Call.apply, PerthreadData.accumPoint] using
            h.accum hread hadmitted p
      | stop point io =>
          cases hpoint
          have hread : io.read.Succeeds := hread
          simpa [Call.enter, Call.opOn, Call.apply, PerthreadData.stopPoint] using
            h.stop hread hadmitted thread p
    · rw [Call.apply_data_of_ne cfg thread call (by omega)]
      simpa [Call.enter, Call.opOn_of_ne hpoint] using h

/-- **A run from a cleared record accounts for every point of the table.** -/
theorem accounts_of_run (hev : cfg.eventcnt ≠ 0) {calls : List Call}
    {final : Option PerthreadData} (hread : ∀ call ∈ calls, call.io.read.Succeeds)
    (hrun : FallibleRun.run (Call.exec cfg) (some {}) calls = .ok final) {p : ℕ}
    (hp : p < maxCalipers) :
    ∃ thread, final = some thread ∧ Accounts cfg (thread.data p) (Call.ledgerOf p calls) := by
  have hsim := FallibleRun.run_simulation
    (fun tls ledger => ∃ thread : PerthreadData, tls = some thread ∧
      thread.maxCaliperEntries = maxCalipers ∧ Accounts cfg (thread.data p) ledger)
    (Call.enter p) ?_ ⟨{}, rfl, rfl, accounts_empty⟩ hrun
  · obtain ⟨thread, hfinal, -, haccounts⟩ := hsim
    exact ⟨thread, hfinal, Call.ledgerOf_eq_foldl p calls ▸ haccounts⟩
  · rintro call hcall _ after ledger ⟨thread, rfl, hentries, haccounts⟩ hexec
    obtain ⟨thread', rfl⟩ := Call.exec_isSome hev hexec
    obtain ⟨hsame, hkept⟩ := haccounts.exec hev (hentries ▸ hp) (hread call hcall) hexec
    exact ⟨thread', rfl, hsame.trans hentries, hkept⟩

/-! ## The accounting law -/

/-- What the record of a point holds after the calls: in every event and in the
cycles the total of the ledger of the point, and in the depth whether the calls
leave an unmatched start of it. -/
structure PointAccounted (cfg : Config) (calls : List Call) (p : ℕ) (record : CaliperData) :
    Prop where
  counters_eq : ∀ i < cfg.eventcnt,
    record.counters i = (Call.ledgerOf p calls).total fun sampled => sampled.counters i
  realCyc_eq : record.realCyc = (Call.ledgerOf p calls).total ReadBuffer.realCyc
  depth_eq : record.depth = 0 ∨ record.depth = 1
  depth_eq_one_iff : record.depth = 1 ↔ Call.UnmatchedStart p calls

/-- **What the ledger says is what the record holds.** -/
theorem Accounts.pointAccounted {calls : List Call} {p : ℕ}
    (h : Accounts cfg record (Call.ledgerOf p calls)) : PointAccounted cfg calls p record where
  counters_eq i hi := (h.counters i hi).total_eq
  realCyc_eq := h.cyc.total_eq
  depth_eq := by
    by_cases hopen : (Call.ledgerOf p calls).opened = none
    · exact .inl (h.depth_closed hopen)
    · exact .inr (h.depth_open hopen)
  depth_eq_one_iff := by
    rw [← Call.opened_ledgerOf_iff]
    refine ⟨fun hdepth hclosed => ?_, h.depth_open⟩
    have := h.depth_closed hclosed
    omega

/-- **Caliper accounting.**  Take a thread initialised by the library and any run
of calls on it that takes no error exit and whose reads all succeed.  Then every
point of the table is accounted for.  Two such runs whose uses of a point differ
only in how accums split its episodes leave the same totals, and a call changes
the record of its own point only. -/
theorem caliper_accounting (fpOps fpIns : Bool) (settings : Config) (calls : List Call)
    (final : Option PerthreadData)
    (hread : ∀ call ∈ calls, call.io.read.Succeeds)
    (hrun : FallibleRun.run (Call.exec (settings.withDefaultEvents fpOps fpIns)) (some {})
      calls = .ok final) :
    ∃ thread, final = some thread ∧
      (∀ p < maxCalipers,
        PointAccounted (settings.withDefaultEvents fpOps fpIns) calls p (thread.data p)) ∧
      (∀ calls' thread', (∀ call ∈ calls', call.io.read.Succeeds) →
        FallibleRun.run (Call.exec (settings.withDefaultEvents fpOps fpIns)) (some {})
          calls' = .ok (some thread') →
        ∀ p < maxCalipers,
          Stopwatch.Ledger.unsplit (Call.opsOn p calls') =
            Stopwatch.Ledger.unsplit (Call.opsOn p calls) →
          (∀ i < (settings.withDefaultEvents fpOps fpIns).eventcnt,
            (thread'.data p).counters i = (thread.data p).counters i) ∧
          (thread'.data p).realCyc = (thread.data p).realCyc) ∧
      ∀ (call : Call) before after,
        call.exec (settings.withDefaultEvents fpOps fpIns) (some before) = .ok (some after) →
        ∀ other : ℕ, (other : ℤ) ≠ call.point → after.data other = before.data other := by
  have hev : (settings.withDefaultEvents fpOps fpIns).eventcnt ≠ 0 :=
    (Config.eventcnt_withDefaultEvents_pos fpOps fpIns settings).ne'
  obtain ⟨thread, rfl, -⟩ := accounts_of_run hev hread hrun (Nat.succ_pos 31)
  have haccounts : ∀ p < maxCalipers, PointAccounted
      (settings.withDefaultEvents fpOps fpIns) calls p (thread.data p) := by
    intro p hp
    obtain ⟨same, hsame, haccounts⟩ := accounts_of_run hev hread hrun hp
    cases hsame
    exact haccounts.pointAccounted
  refine ⟨thread, rfl, haccounts, ?_, ?_⟩
  · intro calls' thread' hread' hrun' p hp hunsplit
    obtain ⟨same, hsame, haccounts'⟩ := accounts_of_run hev hread' hrun' hp
    cases hsame
    -- the ledger does not see how an episode was split
    have hledger : Call.ledgerOf p calls' = Call.ledgerOf p calls := by
      unfold Call.ledgerOf
      rw [← Stopwatch.Ledger.ofOps_unsplit, hunsplit, Stopwatch.Ledger.ofOps_unsplit]
    refine ⟨fun i hi => ?_, ?_⟩
    · rw [(haccounts p hp).counters_eq i hi, haccounts'.pointAccounted.counters_eq i hi, hledger]
    · rw [(haccounts p hp).realCyc_eq, haccounts'.pointAccounted.realCyc_eq, hledger]
  · intro call before after hexec other hother
    obtain ⟨hlow, ⟨-, hsame⟩ | ⟨-, -, hsome⟩⟩ := (Call.exec_eq_ok_iff hev).mp hexec
    · cases hsame
      rfl
    · cases hsome
      have hlowest := call.lowest_nonneg
      exact Call.apply_data_of_ne _ before call (by omega)

/-- The accounting law on two points: point 1 is open inside point 0, is split by
an accum, and is stopped and started once more. -/
theorem caliper_accounting_nested :
    ∃ thread, FallibleRun.run (Call.exec (plainSettings.withDefaultEvents true true)) (some {})
        [.start 0 none (.ofReading 10), .start 1 (some ['a']) (.ofReading 20),
          .accum 1 (.ofReading 30), .stop 1 (.ofReading 45),
          .start 1 none (.ofReading 100), .accum 1 (.ofReading 107)] = .ok (some thread) ∧
      (thread.data 1).counters 0 = (45 - 20) + (107 - 100) ∧
      (thread.data 0).counters 0 = 0 := by
  have hrun : ∃ final, FallibleRun.run (Call.exec (plainSettings.withDefaultEvents true true))
      (some {}) [.start 0 none (.ofReading 10), .start 1 (some ['a']) (.ofReading 20),
        .accum 1 (.ofReading 30), .stop 1 (.ofReading 45),
        .start 1 none (.ofReading 100), .accum 1 (.ofReading 107)] = .ok final := ⟨_, rfl⟩
  obtain ⟨final, hrun⟩ := hrun
  obtain ⟨thread, rfl, haccounted, -⟩ := caliper_accounting true true plainSettings _ final
    (by simp [Call.io, Sampling.ofReading, Read.Succeeds]) hrun
  refine ⟨thread, hrun, ?_, ?_⟩
  · rw [(haccounted 1 (by decide)).counters_eq 0 (by decide)]
    decide
  · rw [(haccounted 0 (by decide)).counters_eq 0 (by decide)]
    decide

end Papiex
