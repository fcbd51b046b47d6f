import Papiex.Caliper.Accounting

/-!
# What the locals held

`papiex_stop` and `papiex_accum` read the counters into locals that nothing has
initialised.  When the read fails or is skipped they hold what the stack held before.
The cycles are added all the same, and after a skipped read, which leaves `PAPI_OK` in
the status, the counters are too.

## Main results

* `Call.exec_withLocals`: a call with other locals.
* `locals_irrelevant_iff`: when the counts do not depend on them.

## Design notes

The statement is about two runs that differ in nothing but what the stack held.  Where a
call adds what a failed read left behind, the two can be told apart by one more choice of
the locals, and this is what makes the condition necessary.
-/

namespace Papiex

/-! ## Two runs -/

/-- The same call with other contents of the uninitialised locals. -/
def Call.withLocals (locals : ReadBuffer) : Call → Call
  | .start point label io => .start point label { io with locals }
  | .accum point io => .accum point { io with locals }
  | .stop point io => .stop point { io with locals }

/-- The two calls differ at most in what the uninitialised locals held. -/
def Call.SameButLocals (call call' : Call) : Prop := ∃ locals, call' = call.withLocals locals

/-- What a thread has counted: the counters and the cycles of every point. -/
def PerthreadData.counts (thread : PerthreadData) (p : ℕ) : (ℕ → ℤ) × ℤ :=
  ((thread.data p).counters, (thread.data p).realCyc)

/-- What is counted after some calls, or the error they have stopped with. -/
def countsAfter (cfg : Config) (tls : Option PerthreadData) (calls : List Call) :
    Except LibpapiexError (Option (ℕ → (ℕ → ℤ) × ℤ)) :=
  (FallibleRun.run (Call.exec cfg) tls calls).map (Option.map PerthreadData.counts)

/-- **The counts do not depend on the locals**: after every call of the sequence they
are the same whatever the locals of the calls held. -/
def LocalsIrrelevant (cfg : Config) (tls : Option PerthreadData) (calls : List Call) : Prop :=
  ∀ calls', List.Forall₂ Call.SameButLocals calls calls' →
    ∀ n, countsAfter cfg tls (calls.take n) = countsAfter cfg tls (calls'.take n)

/-! ## When they do not -/

/-- The call adds to the counts of its point what it has read. -/
def Call.Adds : Call → Prop
  | .start _ _ _ => False
  | .accum _ _ => True
  | .stop _ _ => True

/-- The call passes all the checks: there are events, its point is one of the table,
and the record of the point admits it. -/
structure Call.CarriedOut (cfg : Config) (thread : PerthreadData) (call : Call) : Prop where
  eventcnt_ne_zero : cfg.eventcnt ≠ 0
  lowest_le : call.lowest ≤ call.point
  point_lt : call.point.toNat < thread.maxCaliperEntries
  admits : call.Admits (thread.data call.point.toNat)

/-- Every accum and every stop that is carried out has read successfully. -/
def ReadsWhatItAdds (cfg : Config) (tls : Option PerthreadData) (calls : List Call) : Prop :=
  ∀ front call rest thread, calls = front ++ call :: rest →
    FallibleRun.run (Call.exec cfg) tls front = .ok (some thread) →
      call.CarriedOut cfg thread → call.Adds → call.io.read.Succeeds

variable {cfg : Config} {tls : Option PerthreadData} {thread : PerthreadData}

/-! ### A successful read overwrites the locals -/

section Overwritten

variable {io : Sampling} (hread : io.read.Succeeds) (locals : ReadBuffer)
include hread

/-- The cycles that were read do not depend on the locals. -/
theorem buffer_realCyc_withLocals :
    (({ io with locals } : Sampling).buffer cfg).realCyc = (io.buffer cfg).realCyc := by
  obtain ⟨counters, realCyc, hread⟩ := hread
  simp [Sampling.buffer, hread, Read.into]

/-- A counter that was read does not depend on the locals. -/
theorem buffer_counters_withLocals {i : ℕ} (hi : i < cfg.eventcnt) :
    (({ io with locals } : Sampling).buffer cfg).counters i = (io.buffer cfg).counters i := by
  obtain ⟨counters, realCyc, hread⟩ := hread
  simp [Sampling.buffer, hread, Read.into, hi]

/-- What is added does not depend on the locals. -/
theorem addCounters_withLocals (record : CaliperData) :
    CaliperData.addCounters cfg (({ io with locals } : Sampling).buffer cfg) record =
      CaliperData.addCounters cfg (io.buffer cfg) record := by
  unfold CaliperData.addCounters
  congr 1
  funext i
  split
  · rw [buffer_counters_withLocals hread locals ‹_›]
  · rfl

/-- Where the next part begins does not depend on the locals. -/
theorem rebaseCounters_withLocals (record : CaliperData) :
    CaliperData.rebaseCounters cfg (({ io with locals } : Sampling).buffer cfg) record =
      CaliperData.rebaseCounters cfg (io.buffer cfg) record := by
  unfold CaliperData.rebaseCounters
  congr 1
  funext i
  split
  · rw [buffer_counters_withLocals hread locals ‹_›]
  · rfl

theorem stop_withLocals (point : ℕ) (record : CaliperData) :
    CaliperData.stop cfg thread point { io with locals } record =
      CaliperData.stop cfg thread point io record := by
  unfold CaliperData.stop
  simp only [buffer_realCyc_withLocals hread locals, addCounters_withLocals hread locals]
  rfl

theorem accum_withLocals (point : ℕ) (record : CaliperData) :
    CaliperData.accum cfg point { io with locals } record =
      CaliperData.accum cfg point io record := by
  unfold CaliperData.accum
  simp only [buffer_realCyc_withLocals hread locals, addCounters_withLocals hread locals,
    rebaseCounters_withLocals hread locals]
  rfl

end Overwritten

/-- A call that adds only what it has read does the same with other locals. -/
theorem Call.apply_withLocals {call : Call} (hread : call.Adds → call.io.read.Succeeds)
    (locals : ReadBuffer) :
    (call.withLocals locals).apply cfg thread = call.apply cfg thread := by
  cases call with
  | start point label io => rfl
  | accum point io =>
      have hread : io.read.Succeeds := hread trivial
      simp only [withLocals, apply, PerthreadData.accumPoint]
      rw [accum_withLocals hread locals]
  | stop point io =>
      have hread : io.read.Succeeds := hread trivial
      simp only [withLocals, apply, PerthreadData.stopPoint]
      rw [stop_withLocals hread locals]

/-- Two frames agree if their updates do where they are carried out. -/
theorem callOnPoint_congr {lowest point : ℤ} {refuses : CaliperData → Bool}
    {fatal : LibpapiexError} {update update' : PerthreadData → PerthreadData}
    (h : ∀ thread, tls = some thread → cfg.eventcnt ≠ 0 → lowest ≤ point →
      point.toNat < thread.maxCaliperEntries → refuses (thread.data point.toNat) = false →
        update thread = update' thread) :
    callOnPoint cfg tls lowest point refuses fatal update =
      callOnPoint cfg tls lowest point refuses fatal update' := by
  unfold callOnPoint
  split
  · rfl
  cases htls : tls with
  | none => rfl
  | some thread =>
      by_cases hlow : point < lowest
      · simp [hlow]
      by_cases hbeyond : thread.maxCaliperEntries ≤ point.toNat
      · simp [hlow, hbeyond]
      cases hrefuses : refuses (thread.data point.toNat) with
      | true => simp [hlow, hbeyond, hrefuses]
      | false =>
          have hsame := h thread htls ‹_› (not_lt.mp hlow) (not_le.mp hbeyond) hrefuses
          simp [hlow, hbeyond, hsame]

/-- **Where a call reads what it adds, the locals do not matter.** -/
theorem Call.exec_withLocals {call : Call} (locals : ReadBuffer)
    (hread : ∀ thread, tls = some thread → call.CarriedOut cfg thread → call.Adds →
      call.io.read.Succeeds) :
    (call.withLocals locals).exec cfg tls = call.exec cfg tls := by
  cases call with
  | start point label io => rfl
  | accum point io =>
      unfold withLocals exec papiexAccum
      refine callOnPoint_congr fun thread htls hev hlow hpoint hadmitted => ?_
      have hcarried : (Call.accum point io).CarriedOut cfg thread :=
        ⟨hev, hlow, hpoint, by simpa [Admits, Call.point] using hadmitted⟩
      exact apply_withLocals (hread thread htls hcarried) locals
  | stop point io =>
      unfold withLocals exec papiexStop
      refine callOnPoint_congr fun thread htls hev hlow hpoint hadmitted => ?_
      have hcarried : (Call.stop point io).CarriedOut cfg thread :=
        ⟨hev, hlow, hpoint, by simpa [Admits, Call.point] using hadmitted⟩
      exact apply_withLocals (hread thread htls hcarried) locals

/-! ### A read that failed or was skipped leaves them -/

theorem Call.CarriedOut.exec_eq {call : Call} (h : call.CarriedOut cfg thread) :
    call.exec cfg (some thread) = .ok (some (call.apply cfg thread)) :=
  (exec_eq_ok_iff h.eventcnt_ne_zero).mpr ⟨h.lowest_le, .inr ⟨h.point_lt, h.admits, rfl⟩⟩

/-- Whether it is carried out does not depend on the locals. -/
theorem Call.CarriedOut.withLocals {call : Call} (h : call.CarriedOut cfg thread)
    (locals : ReadBuffer) : (call.withLocals locals).CarriedOut cfg thread := by
  cases call <;> exact ⟨h.1, h.2, h.3, h.4⟩

theorem Call.sameButLocals_refl (call : Call) : call.SameButLocals call :=
  ⟨call.io.locals, by cases call <;> rfl⟩

/-- Without a successful read the cycles of the locals are added. -/
theorem Call.apply_realCyc_of_not_succeeds {call : Call} (hadds : call.Adds)
    (hread : ¬ call.io.read.Succeeds) :
    ((call.apply cfg thread).data call.point.toNat).realCyc =
      (thread.data call.point.toNat).realCyc +
        (call.io.locals.realCyc - (thread.data call.point.toNat).tmpRealCyc) := by
  have hbuffer : (call.io.buffer cfg).realCyc = call.io.locals.realCyc := by
    unfold Sampling.buffer
    cases hcase : call.io.read with
    | done counters realCyc => exact absurd ⟨counters, realCyc, hcase⟩ hread
    | failed => rfl
    | skipped => rfl
  cases call with
  | start point label io => exact hadds.elim
  | accum point io =>
      rw [← hbuffer]
      simp [apply, PerthreadData.accumPoint, Call.point, Call.io]
  | stop point io =>
      rw [← hbuffer]
      simp [apply, PerthreadData.stopPoint, Call.point, Call.io]

/-! ## The condition -/

/-- **In a run that reads all that it adds the locals do not matter.** -/
theorem LocalsIrrelevant.of_reads {calls : List Call} (h : ReadsWhatItAdds cfg tls calls) :
    LocalsIrrelevant cfg tls calls := by
  intro calls' hsame n
  unfold countsAfter
  congr 1
  refine FallibleRun.run_congr Call.SameButLocals (List.forall₂_take n hsame) ?_
  rintro front call rest _ before heq hrun ⟨locals, rfl⟩
  refine (Call.exec_withLocals locals fun thread hthread hcarried hadds => ?_).symm
  rw [hthread] at hrun
  have hsplit : calls = front ++ call :: (rest ++ calls.drop n) := by
    calc calls = calls.take n ++ calls.drop n := (List.take_append_drop n calls).symm
      _ = front ++ call :: (rest ++ calls.drop n) := by rw [heq]; simp
  exact h front call _ thread hsplit hrun hcarried hadds

/-- **The counts do not depend on the locals if and only if every accum and every stop
that is carried out has read successfully.** -/
theorem locals_irrelevant_iff (cfg : Config) (tls : Option PerthreadData) (calls : List Call) :
    LocalsIrrelevant cfg tls calls ↔ ReadsWhatItAdds cfg tls calls := by
  refine ⟨?_, .of_reads⟩
  intro hirrelevant front call rest thread heq hrun hcarried hadds
  by_contra hread
  -- one cycle more in the locals of this call
  let locals : ReadBuffer := { call.io.locals with realCyc := call.io.locals.realCyc + 1 }
  have hpoint : (call.withLocals locals).point = call.point := by cases call <;> rfl
  have hio : (call.withLocals locals).io = { call.io with locals } := by cases call <;> rfl
  have hadds' : (call.withLocals locals).Adds := by cases call <;> exact hadds
  have hsame : List.Forall₂ Call.SameButLocals calls
      (front ++ call.withLocals locals :: rest) := by
    rw [heq]
    refine List.rel_append ?_ (.cons ⟨locals, rfl⟩ ?_)
    · exact List.forall₂_same.mpr fun other _ => other.sameButLocals_refl
    · exact List.forall₂_same.mpr fun other _ => other.sameButLocals_refl
  have htake : ∀ other : Call, (front ++ other :: rest).take (front.length + 1) =
      front ++ [other] := by
    intro other
    simp [List.take_append]
  have hafter : ∀ other : Call, other.CarriedOut cfg thread →
      countsAfter cfg tls (front ++ [other]) =
        .ok (some (other.apply cfg thread).counts) := by
    intro other hother
    have hok : FallibleRun.run (Call.exec cfg) tls (front ++ [other]) =
        .ok (some (other.apply cfg thread)) :=
      FallibleRun.run_concat_eq_ok_iff.mpr ⟨some thread, hrun, hother.exec_eq⟩
    rw [countsAfter, hok]
    rfl
  have hcounts := hirrelevant _ hsame (front.length + 1)
  rw [heq, htake, htake, hafter call hcarried, hafter _ (hcarried.withLocals locals)] at hcounts
  have hcyc : ((call.apply cfg thread).data call.point.toNat).realCyc =
      (((call.withLocals locals).apply cfg thread).data call.point.toNat).realCyc :=
    congrArg Prod.snd (congrFun (Option.some.inj (Except.ok.inj hcounts)) call.point.toNat)
  have hread' : ¬ (call.withLocals locals).io.read.Succeeds := by
    rw [hio]
    exact hread
  rw [← hpoint, Call.apply_realCyc_of_not_succeeds hadds' hread', hpoint, hio,
    Call.apply_realCyc_of_not_succeeds hadds hread] at hcyc
  have hlocals : call.io.locals.realCyc = call.io.locals.realCyc + 1 :=
    sub_left_inj.mp (add_left_cancel hcyc)
  omega

/-- A stop whose read is skipped adds whatever was on the stack. -/
theorem locals_relevant_skipped :
    ¬ LocalsIrrelevant (plainSettings.withDefaultEvents true true) (some {})
      [.start 1 none (.ofReading 10), .stop 1 { Sampling.ofReading 20 with read := .skipped }] := by
  intro hirrelevant
  have hcounts := hirrelevant
    [.start 1 none (.ofReading 10),
      .stop 1 { Sampling.ofReading 20 with read := .skipped, locals := ⟨fun _ => 7, 1000⟩ }]
    (.cons (Call.sameButLocals_refl _) (.cons ⟨_, rfl⟩ .nil)) 2
  have hcyc := congrArg Prod.snd (congrFun (Option.some.inj (Except.ok.inj hcounts)) 1)
  exact absurd hcyc (by decide)

end Papiex
