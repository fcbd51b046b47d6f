import Mathlib.Data.List.Nodup
import Papiex.Caliper.Gcc

/-!
# Points for functions

The hooks of `gcc.c` and the program itself take caliper points of the same thread.
The hooks give a function the point after the highest one that has been started so
far, and enter it in the table before they start it; the program starts whatever points
it likes.  The table, the highest point and the records are kept consistent by both
(`PointsAssigned`).

## Main results

* `PointsAssigned`: the table of functions, the mark and the records fit together.
* `PointsAssigned.exec`: one hook or one call keeps this.
* `points_assigned`: points that are given to functions are unique and in range.

## Design notes

The hooks and the program are events of one machine, because they meet in
`max_caliper_used`.  That a pair of a function and its point stays in the table, and that a
new one gets a point above all the others (`PointsGrow`), turns what holds of the table at
one time into what holds over the whole run.
-/

namespace Papiex

/-! ## Events of a thread -/

/-- What happens on a thread: a hook runs, under the gate there is at that time, or the
program calls the caliper interface. -/
inductive ThreadEvent where
  | hook (papiexGccEnable : ℤ) (event : FuncEvent)
  | manual (call : Call)

/-- Run the event. -/
def ThreadEvent.exec (cfg : Config) (tls : Option PerthreadData) :
    ThreadEvent → Except LibpapiexError (Option PerthreadData)
  | .hook papiexGccEnable event => event.exec cfg papiexGccEnable tls
  | .manual call => call.exec cfg tls

/-- The points of the table and those above the highest one started are in order. -/
structure PointsAssigned (thread : PerthreadData) : Prop where
  keys_nodup : (thread.htab.entries.map Prod.fst).Nodup
  points_nodup : (thread.htab.entries.map Prod.snd).Nodup
  point_bounds : ∀ entry ∈ thread.htab.entries,
    1 ≤ entry.2 ∧ entry.2 ≤ thread.maxCaliperUsed
  maxCaliperUsed_lt : thread.maxCaliperUsed < thread.maxCaliperEntries
  untouched : ∀ point, thread.maxCaliperUsed < point → thread.data point = {}
  created : thread.htab.size = 0 → thread.htab.entries = []

/-- What the step from one record of a thread to the next may do to its table and to the
highest point: the entries stay, and a new one has the point after the highest. -/
structure PointsGrow (before after : PerthreadData) : Prop where
  maxCaliperUsed_le : before.maxCaliperUsed ≤ after.maxCaliperUsed
  kept : ∀ entry ∈ before.htab.entries, entry ∈ after.htab.entries
  new : ∀ entry ∈ after.htab.entries,
    entry ∈ before.htab.entries ∨ entry.2 = before.maxCaliperUsed + 1

variable {cfg : Config} {thread : PerthreadData} {tls' : Option PerthreadData}

theorem PointsGrow.refl (thread : PerthreadData) : PointsGrow thread thread :=
  ⟨le_rfl, fun _ h => h, fun _ h => .inl h⟩

theorem pointsAssigned_initialised (stamp : ℤ) (io : Sampling) :
    PointsAssigned (PerthreadData.initialised cfg stamp io) where
  keys_nodup := List.nodup_nil
  points_nodup := List.nodup_nil
  point_bounds := fun entry hentry => by simp at hentry
  maxCaliperUsed_lt := Nat.succ_pos 31
  untouched := fun _ hpoint => PerthreadData.initialised_data_of_pos cfg stamp io hpoint
  created _ := rfl

/-! ## One step -/

section Call

variable (cfg thread) (call : Call)

@[simp] theorem Call.apply_htab : (call.apply cfg thread).htab = thread.htab := by
  cases call <;> rfl

theorem Call.apply_maxCaliperUsed_le :
    thread.maxCaliperUsed ≤ (call.apply cfg thread).maxCaliperUsed := by
  cases call with
  | start point label io => exact le_max_left _ _
  | accum point io => exact le_rfl
  | stop point io => exact le_rfl

variable {cfg thread call}

/-- The point of an admitted call is not above the highest one afterwards: a start has
raised it, and the others want a point that is open. -/
theorem PointsAssigned.point_le (h : PointsAssigned thread)
    (hadmitted : call.Admits (thread.data call.point.toNat)) :
    call.point.toNat ≤ (call.apply cfg thread).maxCaliperUsed := by
  have hopen : (thread.data call.point.toNat).depth ≠ 0 →
      call.point.toNat ≤ thread.maxCaliperUsed := by
    intro hdepth
    by_contra habove
    rw [h.untouched _ (not_le.mp habove)] at hdepth
    exact hdepth rfl
  cases call with
  | start point label io => exact le_max_right _ _
  | accum point io => exact hopen hadmitted
  | stop point io => exact hopen hadmitted

theorem PointsAssigned.maxCaliperUsed_apply_lt (h : PointsAssigned thread)
    (hpoint : call.point.toNat < thread.maxCaliperEntries) :
    (call.apply cfg thread).maxCaliperUsed < thread.maxCaliperEntries := by
  cases call with
  | start point label io => exact max_lt h.maxCaliperUsed_lt hpoint
  | accum point io => exact h.maxCaliperUsed_lt
  | stop point io => exact h.maxCaliperUsed_lt

/-- An admitted call. -/
theorem PointsAssigned.apply (h : PointsAssigned thread)
    (hpoint : call.point.toNat < thread.maxCaliperEntries)
    (hadmitted : call.Admits (thread.data call.point.toNat)) :
    PointsAssigned (call.apply cfg thread) ∧ PointsGrow thread (call.apply cfg thread) := by
  have hle := Call.apply_maxCaliperUsed_le cfg thread call
  refine ⟨⟨?_, ?_, ?_, ?_, ?_, ?_⟩, hle, ?_, ?_⟩
  · simpa using h.keys_nodup
  · simpa using h.points_nodup
  · intro entry hentry
    rw [Call.apply_htab] at hentry
    exact (h.point_bounds entry hentry).imp_right hle.trans'
  · simpa using h.maxCaliperUsed_apply_lt hpoint
  · intro point habove
    rw [Call.apply_data_of_ne]
    · exact h.untouched point (hle.trans_lt habove)
    · rintro rfl
      exact absurd (h.point_le hadmitted) (not_le.mpr habove)
  · simpa using h.created
  · simp
  · intro entry hentry
    exact .inl (by simpa using hentry)

/-- A surviving call. -/
theorem PointsAssigned.exec_call (call : Call) (hev : cfg.eventcnt ≠ 0)
    (h : PointsAssigned thread)
    (hexec : call.exec cfg (some thread) = .ok tls') :
    ∃ thread', tls' = some thread' ∧ PointsAssigned thread' ∧ PointsGrow thread thread' := by
  obtain ⟨-, ⟨-, rfl⟩ | ⟨hpoint, hadmitted, rfl⟩⟩ := (Call.exec_eq_ok_iff hev).mp hexec
  · exact ⟨thread, rfl, h, .refl thread⟩
  · exact ⟨_, rfl, h.apply hpoint hadmitted⟩

end Call

/-! ### The hooks -/

/-- The record with its hash table in place. -/
def PerthreadData.withTable (thread : PerthreadData) : PerthreadData :=
  if thread.htab.size = 0 then { thread with htab := .hcreate thread.maxCaliperEntries }
  else thread

theorem PointsAssigned.withTable (h : PointsAssigned thread) :
    PointsAssigned thread.withTable ∧ PointsGrow thread thread.withTable := by
  unfold PerthreadData.withTable
  split
  · rename_i hsize
    refine ⟨⟨List.nodup_nil, List.nodup_nil, by simp [HsearchData.hcreate], h.maxCaliperUsed_lt,
      h.untouched, fun _ => rfl⟩, le_rfl, ?_, by simp [HsearchData.hcreate]⟩
    rw [h.created hsize]
    simp
  · exact ⟨h, .refl thread⟩

theorem PointsGrow.trans {first second third : PerthreadData} (h : PointsGrow first second)
    (h' : PointsGrow second third) (hsame : second.maxCaliperUsed = first.maxCaliperUsed) :
    PointsGrow first third where
  maxCaliperUsed_le := h.maxCaliperUsed_le.trans h'.maxCaliperUsed_le
  kept entry hentry := h'.kept entry (h.kept entry hentry)
  new entry hentry := by
    rcases h'.new entry hentry with hentry | hpoint
    · exact h.new entry hentry
    · exact .inr (hsame ▸ hpoint)

@[simp] theorem PerthreadData.withTable_maxCaliperUsed :
    thread.withTable.maxCaliperUsed = thread.maxCaliperUsed := by
  unfold withTable
  split <;> rfl

/-- A key that the table does not have is entered with the next point, which is then
started. -/
theorem PointsAssigned.enter (hev : cfg.eventcnt ≠ 0) (h : PointsAssigned thread) {key : Text}
    (hnew : thread.htab.find key = none)
    (hroom : thread.maxCaliperUsed + 1 < thread.maxCaliperEntries) {htab : HsearchData}
    (henter : thread.htab.enter key (thread.maxCaliperUsed + 1) = some htab)
    {label : Option Text} {io : Sampling}
    (hexec : papiexStart cfg (some { thread with htab }) (thread.maxCaliperUsed + 1 : ℕ) label io =
      .ok tls') :
    ∃ thread', tls' = some thread' ∧ PointsAssigned thread' ∧ PointsGrow thread thread' := by
  have hdata : thread.data (thread.maxCaliperUsed + 1) = {} :=
    h.untouched _ (Nat.lt_succ_self _)
  -- the point has never been started, so it is now
  have hstart : papiexStart cfg (some { thread with htab }) (thread.maxCaliperUsed + 1 : ℕ) label
      io = .ok (some (({ thread with htab } : PerthreadData).startPoint cfg
        (thread.maxCaliperUsed + 1) label io)) :=
    papiexStart_of_closed hev hroom (by rw [hdata])
  rw [hstart] at hexec
  cases hexec
  obtain ⟨hlength, heq⟩ := Option.ite_none_right_eq_some.mp henter
  obtain rfl := Option.some.inj heq
  -- the key was looked up in vain, and the point is above all that were started
  have hkey : key ∉ thread.htab.entries.map Prod.fst := by
    intro hmem
    obtain ⟨entry, hentry, rfl⟩ := List.mem_map.mp hmem
    have hne := List.lookup_eq_none_iff.mp hnew entry hentry
    simp at hne
  have hpoint : thread.maxCaliperUsed + 1 ∉ thread.htab.entries.map Prod.snd := by
    intro hmem
    obtain ⟨entry, hentry, hsnd⟩ := List.mem_map.mp hmem
    have hle := (h.point_bounds entry hentry).2
    omega
  have hused : max thread.maxCaliperUsed (thread.maxCaliperUsed + 1) = thread.maxCaliperUsed + 1 :=
    max_eq_right (Nat.le_succ _)
  refine ⟨_, rfl, ⟨?keys, ?points, ?bounds, ?below, ?untouched, ?created⟩, ?highest, ?kept, ?new⟩
  case keys =>
    simp only [PerthreadData.startPoint, PerthreadData.setCaliper_htab]
    rw [List.map_append, List.map_singleton, ← List.concat_eq_append, List.nodup_concat]
    exact ⟨hkey, h.keys_nodup⟩
  case points =>
    simp only [PerthreadData.startPoint, PerthreadData.setCaliper_htab]
    rw [List.map_append, List.map_singleton, ← List.concat_eq_append, List.nodup_concat]
    exact ⟨hpoint, h.points_nodup⟩
  case bounds =>
    intro entry hentry
    simp only [PerthreadData.startPoint, hused]
    rcases List.mem_append.mp hentry with hentry | hentry
    · exact (h.point_bounds entry hentry).imp_right fun hle => hle.trans (Nat.le_succ _)
    · rw [List.mem_singleton.mp hentry]
      exact ⟨Nat.succ_pos _, le_rfl⟩
  case below =>
    simp only [PerthreadData.startPoint, hused]
    exact hroom
  case untouched =>
    intro point habove
    simp only [PerthreadData.startPoint, hused] at habove
    have hne : point ≠ thread.maxCaliperUsed + 1 := by omega
    exact (PerthreadData.setCaliper_data_of_ne _ _ _ _ hne).trans (h.untouched point (by omega))
  case created =>
    intro hsize
    exact absurd (hlength.trans_eq hsize) (Nat.not_lt_zero _)
  case highest => exact le_max_left _ _
  case kept => exact fun entry hentry => List.mem_append_left _ hentry
  case new =>
    intro entry hentry
    rcases List.mem_append.mp hentry with hentry | hentry
    · exact .inl hentry
    · rw [List.mem_singleton.mp hentry]
      exact .inr rfl

/-- What a surviving entry can do, on the record with its table: it starts the point of
its key; it leaves a function alone for which there is no room; or it enters the key with
the next point and starts that. -/
theorem cygProfileFuncEnter_cases {gate : ℤ} (hgate : gate ≠ 0) {thisFn : UInt64} {stack : Text}
    {io : Sampling} (h : cygProfileFuncEnter cfg gate (some thread) thisFn stack io = .ok tls') :
    (∃ point : ℕ, papiexStart cfg (some thread.withTable) point none io = .ok tls') ∨
    tls' = some thread.withTable ∨
    thread.withTable.htab.find (keyOf thisFn stack) = none ∧
      thread.withTable.maxCaliperUsed + 1 < thread.withTable.maxCaliperEntries ∧
      ∃ htab, thread.withTable.htab.enter (keyOf thisFn stack)
          (thread.withTable.maxCaliperUsed + 1) = some htab ∧
        papiexStart cfg (some { thread.withTable with htab })
          (thread.withTable.maxCaliperUsed + 1 : ℕ) (some (functionLabel thisFn)) io =
        .ok tls' := by
  simp only [cygProfileFuncEnter, hgate, if_false] at h
  generalize htable : (if thread.htab.size = 0 then
    { thread with htab := .hcreate thread.maxCaliperEntries } else thread) = found at h
  obtain rfl : thread.withTable = found := htable
  cases hfind : thread.withTable.htab.find (keyOf thisFn stack) with
  | some point =>
      rw [hfind] at h
      exact .inl ⟨point, h⟩
  | none =>
      rw [hfind] at h
      by_cases hfull : thread.withTable.maxCaliperEntries ≤ thread.withTable.maxCaliperUsed + 1
      · simp only [hfull, if_true, Except.ok.injEq] at h
        exact .inr (.inl h.symm)
      · simp only [hfull, if_false] at h
        cases henter : thread.withTable.htab.enter (keyOf thisFn stack)
            (thread.withTable.maxCaliperUsed + 1) with
        | none =>
            rw [henter] at h
            cases h
        | some htab =>
            rw [henter] at h
            exact .inr (.inr ⟨rfl, not_le.mp hfull, htab, rfl, h⟩)

/-- A surviving exit stops the point of its key. -/
theorem cygProfileFuncExit_cases {gate : ℤ} (hgate : gate ≠ 0) {thisFn : UInt64} {stack : Text}
    {io : Sampling} (h : cygProfileFuncExit cfg gate (some thread) thisFn stack io = .ok tls') :
    ∃ point : ℕ, papiexStop cfg (some thread) point io = .ok tls' := by
  simp only [cygProfileFuncExit, hgate, if_false] at h
  cases hfind : thread.htab.find (keyOf thisFn stack) with
  | some point =>
      rw [hfind] at h
      exact ⟨point, h⟩
  | none =>
      rw [hfind] at h
      cases h

/-- With the gate closed a hook does nothing. -/
theorem FuncEvent.exec_gate_zero (event : FuncEvent) (tls : Option PerthreadData) :
    event.exec cfg 0 tls = .ok tls := by
  cases event <;> rfl

/-- **A hook of gcc keeps the invariant**, and takes no point back. -/
theorem PointsAssigned.exec_hook (hev : cfg.eventcnt ≠ 0) (h : PointsAssigned thread) {gate : ℤ}
    {event : FuncEvent} (hexec : event.exec cfg gate (some thread) = .ok tls') :
    ∃ thread', tls' = some thread' ∧ PointsAssigned thread' ∧ PointsGrow thread thread' := by
  by_cases hgate : gate = 0
  · rw [hgate, event.exec_gate_zero] at hexec
    cases hexec
    exact ⟨thread, rfl, h, .refl thread⟩
  cases event with
  | enter thisFn stack io =>
      obtain ⟨htable, hgrow⟩ := h.withTable
      have hlift : (∃ thread', tls' = some thread' ∧ PointsAssigned thread' ∧
          PointsGrow thread.withTable thread') →
          ∃ thread', tls' = some thread' ∧ PointsAssigned thread' ∧ PointsGrow thread thread' := by
        rintro ⟨thread', htls, hassigned, hmore⟩
        exact ⟨thread', htls, hassigned, hgrow.trans hmore (by simp)⟩
      rcases cygProfileFuncEnter_cases hgate hexec with
        ⟨point, hstart⟩ | rfl | ⟨hnew, hroom, htab, henter, hstart⟩
      · exact hlift (htable.exec_call (.start point none io) hev hstart)
      · exact ⟨_, rfl, htable, hgrow⟩
      · exact hlift (htable.enter hev hnew hroom henter hstart)
  | exit thisFn stack io =>
      obtain ⟨point, hstop⟩ := cygProfileFuncExit_cases hgate hexec
      exact h.exec_call (.stop point io) hev hstop

/-- **A surviving event keeps the points in order.** -/
theorem PointsAssigned.exec (hev : cfg.eventcnt ≠ 0) (h : PointsAssigned thread)
    {event : ThreadEvent} (hexec : event.exec cfg (some thread) = .ok tls') :
    ∃ thread', tls' = some thread' ∧ PointsAssigned thread' ∧ PointsGrow thread thread' := by
  cases event with
  | hook gate event => exact h.exec_hook hev hexec
  | manual call => exact h.exec_call call hev hexec

/-! ## Runs -/

/-- A run keeps the points in order, and the highest one never comes down. -/
theorem PointsAssigned.run (hev : cfg.eventcnt ≠ 0) (h : PointsAssigned thread)
    {events : List ThreadEvent}
    (hrun : FallibleRun.run (ThreadEvent.exec cfg) (some thread) events = .ok tls') :
    ∃ thread', tls' = some thread' ∧ PointsAssigned thread' ∧
      thread.maxCaliperUsed ≤ thread'.maxCaliperUsed := by
  refine FallibleRun.run_invariant (fun tls => ∃ thread', tls = some thread' ∧
    PointsAssigned thread' ∧ thread.maxCaliperUsed ≤ thread'.maxCaliperUsed) ?_
    ⟨thread, rfl, h, le_rfl⟩ hrun
  rintro event - _ after ⟨before, rfl, hassigned, hle⟩ hexec
  obtain ⟨thread', rfl, hassigned', hgrow⟩ := hassigned.exec hev hexec
  exact ⟨thread', rfl, hassigned', hle.trans hgrow.maxCaliperUsed_le⟩

/-- **Automatically assigned points are unique and in range.**  Take an initialised
thread and any run of hooks and of calls of the program that takes no error exit.  The
table maps distinct keys to distinct points between 1 and the highest point started, the
points above that are untouched, and a function that is newly mapped gets a point that
no state of the run so far had touched or mapped. -/
theorem points_assigned (fpOps fpIns : Bool) (settings : Config) (stamp : ℤ) (io : Sampling)
    (events : List ThreadEvent) (final : Option PerthreadData)
    (hrun : FallibleRun.run (ThreadEvent.exec (settings.withDefaultEvents fpOps fpIns))
      (some (.initialised (settings.withDefaultEvents fpOps fpIns) stamp io)) events =
        .ok final) :
    (∃ thread, final = some thread ∧ PointsAssigned thread) ∧
      ∀ front event rest before after, events = front ++ event :: rest →
        FallibleRun.run (ThreadEvent.exec (settings.withDefaultEvents fpOps fpIns))
          (some (.initialised (settings.withDefaultEvents fpOps fpIns) stamp io)) front =
            .ok (some before) →
        event.exec (settings.withDefaultEvents fpOps fpIns) (some before) = .ok (some after) →
        ∀ entry ∈ after.htab.entries, entry ∉ before.htab.entries →
          ∀ front₁ front₂ earlier, front = front₁ ++ front₂ →
            FallibleRun.run (ThreadEvent.exec (settings.withDefaultEvents fpOps fpIns))
              (some (.initialised (settings.withDefaultEvents fpOps fpIns) stamp io)) front₁ =
                .ok (some earlier) →
            earlier.data entry.2 = {} ∧ entry.2 ∉ earlier.htab.entries.map Prod.snd := by
  have hev : (settings.withDefaultEvents fpOps fpIns).eventcnt ≠ 0 :=
    (Config.eventcnt_withDefaultEvents_pos fpOps fpIns settings).ne'
  have hstart : PointsAssigned (.initialised (settings.withDefaultEvents fpOps fpIns) stamp io) :=
    pointsAssigned_initialised stamp io
  constructor
  · obtain ⟨thread, hfinal, hassigned, -⟩ := hstart.run hev hrun
    exact ⟨thread, hfinal, hassigned⟩
  · rintro front event rest before after - hfront hexec entry hentry hnew front₁ front₂ earlier
      rfl hearlier
    -- the new point is above the highest one now, and that one only grows
    obtain ⟨_, heq, hassigned, -⟩ := hstart.run hev hearlier
    cases heq
    obtain ⟨middle, hmiddle, hsecond⟩ := FallibleRun.run_append_eq_ok_iff.mp hfront
    rw [hearlier] at hmiddle
    cases hmiddle
    obtain ⟨_, heq, hbefore, hle⟩ := hassigned.run hev hsecond
    cases heq
    obtain ⟨_, heq, -, hgrow⟩ := hbefore.exec hev hexec
    cases heq
    have hpoint := (hgrow.new entry hentry).resolve_left hnew
    constructor
    · exact hassigned.untouched _ (by omega)
    · intro hmem
      obtain ⟨other, hother, hsame⟩ := List.mem_map.mp hmem
      have hbound := (hassigned.point_bounds other hother).2
      omega

/-- A program that starts point 3 itself before a function is first entered: the
function gets point 4. -/
theorem points_assigned_manual :
    ∃ thread, FallibleRun.run (ThreadEvent.exec (plainSettings.withDefaultEvents true true))
        (some (.initialised (plainSettings.withDefaultEvents true true) 0 (.ofReading 0)))
        [.manual (.start 3 none (.ofReading 10)),
          .hook 1 (.enter 0x400500 dirtyStack (.ofReading 20)),
          .manual (.stop 3 (.ofReading 30))] = .ok (some thread) ∧
      PointsAssigned thread ∧ thread.htab.entries.map Prod.snd = [4] := by
  have hrun : ∃ final, FallibleRun.run
      (ThreadEvent.exec (plainSettings.withDefaultEvents true true))
      (some (.initialised (plainSettings.withDefaultEvents true true) 0 (.ofReading 0)))
      [.manual (.start 3 none (.ofReading 10)),
        .hook 1 (.enter 0x400500 dirtyStack (.ofReading 20)),
        .manual (.stop 3 (.ofReading 30))] = .ok final := ⟨_, rfl⟩
  obtain ⟨final, hrun⟩ := hrun
  obtain ⟨⟨thread, rfl, hassigned⟩, -⟩ := points_assigned true true plainSettings 0 (.ofReading 0)
    _ final hrun
  refine ⟨thread, hrun, hassigned, ?_⟩
  cases hrun
  rfl

end Papiex
