import Papiex.Caliper.Within
import Papiex.Classic.Summary

/-!
# Least, greatest and mean values

The passes for the least and the greatest values compare a caliper of the first thread
only if this thread has used it.  Otherwise the comparison starts from a record of zeros.
For the greatest values that makes no difference, but the least values then are all 0.

## Main results

* `IsQuantity.extremeData`, `IsPick.used_extremeData`: what a pass leaves in a record.
* `extremes_right_iff`: when this is the least and the greatest value over the threads that
  have used the caliper.

## Design notes

What is compared in the passes is a quantity of a record, of which two facts are needed
(`IsQuantity`): it is zero in a record of zeros, and the passes take it together like the
counters.  Each counter and the cycles are instances.  The number of uses is a `float` and is
followed beside them, for the least and the greatest values at once (`IsPick`).
-/

namespace Papiex

/-! ## A caliper in the passes -/

/-- The records of a caliper in the threads that have used it. -/
def recordsOf (j : ℕ) (threads : List PerthreadData) : List CaliperData :=
  (threads.map fun thread => thread.data j).filter fun record => decide (0 < record.used)

/-- The first thread, and whether it has used a caliper. -/
def FirstUses (threads : List PerthreadData) (j : ℕ) : Prop :=
  ∃ first, threads.head? = some first ∧ 0 < (first.data j).used

theorem firstUses_cons {first : PerthreadData} {rest : List PerthreadData} {j : ℕ} :
    FirstUses (first :: rest) j ↔ 0 < (first.data j).used := by
  simp [FirstUses]

theorem not_firstUses_nil (j : ℕ) : ¬ FirstUses [] j := by
  simp [FirstUses]

/-- What the passes take together caliper by caliper. -/
structure IsQuantity (cfg : Config) (quantity : CaliperData → ℤ) : Prop where
  zero : quantity {} = 0
  combine : ∀ combine left right used,
    quantity { combineCaliper cfg combine left right with used } =
      combine (quantity left) (quantity right)

/-- A counter is copied and compared like any quantity. -/
theorem isQuantity_counters {cfg : Config} {k : ℕ} (hk : k < cfg.eventcnt) :
    IsQuantity cfg fun record => record.counters k where
  zero := rfl
  combine combine left right used := by
    have hcounters : combineCounters cfg combine left.counters right.counters k =
        combine (left.counters k) (right.counters k) := if_pos hk
    simp only [combineCaliper]
    split <;> exact hcounters

/-- The cycles are copied and compared like any quantity. -/
theorem isQuantity_realCyc (cfg : Config) : IsQuantity cfg CaliperData.realCyc where
  zero := rfl
  combine combine left right used := by
    simp only [combineCaliper]
    split <;> rfl

section

variable {cfg : Config} {pick : ℤ → ℤ → ℤ} {quantity : CaliperData → ℤ} {j : ℕ}
  {first : PerthreadData} {rest threads : List PerthreadData}

/-- The pass begins with the record of the first thread. -/
theorem copyThread_data (hj : j ≠ 0) (hlt : j < maxCalipers) :
    (copyThread cfg first).data j = copyCaliper cfg (first.data j) := by
  rw [copyThread, combineProfiling_data, summaryRecords_caliper hj hlt]

/-- The pass goes on with the record of each thread. -/
theorem compareThread_data {extremes thread : PerthreadData} (hj : j ≠ 0)
    (hlt : j < maxCalipers) : (compareThread cfg pick extremes thread).data j =
      compareCaliper cfg pick (extremes.data j) (thread.data j) := by
  rw [compareThread, combineProfiling_data, summaryRecords_caliper hj hlt]

/-- The record of a caliper depends on the records of this caliper only. -/
theorem extremeData_data (hj : j ≠ 0) (hlt : j < maxCalipers) :
    (extremeData cfg pick (first :: rest)).data j =
      (rest.map fun thread => thread.data j).foldl (compareCaliper cfg pick)
        (copyCaliper cfg (first.data j)) := by
  induction rest using List.reverseRecOn with
  | nil => exact copyThread_data hj hlt
  | append_singleton rest thread ih =>
      rw [extremeData, List.foldl_append, ← extremeData, List.map_append, List.foldl_append, ← ih]
      exact compareThread_data hj hlt

theorem foldl_compareCaliper (records : List CaliperData) (extreme : CaliperData) :
    records.foldl (compareCaliper cfg pick) extreme =
      (records.filter fun record => decide (0 < record.used)).foldl (compareCaliper cfg pick)
        extreme := by
  induction records generalizing extreme with
  | nil => rfl
  | cons record records ih =>
      by_cases hused : 0 < record.used
      · rw [List.filter_cons_of_pos (by simpa using hused), List.foldl_cons, List.foldl_cons, ih]
      · rw [List.filter_cons_of_neg (by simpa using hused), List.foldl_cons, ih, compareCaliper,
          if_neg hused]

/-- A quantity of the records that are compared. -/
theorem IsQuantity.foldl_compareCaliper (hquantity : IsQuantity cfg quantity)
    {records : List CaliperData} (hused : ∀ record ∈ records, 0 < record.used)
    (extreme : CaliperData) :
    quantity (records.foldl (compareCaliper cfg pick) extreme) =
      (records.map quantity).foldl pick (quantity extreme) := by
  induction records generalizing extreme with
  | nil => rfl
  | cons record records ih =>
      rw [List.forall_mem_cons] at hused
      rw [List.foldl_cons, ih hused.2, compareCaliper, if_pos hused.1, hquantity.combine,
        List.map_cons, List.foldl_cons]

/-- The record of a thread that used the caliper is one of those compared. -/
theorem recordsOf_cons_of_used (hused : 0 < (first.data j).used) :
    recordsOf j (first :: rest) = first.data j :: recordsOf j rest :=
  List.filter_cons_of_pos (by simpa using hused)

/-- The record of a thread that did not is none of them. -/
theorem recordsOf_cons_of_not_used (hused : ¬ 0 < (first.data j).used) :
    recordsOf j (first :: rest) = recordsOf j rest :=
  List.filter_cons_of_neg (by simpa using hused)

theorem used_of_mem_recordsOf {record : CaliperData} (h : record ∈ recordsOf j threads) :
    0 < record.used :=
  of_decide_eq_true (List.mem_filter.mp h).2

/-- If the first thread used the caliper, there is a record. -/
theorem recordsOf_ne_nil_of_firstUses (hfirst : FirstUses threads j) :
    recordsOf j threads ≠ [] := by
  cases threads with
  | nil => exact absurd hfirst (not_firstUses_nil j)
  | cons first rest =>
      rw [recordsOf_cons_of_used (firstUses_cons.mp hfirst)]
      exact List.cons_ne_nil _ _

/-- **A quantity of a caliper after a pass**: the values of the threads that have used the
caliper, compared with each other, or with 0 if the first thread has not used it. -/
theorem IsQuantity.extremeData (hquantity : IsQuantity cfg quantity) (hj : j ≠ 0)
    (hlt : j < maxCalipers) :
    quantity ((extremeData cfg pick (first :: rest)).data j) =
      ((recordsOf j rest).map quantity).foldl pick
        (if 0 < (first.data j).used then quantity (first.data j) else 0) := by
  rw [extremeData_data hj hlt, Papiex.foldl_compareCaliper, ← recordsOf,
    hquantity.foldl_compareCaliper fun record => used_of_mem_recordsOf]
  congr 1
  unfold copyCaliper
  split
  · rw [hquantity.combine]
    rfl
  · exact hquantity.zero

/-- If the first thread has not used a caliper, the others are compared with 0. -/
theorem IsQuantity.extremeData_of_not_firstUses (hquantity : IsQuantity cfg quantity) (hj : j ≠ 0)
    (hlt : j < maxCalipers) (hfirst : ¬ FirstUses threads j) :
    quantity ((Papiex.extremeData cfg pick threads).data j) =
      ((recordsOf j threads).map quantity).foldl pick 0 := by
  cases threads with
  | nil => exact hquantity.zero
  | cons first rest =>
      have hused := mt firstUses_cons.mpr hfirst
      rw [hquantity.extremeData hj hlt, if_neg hused, recordsOf_cons_of_not_used hused]

/-! ## The counts of the executions -/

/-- A `float` that holds a whole number. -/
def IsUseCount (used : ℚ) : Prop := ∃ n : ℕ, used = n ∧ Binary32.round used = used

/-- A whole number is not changed by the cast to `long long`. -/
theorem truncate_natCast (n : ℕ) : truncate (n : ℚ) = n := by
  rw [truncate, if_pos (Nat.cast_nonneg n), Int.floor_natCast]

theorem isUseCount_zero : IsUseCount 0 := ⟨0, by norm_num, Binary32.round_zero⟩

/-- A `float` holds the whole numbers up to `2 ^ 24`. -/
theorem isUseCount_natCast {n : ℕ} (hn : n ≤ 2 ^ 24) : IsUseCount n :=
  ⟨n, rfl, Binary32.round_natCast_le hn⟩

/-- What `papiex_stop` and `papiex_accum` count in a thread is a number of executions, so the
condition on the counts below holds after every run. -/
theorem isUseCount_of_run {cfg : Config} (hev : cfg.eventcnt ≠ 0) {calls : List Call}
    {thread : PerthreadData}
    (hrun : FallibleRun.run (Call.exec cfg) (some {}) calls = .ok (some thread)) (j : ℕ) :
    IsUseCount (thread.data j).used := by
  obtain ⟨same, hsame, hwhole⟩ := countsUses_of_run hev hrun
  cases hsame
  obtain ⟨n, hn, hused⟩ := hwhole j
  rw [hused]
  exact isUseCount_natCast hn

/-- A comparison that takes one of its arguments, on integers and on the same numbers as
rationals. -/
structure IsPick (pick : ℤ → ℤ → ℤ) (ratPick : ℚ → ℚ → ℚ) : Prop where
  cast : ∀ a b : ℤ, ((pick a b : ℤ) : ℚ) = ratPick a b
  choice : ∀ a b : ℚ, ratPick a b = a ∨ ratPick a b = b

theorem isPick_min : IsPick min min := ⟨fun _ _ => Int.cast_min, min_choice⟩

theorem isPick_max : IsPick max max := ⟨fun _ _ => Int.cast_max, max_choice⟩

/-- Comparing two numbers of executions as `long long` is comparing them. -/
theorem IsPick.round_eq {ratPick : ℚ → ℚ → ℚ} (hpick : IsPick pick ratPick) {left right : ℚ}
    (hleft : IsUseCount left) (hright : IsUseCount right) :
    Binary32.round (pick (truncate left) (truncate right)) = ratPick left right ∧
      IsUseCount (ratPick left right) := by
  have hcount : IsUseCount (ratPick left right) := by
    rcases hpick.choice left right with heq | heq
    · rwa [heq]
    · rwa [heq]
  have hround : Binary32.round (ratPick left right) = ratPick left right := hcount.choose_spec.2
  obtain ⟨n, rfl, -⟩ := hleft
  obtain ⟨m, rfl, -⟩ := hright
  rw [truncate_natCast, truncate_natCast, hpick.cast, Int.cast_natCast, Int.cast_natCast]
  exact ⟨hround, hcount⟩

/-- The comparisons pick one of the numbers of executions. -/
theorem IsPick.foldl_compareCaliper {ratPick : ℚ → ℚ → ℚ} (hpick : IsPick pick ratPick)
    {records : List CaliperData} (hused : ∀ record ∈ records, 0 < record.used)
    (hcounts : ∀ record ∈ records, IsUseCount record.used) {extreme : CaliperData}
    (hextreme : IsUseCount extreme.used) :
    (records.foldl (compareCaliper cfg pick) extreme).used =
      (records.map CaliperData.used).foldl ratPick extreme.used := by
  induction records generalizing extreme with
  | nil => rfl
  | cons record records ih =>
      rw [List.forall_mem_cons] at hused hcounts
      obtain ⟨hround, hcount⟩ := hpick.round_eq hextreme hcounts.1
      have hstep : (compareCaliper cfg pick extreme record).used =
          ratPick extreme.used record.used := by
        rw [compareCaliper, if_pos hused.1, hround]
      rw [List.foldl_cons, ih hused.2 hcounts.2 (hstep ▸ hcount), hstep, List.map_cons,
        List.foldl_cons]

/-- **The number of executions after a pass.** -/
theorem IsPick.used_extremeData {ratPick : ℚ → ℚ → ℚ} (hpick : IsPick pick ratPick) (hj : j ≠ 0)
    (hlt : j < maxCalipers)
    (hcounts : ∀ thread ∈ first :: rest, IsUseCount (thread.data j).used) :
    ((extremeData cfg pick (first :: rest)).data j).used =
      ((recordsOf j rest).map CaliperData.used).foldl ratPick
        (if 0 < (first.data j).used then (first.data j).used else 0) := by
  have hcopy : (copyCaliper cfg (first.data j)).used =
      if 0 < (first.data j).used then (first.data j).used else 0 := by
    unfold copyCaliper
    split <;> rfl
  have hrecords : ∀ record ∈ recordsOf j rest, IsUseCount record.used := by
    intro record hrecord
    obtain ⟨thread, hthread, rfl⟩ := List.mem_map.mp (List.mem_of_mem_filter hrecord)
    exact hcounts thread (List.mem_cons_of_mem _ hthread)
  rw [extremeData_data hj hlt, Papiex.foldl_compareCaliper, ← recordsOf,
    hpick.foldl_compareCaliper (fun record => used_of_mem_recordsOf) hrecords, hcopy]
  rw [hcopy]
  split
  · exact hcounts first List.mem_cons_self
  · exact isUseCount_zero

end

/-! ## From the first thread on, or from zero -/

section

variable {α : Type*} [LinearOrder α] [Zero α] {vals : List α}

/-- Nothing that is not negative is less than 0, where the pass starts from. -/
theorem foldl_min_zero (hvals : vals ≠ []) (hpos : ∀ val ∈ vals, 0 ≤ val) :
    vals.foldl min 0 = 0 := by
  rw [List.foldl_min, List.min?_eq_some_min hvals, Option.getD_some, min_eq_left]
  exact hpos _ (List.min_mem hvals)

/-- For a maximum it is no harm to start from 0. -/
theorem max?_eq_foldl_zero (hvals : vals ≠ []) (hpos : ∀ val ∈ vals, 0 ≤ val) :
    vals.max? = some (vals.foldl max 0) := by
  rw [List.foldl_max, List.max?_eq_some_max hvals, Option.getD_some, max_eq_right]
  exact hpos _ (List.max_mem hvals)

end

/-- The least and the greatest of these values. -/
def ExtremesOf {α : Type*} [Min α] [Max α] (vals : List α) (least greatest : α) : Prop :=
  vals.min? = some least ∧ vals.max? = some greatest

/-- Counts are not negative. -/
structure IsCounts (cfg : Config) (record : CaliperData) : Prop where
  counters : ∀ k < cfg.eventcnt, 0 ≤ record.counters k
  realCyc : 0 ≤ record.realCyc
  used : IsUseCount record.used

/-- The passes find the least and the greatest values of a caliper over the threads that
have used it. -/
structure ExtremesRight (cfg : Config) (threads : List PerthreadData) (j : ℕ) : Prop where
  counters : ∀ k < cfg.eventcnt,
    ExtremesOf ((recordsOf j threads).map fun record => record.counters k)
      (((minData cfg threads).data j).counters k) (((maxData cfg threads).data j).counters k)
  realCyc : ExtremesOf ((recordsOf j threads).map CaliperData.realCyc)
    ((minData cfg threads).data j).realCyc ((maxData cfg threads).data j).realCyc
  used : ExtremesOf ((recordsOf j threads).map CaliperData.used)
    ((minData cfg threads).data j).used ((maxData cfg threads).data j).used

section

variable {cfg : Config} {threads : List PerthreadData} {j : ℕ}

/-- If the first thread used the caliper, the passes find the extremes of a quantity. -/
theorem IsQuantity.extremesOf {quantity : CaliperData → ℤ} (hquantity : IsQuantity cfg quantity)
    (hj : j ≠ 0) (hlt : j < maxCalipers) (hfirst : FirstUses threads j) :
    ExtremesOf ((recordsOf j threads).map quantity) (quantity ((minData cfg threads).data j))
      (quantity ((maxData cfg threads).data j)) := by
  cases threads with
  | nil => exact absurd hfirst (not_firstUses_nil j)
  | cons first rest =>
      have hused := firstUses_cons.mp hfirst
      rw [minData, maxData, hquantity.extremeData hj hlt, hquantity.extremeData hj hlt,
        recordsOf_cons_of_used hused, if_pos hused]
      exact ⟨rfl, rfl⟩

/-- A caliper that the first thread has used. -/
theorem extremesRight_of_firstUses (hj : j ≠ 0) (hlt : j < maxCalipers)
    (hcounts : ∀ thread ∈ threads, IsCounts cfg (thread.data j)) (hfirst : FirstUses threads j) :
    ExtremesRight cfg threads j where
  counters k hk := (isQuantity_counters hk).extremesOf hj hlt hfirst
  realCyc := (isQuantity_realCyc cfg).extremesOf hj hlt hfirst
  used := by
    cases threads with
    | nil => exact absurd hfirst (not_firstUses_nil j)
    | cons first rest =>
        have hused := firstUses_cons.mp hfirst
        have huses := fun thread hthread => (hcounts thread hthread).used
        rw [minData, maxData, isPick_min.used_extremeData hj hlt huses,
          isPick_max.used_extremeData hj hlt huses, recordsOf_cons_of_used hused, if_pos hused]
        exact ⟨rfl, rfl⟩

/-- A caliper that the first thread has not used: the least number of executions is 0. -/
theorem used_minData_of_not_firstUses (hj : j ≠ 0) (hlt : j < maxCalipers)
    (hcounts : ∀ thread ∈ threads, IsCounts cfg (thread.data j))
    (hrecords : recordsOf j threads ≠ []) (hfirst : ¬ FirstUses threads j) :
    ((minData cfg threads).data j).used = 0 := by
  cases threads with
  | nil => exact absurd rfl hrecords
  | cons first rest =>
      have hused := mt firstUses_cons.mpr hfirst
      rw [recordsOf_cons_of_not_used hused] at hrecords
      rw [minData, isPick_min.used_extremeData hj hlt fun thread hthread =>
        (hcounts thread hthread).used, if_neg hused]
      refine foldl_min_zero (mt List.map_eq_nil_iff.mp hrecords) ?_
      exact List.forall_mem_map.mpr fun record hrecord => (used_of_mem_recordsOf hrecord).le

end

/-! ## Threads with one caliper -/

/-- Settings with one event and without the profiling wrappers. -/
def oneEvent : Config where
  eventnames := ["PAPI_TOT_CYC".toList]
  fullCaliperData := false
  noMpiProf := true
  isMpied := false
  noIoProf := true
  noThreadsyncProf := true

/-- A thread that has executed caliper 1 so many times, with this count. -/
def caliperThread (used : ℕ) (count : ℤ) : PerthreadData :=
  PerthreadData.setCaliper {} 1 { used, realCyc := count, counters := fun _ => count }

theorem caliperThread_data (used : ℕ) (count : ℤ) (j : ℕ) :
    (caliperThread used count).data j =
      if j = 1 then { used, realCyc := count, counters := fun _ => count } else {} := by
  split
  · next h => rw [h, caliperThread, PerthreadData.setCaliper_data_self]
  · next h => rw [caliperThread, PerthreadData.setCaliper_data_of_ne _ _ _ _ h]

theorem isCounts_caliperThread {used : ℕ} (hused : used ≤ 2 ^ 24) {count : ℤ} (hcount : 0 ≤ count)
    (cfg : Config) (j : ℕ) : IsCounts cfg ((caliperThread used count).data j) := by
  rw [caliperThread_data]
  split
  · exact ⟨fun _ _ => hcount, hcount, isUseCount_natCast hused⟩
  · exact ⟨fun _ _ => le_rfl, le_rfl, isUseCount_zero⟩

theorem isCounts_caliperThreads {used used' : ℕ} {count count' : ℤ} (hused : used ≤ 2 ^ 24)
    (hused' : used' ≤ 2 ^ 24) (hcount : 0 ≤ count) (hcount' : 0 ≤ count') (cfg : Config) :
    ∀ thread ∈ [caliperThread used count, caliperThread used' count'],
      ∀ j, IsCounts cfg (thread.data j) := by
  rw [List.forall_mem_cons, List.forall_mem_singleton]
  exact ⟨isCounts_caliperThread hused hcount cfg, isCounts_caliperThread hused' hcount' cfg⟩

/-- No other caliper is in use. -/
theorem eq_one_of_recordsOf_ne_nil {threads : List PerthreadData}
    (hthreads : ∀ thread ∈ threads, ∃ used count, thread = caliperThread used count) {j : ℕ}
    (hrecords : recordsOf j threads ≠ []) : j = 1 := by
  obtain ⟨record, hrecord⟩ := List.exists_mem_of_ne_nil _ hrecords
  obtain ⟨thread, hthread, rfl⟩ := List.mem_map.mp (List.mem_of_mem_filter hrecord)
  have hused := used_of_mem_recordsOf hrecord
  obtain ⟨used, count, rfl⟩ := hthreads thread hthread
  by_contra hne
  rw [caliperThread_data, if_neg hne] at hused
  exact lt_irrefl 0 hused

/-! ## The least and the greatest values of the calipers -/

/-- **The passes find the least and the greatest values over the threads that have used a
caliper** exactly if the first thread is one of them. -/
theorem extremes_right_iff (cfg : Config) (threads : List PerthreadData)
    (hcounts : ∀ thread ∈ threads, ∀ j, IsCounts cfg (thread.data j)) :
    (∀ j, j ≠ 0 → j < maxCalipers → recordsOf j threads ≠ [] → ExtremesRight cfg threads j) ↔
      ∀ j, j ≠ 0 → j < maxCalipers → recordsOf j threads ≠ [] → FirstUses threads j := by
  constructor
  · intro hright j hj hlt hrecords
    by_contra hfirst
    have hzero := used_minData_of_not_firstUses hj hlt
      (fun thread hthread => hcounts thread hthread j)
      hrecords hfirst
    have hmin := (hright j hj hlt hrecords).used.1
    rw [hzero] at hmin
    obtain ⟨record, hrecord, hused⟩ := List.mem_map.mp (List.min?_mem hmin)
    exact (used_of_mem_recordsOf hrecord).ne' hused
  · intro hfirst j hj hlt hrecords
    exact extremesRight_of_firstUses hj hlt (fun thread hthread => hcounts thread hthread j)
      (hfirst j hj hlt hrecords)

/-- Two threads that both used the caliper. -/
theorem extremes_right_twoUsers :
    (∀ thread ∈ [caliperThread 2 7, caliperThread 1 5], ∀ j, IsCounts oneEvent (thread.data j)) ∧
      ∀ j, j ≠ 0 → j < maxCalipers →
        recordsOf j [caliperThread 2 7, caliperThread 1 5] ≠ [] →
        ExtremesRight oneEvent [caliperThread 2 7, caliperThread 1 5] j := by
  have hcounts : ∀ thread ∈ [caliperThread 2 7, caliperThread 1 5],
      ∀ j, IsCounts oneEvent (thread.data j) :=
    isCounts_caliperThreads (by norm_num) (by norm_num) (by norm_num) (by norm_num) _
  refine ⟨hcounts, (extremes_right_iff oneEvent _ hcounts).mpr fun j _ _ hrecords => ?_⟩
  have hone : j = 1 := by
    refine eq_one_of_recordsOf_ne_nil ?_ hrecords
    rw [List.forall_mem_cons, List.forall_mem_singleton]
    exact ⟨⟨2, 7, rfl⟩, 1, 5, rfl⟩
  subst hone
  exact firstUses_cons.mpr (by decide +kernel)

/-- **Of a caliper with a count of 5 in the second thread only, 0 is the least value.** -/
theorem extremes_right_secondUser :
    (∀ thread ∈ [caliperThread 0 0, caliperThread 1 5], ∀ j, IsCounts oneEvent (thread.data j)) ∧
      ¬ ∀ j, j ≠ 0 → j < maxCalipers →
        recordsOf j [caliperThread 0 0, caliperThread 1 5] ≠ [] →
        ExtremesRight oneEvent [caliperThread 0 0, caliperThread 1 5] j := by
  refine ⟨isCounts_caliperThreads (by norm_num) (by norm_num) (by norm_num) (by norm_num) _, ?_⟩
  intro hright
  have hmin := ((hright 1 (by decide) (by decide) (by decide +kernel)).counters 0 (by decide)).1
  revert hmin
  decide +kernel

end Papiex
