import Mathlib.Algebra.Order.BigOperators.Group.List
import Papiex.Classic.Extremes

/-!
# The mean between the extremes

The mean of a caliper is the sum over the threads that have used it, divided by the
number of all the threads.  It can be less than the least value of the threads that have
used the caliper.

## Main results

* `meanData_caliper`: the mean of a caliper is over all threads, also those without it.
* `statistics_in_order_iff`: when it lies between the extremes all the same.

## Design notes

The division truncates, so whether a mean is below a value is decided by comparing integers:
the value times the number of threads with the sum.  Where the first thread has not used the
caliper the least value is 0, and nothing has to hold.  The mean is never above the greatest
value of the threads that have used the caliper.
-/

namespace Papiex

/-- Every record has `PAPIEX_MAX_CALIPERS` entries, as `papiex_thread_init_routine` has
set it up. -/
def FullSize (threads : List PerthreadData) : Prop :=
  ∀ thread ∈ threads, thread.maxCaliperEntries = maxCalipers

/-! ## The sums of a caliper -/

section

variable {cfg : Config} {threads : List PerthreadData} {j k : ℕ}

/-- If the tables are full the pass of the sums sees the records that the passes of the extremes
see. -/
theorem usedRecords_eq (hsize : FullSize threads) (hj : j ≠ 0) (hlt : j < maxCalipers) :
    usedRecords j threads = recordsOf j threads := by
  rw [usedRecords, recordsOf, List.filter_map]
  congr 1
  apply List.filter_congr
  intro thread hthread
  rw [Function.comp_apply, decide_eq_decide, mem_usedCalipers_iff, hsize thread hthread]
  exact ⟨fun h => h.2.2, fun h => ⟨hlt, hj, h⟩⟩

/-- **The sums of a caliper**, where the labels agree. -/
theorem processDataSums_records (cfg : Config) (hagree : LabelsAgree threads)
    (hsize : FullSize threads) (hj : j ≠ 0) (hlt : j < maxCalipers) :
    ((processDataSums cfg threads).data j).used =
        Binary32.sum ((recordsOf j threads).map CaliperData.used) ∧
      ∀ k < cfg.eventcnt, ((processDataSums cfg threads).data j).counters k =
        ((recordsOf j threads).map fun record => record.counters k).sum := by
  have hsum : SumOf cfg (usedRecords j threads) ((processDataSums cfg threads).data j) :=
    sumOf_processDataSums (hagree.at j) hj
  rw [usedRecords_eq hsize hj hlt] at hsum
  exact ⟨hsum.used_eq, hsum.counters_eq⟩

/-! ## The means -/

/-- The sum of some values divided by the number of threads, as `long long` values are. -/
def quotient (nthreads : ℕ) (vals : List ℤ) : ℤ := vals.sum.tdiv nthreads

/-- The sum of the numbers of executions tells if a thread used the caliper. -/
theorem used_processDataSums_pos_iff (cfg : Config) (hagree : LabelsAgree threads)
    (hsize : FullSize threads) (hj : j ≠ 0) (hlt : j < maxCalipers) :
    0 < ((processDataSums cfg threads).data j).used ↔ recordsOf j threads ≠ [] := by
  rw [(processDataSums_records cfg hagree hsize hj hlt).1, Binary32.sum_pos_iff
    (List.forall_mem_map.mpr fun record hrecord => (used_of_mem_recordsOf hrecord).le)]
  constructor
  · rintro ⟨used, hused, -⟩ hnil
    rw [hnil] at hused
    cases hused
  · intro hrecords
    obtain ⟨record, hrecord⟩ := List.exists_mem_of_ne_nil _ hrecords
    exact ⟨record.used, List.mem_map_of_mem hrecord, used_of_mem_recordsOf hrecord⟩

theorem meanData_whole (cfg : Config) (threads : List PerthreadData) {k : ℕ}
    (hk : k < cfg.eventcnt) : ((meanData cfg threads).data 0).counters k =
      quotient threads.length (threads.map fun thread => (thread.data 0).counters k) := by
  have hdata : ((meanData cfg threads).data 0).counters k =
      limitCounters cfg (fun k => (((processDataSums cfg threads).data 0).counters k).tdiv
        threads.length) k := by
    have hwhole : (meanData cfg threads).data 0 =
        meanWhole cfg threads.length ((processDataSums cfg threads).data 0) := rfl
    rw [hwhole, meanWhole, divideProfiling_counters]
  rw [hdata, limitCounters, if_pos hk, processDataSums_counters_zero hk, quotient]

/-- **The mean of a caliper**: the sums over the threads that have used it, divided by the
number of all the threads. -/
theorem meanData_caliper (cfg : Config) (hagree : LabelsAgree threads)
    (hsize : FullSize threads) (hj : j ≠ 0) (hlt : j < maxCalipers)
    (hrecords : recordsOf j threads ≠ []) :
    ((meanData cfg threads).data j).used = Binary32.round
        (Binary32.sum ((recordsOf j threads).map CaliperData.used) / threads.length) ∧
      ∀ k < cfg.eventcnt, ((meanData cfg threads).data j).counters k =
        quotient threads.length ((recordsOf j threads).map fun record => record.counters k) := by
  obtain ⟨hused, hcounters⟩ := processDataSums_records cfg hagree hsize hj hlt
  have hdata : (meanData cfg threads).data j =
      meanCaliper cfg threads.length ((processDataSums cfg threads).data j) := by
    rw [meanData_data, summaryRecords_caliper hj hlt]
  have hpos := (used_processDataSums_pos_iff cfg hagree hsize hj hlt).mpr hrecords
  obtain ⟨-, hmean, hquotients⟩ := meanCaliper_eq cfg threads.length hpos
  rw [hdata, hmean, hquotients, hused]
  refine ⟨rfl, fun k hk => ?_⟩
  rw [limitCounters, if_pos hk, hcounters k hk, quotient]

end

/-! ## The bounds of a quotient -/

section

variable {vals : List ℤ} {n : ℕ} {least greatest : ℤ}

/-- Division of what is not negative is that of the integers. -/
theorem quotient_eq_ediv (hpos : ∀ val ∈ vals, 0 ≤ val) : quotient n vals = vals.sum / n :=
  Int.tdiv_eq_ediv_of_nonneg (List.sum_nonneg hpos)

theorem quotient_nonneg (hpos : ∀ val ∈ vals, 0 ≤ val) : 0 ≤ quotient n vals := by
  rw [quotient_eq_ediv hpos]
  exact Int.ediv_nonneg (List.sum_nonneg hpos) (Int.natCast_nonneg n)

/-- A bound for the quotient is one for the sum. -/
theorem le_quotient_iff (hn : 0 < n) (hpos : ∀ val ∈ vals, 0 ≤ val) :
    least ≤ quotient n vals ↔ n * least ≤ vals.sum := by
  rw [quotient_eq_ediv hpos, Int.le_ediv_iff_mul_le (by exact_mod_cast hn), mul_comm]

/-- A quotient is at most the greatest of the values, if these are no more than `n`. -/
theorem quotient_le (hn : 0 < n) (hlength : vals.length ≤ n) (hpos : ∀ val ∈ vals, 0 ≤ val)
    (hvals : vals ≠ []) (hgreatest : ∀ val ∈ vals, val ≤ greatest) :
    quotient n vals ≤ greatest := by
  have hsum : vals.sum ≤ vals.length * greatest := by
    simpa using List.sum_le_card_nsmul vals greatest hgreatest
  obtain ⟨val, hval⟩ := List.exists_mem_of_ne_nil _ hvals
  have hzero : 0 ≤ greatest := (hpos val hval).trans (hgreatest val hval)
  have hmul : (vals.length : ℤ) * greatest ≤ n * greatest :=
    mul_le_mul_of_nonneg_right (by exact_mod_cast hlength) hzero
  rw [quotient_eq_ediv hpos]
  exact Int.ediv_le_of_le_mul (by exact_mod_cast hn) (by linarith)

/-- A quotient by the number of the values is at least the least of them. -/
theorem le_quotient (hpos : ∀ val ∈ vals, 0 ≤ val) (hvals : vals ≠ [])
    (hleast : ∀ val ∈ vals, least ≤ val) : least ≤ quotient vals.length vals := by
  rw [le_quotient_iff (List.length_pos_iff.mpr hvals) hpos]
  simpa using List.card_nsmul_le_sum vals least hleast

end

/-! ## The whole run -/

section

variable {cfg : Config} {threads : List PerthreadData} {j k : ℕ}

theorem extremeData_whole {pick : ℤ → ℤ → ℤ} {first : PerthreadData} {rest : List PerthreadData}
    (hk : k < cfg.eventcnt) :
    ((extremeData cfg pick (first :: rest)).data 0).counters k =
      (rest.map fun thread => (thread.data 0).counters k).foldl pick
        ((first.data 0).counters k) := by
  induction rest using List.reverseRecOn with
  | nil => exact if_pos hk
  | append_singleton rest thread ih =>
      rw [extremeData, List.foldl_append, ← extremeData, List.map_append, List.foldl_append, ← ih]
      exact if_pos hk

/-- The passes compare all the threads for the whole run. -/
theorem extremesOf_whole (hthreads : threads ≠ []) (hk : k < cfg.eventcnt) :
    ExtremesOf (threads.map fun thread => (thread.data 0).counters k)
      (((minData cfg threads).data 0).counters k) (((maxData cfg threads).data 0).counters k) := by
  cases threads with
  | nil => exact absurd rfl hthreads
  | cons first rest =>
      rw [minData, maxData, extremeData_whole hk, extremeData_whole hk]
      exact ⟨rfl, rfl⟩

/-- The three statistics of an event are in order. -/
def InOrder (cfg : Config) (threads : List PerthreadData) (j k : ℕ) : Prop :=
  ((minData cfg threads).data j).counters k ≤ ((meanData cfg threads).data j).counters k ∧
    ((meanData cfg threads).data j).counters k ≤ ((maxData cfg threads).data j).counters k

/-- **For the whole of the threads the statistics are always in order.** -/
theorem inOrder_whole (hthreads : threads ≠ []) (hk : k < cfg.eventcnt)
    (hpos : ∀ thread ∈ threads, 0 ≤ (thread.data 0).counters k) : InOrder cfg threads 0 k := by
  obtain ⟨hmin, hmax⟩ := extremesOf_whole hthreads hk
  have hvals : (threads.map fun thread => (thread.data 0).counters k) ≠ [] :=
    mt List.map_eq_nil_iff.mp hthreads
  have hpos' := List.forall_mem_map.mpr hpos
  have hlength : (threads.map fun thread => (thread.data 0).counters k).length = threads.length :=
    List.length_map _
  rw [InOrder, meanData_whole cfg threads hk]
  constructor
  · rw [← hlength]
    exact le_quotient hpos' hvals (List.min?_eq_some_iff.mp hmin).2
  · exact quotient_le (List.length_pos_iff.mpr hthreads) hlength.le hpos' hvals
      (List.max?_eq_some_iff.mp hmax).2

/-! ## A caliper -/

theorem counters_nonneg_of_mem_recordsOf (hk : k < cfg.eventcnt)
    (hcounts : ∀ thread ∈ threads, IsCounts cfg (thread.data j)) :
    ∀ count ∈ (recordsOf j threads).map (fun record => record.counters k), 0 ≤ count := by
  refine List.forall_mem_map.mpr fun record hrecord => ?_
  obtain ⟨thread, hthread, rfl⟩ := List.mem_map.mp (List.mem_of_mem_filter hrecord)
  exact (hcounts thread hthread).counters k hk

/-- The greatest value is right, whichever threads have used the caliper. -/
theorem max?_caliper (hj : j ≠ 0) (hlt : j < maxCalipers) (hk : k < cfg.eventcnt)
    (hcounts : ∀ thread ∈ threads, IsCounts cfg (thread.data j))
    (hrecords : recordsOf j threads ≠ []) :
    ((recordsOf j threads).map fun record => record.counters k).max? =
      some (((maxData cfg threads).data j).counters k) := by
  by_cases hfirst : FirstUses threads j
  · exact ((extremesRight_of_firstUses hj hlt hcounts hfirst).counters k hk).2
  · rw [maxData, (isQuantity_counters hk).extremeData_of_not_firstUses hj hlt hfirst]
    exact max?_eq_foldl_zero (mt List.map_eq_nil_iff.mp hrecords)
      (counters_nonneg_of_mem_recordsOf hk hcounts)

theorem length_recordsOf_le : (recordsOf j threads).length ≤ threads.length :=
  (List.length_filter_le _ _).trans (List.length_map _).le

/-- **The mean of a caliper is between its extremes** exactly if the least value is taken as
0, or does not exceed the mean. -/
theorem inOrder_caliper_iff (hagree : LabelsAgree threads) (hsize : FullSize threads)
    (hj : j ≠ 0) (hlt : j < maxCalipers) (hk : k < cfg.eventcnt)
    (hcounts : ∀ thread ∈ threads, IsCounts cfg (thread.data j))
    (hrecords : recordsOf j threads ≠ []) :
    InOrder cfg threads j k ↔ (FirstUses threads j → ∃ record ∈ recordsOf j threads,
      threads.length * record.counters k ≤
        ((recordsOf j threads).map fun record => record.counters k).sum) := by
  have hmean := (meanData_caliper cfg hagree hsize hj hlt hrecords).2 k hk
  have hpos := counters_nonneg_of_mem_recordsOf hk hcounts
  have hvals : ((recordsOf j threads).map fun record => record.counters k) ≠ [] :=
    mt List.map_eq_nil_iff.mp hrecords
  have hlength : 0 < threads.length :=
    (List.length_pos_iff.mpr hrecords).trans_le length_recordsOf_le
  -- the greatest value is at least the mean, whichever threads have used the caliper
  have hle : ((meanData cfg threads).data j).counters k ≤
      ((maxData cfg threads).data j).counters k := by
    rw [hmean]
    refine quotient_le hlength ?_ hpos hvals
      (List.max?_eq_some_iff.mp (max?_caliper hj hlt hk hcounts hrecords)).2
    exact (List.length_map _).trans_le length_recordsOf_le
  rw [InOrder, and_iff_left hle, hmean]
  by_cases hfirst : FirstUses threads j
  · have hmin := ((extremesRight_of_firstUses hj hlt hcounts hfirst).counters k hk).1
    obtain ⟨hmem, hleast⟩ := List.min?_eq_some_iff.mp hmin
    rw [le_quotient_iff hlength hpos]
    constructor
    · intro hsum _
      obtain ⟨record, hrecord, hcount⟩ := List.mem_map.mp hmem
      exact ⟨record, hrecord, by rwa [hcount]⟩
    · intro hexists
      obtain ⟨record, hrecord, hsum⟩ := hexists hfirst
      refine le_trans (mul_le_mul_of_nonneg_left ?_ (Int.natCast_nonneg _)) hsum
      exact hleast _ (List.mem_map_of_mem hrecord)
  · rw [minData, (isQuantity_counters hk).extremeData_of_not_firstUses hj hlt hfirst,
      foldl_min_zero hvals hpos]
    exact iff_of_true (quotient_nonneg hpos) fun h => absurd h hfirst

end

/-! ## All the statistics -/

/-- **The three statistics are in order** for the whole run, and for the calipers exactly
if the least value of one that the first thread has used does not exceed the mean over all
the threads. -/
theorem statistics_in_order_iff (cfg : Config) (threads : List PerthreadData)
    (hthreads : threads ≠ []) (hsize : FullSize threads) (hagree : LabelsAgree threads)
    (hcounts : ∀ thread ∈ threads, ∀ j, IsCounts cfg (thread.data j)) :
    (∀ j < maxCalipers, j = 0 ∨ recordsOf j threads ≠ [] → ∀ k < cfg.eventcnt,
        InOrder cfg threads j k) ↔
      ∀ j < maxCalipers, j ≠ 0 → FirstUses threads j → ∀ k < cfg.eventcnt,
        ∃ record ∈ recordsOf j threads, threads.length * record.counters k ≤
          ((recordsOf j threads).map fun record => record.counters k).sum := by
  have hcounts' : ∀ j, ∀ thread ∈ threads, IsCounts cfg (thread.data j) :=
    fun j thread hthread => hcounts thread hthread j
  constructor
  · intro horder j hlt hj hfirst k hk
    have hrecords : recordsOf j threads ≠ [] := recordsOf_ne_nil_of_firstUses hfirst
    exact (inOrder_caliper_iff hagree hsize hj hlt hk (hcounts' j) hrecords).mp
      (horder j hlt (.inr hrecords) k hk) hfirst
  · intro hleast j hlt hrecords k hk
    by_cases hj : j = 0
    · subst hj
      exact inOrder_whole hthreads hk fun thread hthread =>
        (hcounts' 0 thread hthread).counters k hk
    · exact (inOrder_caliper_iff hagree hsize hj hlt hk (hcounts' j)
        (hrecords.resolve_left hj)).mpr fun hfirst => hleast j hlt hj hfirst k hk

theorem caliperThreads (used used' : ℕ) (count count' : ℤ) :
    ∀ thread ∈ [caliperThread used count, caliperThread used' count'],
      ∃ used count, thread = caliperThread used count := by
  rw [List.forall_mem_cons, List.forall_mem_singleton]
  exact ⟨⟨used, count, rfl⟩, used', count', rfl⟩

theorem fullSize_caliperThreads {threads : List PerthreadData}
    (hthreads : ∀ thread ∈ threads, ∃ used count, thread = caliperThread used count) :
    FullSize threads := by
  intro thread hthread
  obtain ⟨used, count, rfl⟩ := hthreads thread hthread
  rfl

/-- Calipers without labels. -/
theorem labelsAgree_caliperThreads {threads : List PerthreadData}
    (hthreads : ∀ thread ∈ threads, ∃ used count, thread = caliperThread used count) :
    LabelsAgree threads := by
  have hlabel : ∀ thread ∈ threads, ∀ j, (thread.data j).label = [] := by
    intro thread hthread j
    obtain ⟨used, count, rfl⟩ := hthreads thread hthread
    rw [caliperThread_data]
    split <;> rfl
  intro thread hthread other hother j _ _
  rw [hlabel thread hthread, hlabel other hother]

/-- Two threads that both used the caliper. -/
theorem statistics_in_order_twoUsers :
    ([caliperThread 2 7, caliperThread 1 9] ≠ [] ∧
      FullSize [caliperThread 2 7, caliperThread 1 9] ∧
      LabelsAgree [caliperThread 2 7, caliperThread 1 9] ∧
      ∀ thread ∈ [caliperThread 2 7, caliperThread 1 9], ∀ j, IsCounts oneEvent (thread.data j)) ∧
    ∀ j < maxCalipers, j = 0 ∨ recordsOf j [caliperThread 2 7, caliperThread 1 9] ≠ [] →
      ∀ k < oneEvent.eventcnt, InOrder oneEvent [caliperThread 2 7, caliperThread 1 9] j k := by
  have hthreads := caliperThreads 2 1 7 9
  have hsize := fullSize_caliperThreads hthreads
  have hagree := labelsAgree_caliperThreads hthreads
  have hcounts : ∀ thread ∈ [caliperThread 2 7, caliperThread 1 9],
      ∀ j, IsCounts oneEvent (thread.data j) :=
    isCounts_caliperThreads (by norm_num) (by norm_num) (by norm_num) (by norm_num) _
  refine ⟨⟨by simp, hsize, hagree, hcounts⟩,
    (statistics_in_order_iff oneEvent _ (by simp) hsize hagree hcounts).mpr ?_⟩
  intro j _ _ hfirst k hk
  obtain rfl := eq_one_of_recordsOf_ne_nil hthreads (recordsOf_ne_nil_of_firstUses hfirst)
  obtain rfl : k = 0 := Nat.lt_one_iff.mp hk
  decide +kernel

/-- **The mean of a caliper that only the first of two threads has used, with a count of
7, is 3**: less than the least value, which is 7. -/
theorem statistics_in_order_oneUser :
    (FullSize [caliperThread 2 7, caliperThread 0 0] ∧
      LabelsAgree [caliperThread 2 7, caliperThread 0 0] ∧
      ∀ thread ∈ [caliperThread 2 7, caliperThread 0 0], ∀ j, IsCounts oneEvent (thread.data j)) ∧
    ¬ ∀ j < maxCalipers, j = 0 ∨ recordsOf j [caliperThread 2 7, caliperThread 0 0] ≠ [] →
      ∀ k < oneEvent.eventcnt, InOrder oneEvent [caliperThread 2 7, caliperThread 0 0] j k := by
  have hthreads := caliperThreads 2 0 7 0
  refine ⟨⟨fullSize_caliperThreads hthreads, labelsAgree_caliperThreads hthreads,
    isCounts_caliperThreads (by norm_num) (by norm_num) (by norm_num) (by norm_num) _⟩, ?_⟩
  intro horder
  have hmin := (horder 1 (by decide) (.inr (by decide +kernel)) 0 (by decide)).1
  revert hmin
  decide +kernel

end Papiex
