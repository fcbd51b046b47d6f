import Mathlib.Analysis.Real.Sqrt
import Papiex.Classic.Mean

/-!
# The standard deviation

The squared differences of a caliper are added up over the threads that have used it.
The last pass takes the root of them, but only if there is a squared difference between
the numbers of executions: the deviation of a counter is lost if all the threads have
executed the caliper equally often.

## Main results

* `stddevData_of_allUse`: what is stored for a caliper that all threads have used.
* `spread_shown_iff`: where the deviation is the one of the counts.

## Design notes

The root is truncated, so a spread that is smaller than the number of threads comes to 0 in
any case, and nothing is asked of it.  The guard looks at the squared differences of the
numbers of uses, which are truncated to integers before they are subtracted, and so is their
mean.
-/

namespace Papiex

/-! ## The root -/

/-- The root is taken of the quotient, and then truncated. -/
theorem stddevOf_eq_floor {n : ℕ} (hn : 0 < n) {squares : ℤ} (hsquares : 0 ≤ squares) :
    stddevOf n squares = ⌊√((squares : ℝ) / n)⌋ := by
  obtain ⟨s, rfl⟩ := Int.eq_ofNat_of_zero_le hsquares
  have hnreal : (0 : ℝ) < n := by exact_mod_cast hn
  have hlow : Nat.sqrt (s / n) * Nat.sqrt (s / n) * n ≤ s :=
    (Nat.le_div_iff_mul_le hn).mp (Nat.sqrt_le (s / n))
  have hhigh : s < (Nat.sqrt (s / n) + 1) * (Nat.sqrt (s / n) + 1) * n :=
    (Nat.div_lt_iff_lt_mul hn).mp (Nat.lt_succ_sqrt (s / n))
  symm
  rw [stddevOf, Int.toNat_natCast, Int.floor_eq_iff]
  constructor
  · apply Real.le_sqrt_of_sq_le
    rw [le_div_iff₀ hnreal, sq]
    exact_mod_cast hlow
  · rw [Real.sqrt_lt' (by positivity), div_lt_iff₀ hnreal, sq]
    exact_mod_cast hhigh

/-! ## The squared differences of a caliper -/

/-- The squared differences of these values to a mean. -/
def squaredDifferences (mean : ℤ) (vals : List ℤ) : ℤ := (vals.map (sqdiffLl mean)).sum

theorem squaredDifferences_nonneg (mean : ℤ) (vals : List ℤ) : 0 ≤ squaredDifferences mean vals :=
  List.sum_nonneg (List.forall_mem_map.mpr fun _ _ => sq_nonneg _)

section

variable {cfg : Config} {threads : List PerthreadData} {j k : ℕ}

theorem squaredSums_data (hj : j ≠ 0) (hlt : j < maxCalipers) :
    (squaredSums cfg threads).data j =
      (threads.map fun thread => thread.data j).foldl
        (squareCaliper cfg ((meanData cfg threads).data j)) {} := by
  have hfold : ∀ (rest : List PerthreadData) (sums : PerthreadData),
      (rest.foldl (squareThread cfg (meanData cfg threads)) sums).data j =
        (rest.map fun thread => thread.data j).foldl
          (squareCaliper cfg ((meanData cfg threads).data j)) (sums.data j) := by
    intro rest
    induction rest with
    | nil => exact fun _ => rfl
    | cons thread rest ih =>
        intro sums
        rw [List.foldl_cons, ih, squareThread_data, summaryRecords_caliper hj hlt]
        rfl
  exact hfold threads _

/-- The records that are added are those of the threads that have used the caliper. -/
theorem foldl_squareCaliper (cfg : Config) (mean : CaliperData) {records : List CaliperData}
    (hused : ∀ record ∈ records, 0 < record.used) (sums : CaliperData) :
    (records.foldl (squareCaliper cfg mean) sums).used =
        ((records.map fun record =>
            ((sqdiffLl (truncate mean.used) (truncate record.used) : ℤ) : ℚ)).foldl
          (fun total x => Binary32.round (total + x)) sums.used) ∧
      ∀ k < cfg.eventcnt, (records.foldl (squareCaliper cfg mean) sums).counters k =
        sums.counters k +
          squaredDifferences (mean.counters k) (records.map fun record => record.counters k) := by
  induction records generalizing sums with
  | nil => exact ⟨rfl, fun k _ => (add_zero _).symm⟩
  | cons record records ih =>
      rw [List.forall_mem_cons] at hused
      have hstep : (squareCaliper cfg mean sums record).used = Binary32.round
            (sums.used + (sqdiffLl (truncate mean.used) (truncate record.used) : ℤ)) ∧
          (squareCaliper cfg mean sums record).counters =
            squareCounters cfg mean.counters sums.counters record.counters := by
        rw [squareCaliper, if_pos hused.1]
        dsimp only
        split <;> exact ⟨rfl, rfl⟩
      obtain ⟨hsum, hcounters⟩ := ih hused.2 (squareCaliper cfg mean sums record)
      constructor
      · rw [List.foldl_cons, hsum, hstep.1]
        rfl
      · intro k hk
        rw [List.foldl_cons, hcounters k hk, hstep.2, squareCounters, if_pos hk, addSqdiff,
          add_assoc]
        rfl

end

/-! ## Calipers that all the threads have used -/

/-- All the threads have used a caliper. -/
def AllUse (threads : List PerthreadData) (j : ℕ) : Prop :=
  ∀ thread ∈ threads, 0 < (thread.data j).used

/-- The counts of an event in the records of a caliper. -/
def countsOf (threads : List PerthreadData) (j k : ℕ) : List ℤ :=
  threads.map fun thread => (thread.data j).counters k

/-- The mean number of executions, as it is computed in `float`. -/
def meanUses (threads : List PerthreadData) (j : ℕ) : ℚ :=
  Binary32.round
    (Binary32.sum (threads.map fun thread => (thread.data j).used) / threads.length)

/-- Some thread has not executed the caliper as often as the mean says. -/
def UsesDiffer (threads : List PerthreadData) (j : ℕ) : Prop :=
  ∃ thread ∈ threads, truncate (thread.data j).used ≠ truncate (meanUses threads j)

instance (threads : List PerthreadData) (j : ℕ) : Decidable (UsesDiffer threads j) :=
  inferInstanceAs (Decidable (∃ thread ∈ threads, _))

/-- The squared differences of the counts of an event to their mean. -/
def spread (threads : List PerthreadData) (j k : ℕ) : ℤ :=
  squaredDifferences (quotient threads.length (countsOf threads j k)) (countsOf threads j k)

/-- The deviation of an event is the truncated root of the mean squared difference; it is
not 0 if there is a spread. -/
def SpreadShown (cfg : Config) (threads : List PerthreadData) (j k : ℕ) : Prop :=
  let squares := squaredDifferences (((meanData cfg threads).data j).counters k)
    (countsOf threads j k)
  let deviation := ((stddevData cfg threads).data j).counters k
  (threads.length ≤ squares → 1 ≤ deviation) ∧
    deviation = ⌊√((squares : ℝ) / threads.length)⌋

section

variable {cfg : Config} {threads : List PerthreadData} {j k : ℕ}

/-- If all threads used the caliper all records count. -/
theorem recordsOf_of_allUse (hall : AllUse threads j) :
    recordsOf j threads = threads.map fun thread => thread.data j :=
  List.filter_eq_self.mpr (List.forall_mem_map.mpr fun thread hthread => by
    simpa using hall thread hthread)

theorem meanData_of_allUse (cfg : Config) (hagree : LabelsAgree threads) (hsize : FullSize threads)
    (hthreads : threads ≠ []) (hj : j ≠ 0) (hlt : j < maxCalipers) (hall : AllUse threads j) :
    ((meanData cfg threads).data j).used = meanUses threads j ∧
      ∀ k < cfg.eventcnt, ((meanData cfg threads).data j).counters k =
        quotient threads.length (countsOf threads j k) := by
  have hrecords := recordsOf_of_allUse hall
  have hne : recordsOf j threads ≠ [] := hrecords ▸ mt List.map_eq_nil_iff.mp hthreads
  obtain ⟨hused, hcounters⟩ := meanData_caliper cfg hagree hsize hj hlt hne
  rw [hrecords, List.map_map] at hused
  refine ⟨hused, fun k hk => ?_⟩
  rw [hcounters k hk, hrecords, List.map_map]
  rfl

/-- **The deviation that is stored**: none if the numbers of executions have none. -/
theorem stddevData_of_allUse (hagree : LabelsAgree threads) (hsize : FullSize threads)
    (hthreads : threads ≠ []) (hj : j ≠ 0) (hlt : j < maxCalipers) (hall : AllUse threads j)
    (hk : k < cfg.eventcnt) : ((stddevData cfg threads).data j).counters k =
      if UsesDiffer threads j then stddevOf threads.length (spread threads j k) else 0 := by
  obtain ⟨hused, hcounters⟩ := meanData_of_allUse cfg hagree hsize hthreads hj hlt hall
  obtain ⟨hsum, hsquares⟩ := foldl_squareCaliper cfg ((meanData cfg threads).data j)
    (List.forall_mem_map.mpr hall) {}
  rw [← squaredSums_data hj hlt] at hsum hsquares
  rw [List.map_map] at hsum
  -- the sum that guards the deviations is that of the numbers of executions
  have hpos : 0 < ((squaredSums cfg threads).data j).used ↔ UsesDiffer threads j := by
    rw [hsum, hused, Binary32.foldl_pos_iff _ le_rfl, or_iff_right (lt_irrefl 0)]
    · simp only [List.mem_map, Function.comp_apply, exists_exists_and_eq_and, UsesDiffer, sqdiffLl,
        Int.cast_pos, sq_pos_iff, sub_ne_zero]
      exact exists_congr fun thread => and_congr_right fun _ => ne_comm
    · exact List.forall_mem_map.mpr fun thread _ => Int.cast_nonneg (sq_nonneg _)
  have hdata : (stddevData cfg threads).data j =
      stddevCaliper cfg threads.length ((squaredSums cfg threads).data j) := by
    rw [stddevData_data, summaryRecords_caliper hj hlt]
  have hcounter : (stddevCaliper cfg threads.length ((squaredSums cfg threads).data j)).counters k =
      if 0 < ((squaredSums cfg threads).data j).used then
        stddevOf threads.length (((squaredSums cfg threads).data j).counters k) else 0 := by
    unfold stddevCaliper
    split
    · dsimp only
      split <;> exact if_pos hk
    · rfl
  rw [hdata, hcounter, hsquares k hk, hcounters k hk, List.map_map]
  simp only [hpos, zero_add]
  rfl

/-- The deviation of an event is shown exactly if the numbers of executions differ, or if
there is nothing to show. -/
theorem spreadShown_iff (hagree : LabelsAgree threads) (hsize : FullSize threads)
    (hthreads : threads ≠ []) (hj : j ≠ 0) (hlt : j < maxCalipers) (hall : AllUse threads j)
    (hk : k < cfg.eventcnt) : SpreadShown cfg threads j k ↔
      UsesDiffer threads j ∨ spread threads j k < threads.length := by
  have hlength := List.length_pos_iff.mpr hthreads
  have hlength' : (0 : ℝ) < threads.length := by exact_mod_cast hlength
  have hmean := (meanData_of_allUse cfg hagree hsize hthreads hj hlt hall).2 k hk
  have hnonneg : 0 ≤ spread threads j k := squaredDifferences_nonneg _ _
  have hroot := stddevOf_eq_floor hlength hnonneg
  have hshown : SpreadShown cfg threads j k ↔
      ((threads.length ≤ spread threads j k →
          1 ≤ if UsesDiffer threads j then stddevOf threads.length (spread threads j k) else 0) ∧
        (if UsesDiffer threads j then stddevOf threads.length (spread threads j k) else 0) =
          ⌊√((spread threads j k : ℝ) / threads.length)⌋) := by
    rw [SpreadShown, stddevData_of_allUse hagree hsize hthreads hj hlt hall hk, hmean]
    rfl
  -- a root is less than 1 exactly if the squares are less than the threads
  have hone : 1 ≤ ⌊√((spread threads j k : ℝ) / threads.length)⌋ ↔
      threads.length ≤ spread threads j k := by
    rw [Int.le_floor, Int.cast_one, Real.one_le_sqrt, one_le_div hlength']
    exact_mod_cast Iff.rfl
  have hzero : 0 ≤ ⌊√((spread threads j k : ℝ) / threads.length)⌋ :=
    Int.floor_nonneg.mpr (Real.sqrt_nonneg _)
  rw [hshown]
  by_cases hdiffer : UsesDiffer threads j
  · rw [if_pos hdiffer, hroot]
    exact iff_of_true ⟨hone.mpr, rfl⟩ (.inl hdiffer)
  · simp only [if_neg hdiffer, or_iff_right hdiffer]
    constructor
    · intro h
      by_contra hge
      have hle := hone.mpr (not_lt.mp hge)
      omega
    · intro h
      have hnot := mt hone.mp (not_le.mpr h)
      exact ⟨fun hge => absurd hge (not_le.mpr h), by omega⟩

end

/-! ## All the deviations -/

/-- **A spread between the threads is shown** exactly where the numbers of executions
differ from their mean, or where there is too little of it to be shown. -/
theorem spread_shown_iff (cfg : Config) (threads : List PerthreadData) (hthreads : threads ≠ [])
    (hsize : FullSize threads) (hagree : LabelsAgree threads) :
    (∀ j < maxCalipers, j ≠ 0 → AllUse threads j → ∀ k < cfg.eventcnt,
        SpreadShown cfg threads j k) ↔
      ∀ j < maxCalipers, j ≠ 0 → AllUse threads j →
        UsesDiffer threads j ∨ ∀ k < cfg.eventcnt, spread threads j k < threads.length := by
  constructor
  · intro hshown j hlt hj hall
    by_cases hdiffer : UsesDiffer threads j
    · exact .inl hdiffer
    · exact .inr fun k hk =>
        ((spreadShown_iff hagree hsize hthreads hj hlt hall hk).mp
          (hshown j hlt hj hall k hk)).resolve_left hdiffer
  · intro hdiffer j hlt hj hall k hk
    exact (spreadShown_iff hagree hsize hthreads hj hlt hall hk).mpr
      ((hdiffer j hlt hj hall).imp_right fun hspread => hspread k hk)

/-- Two threads that used the caliper once and three times. -/
theorem spread_shown_usesDiffer :
    ([caliperThread 1 10, caliperThread 3 20] ≠ [] ∧
      FullSize [caliperThread 1 10, caliperThread 3 20] ∧
      LabelsAgree [caliperThread 1 10, caliperThread 3 20]) ∧
    ∀ j < maxCalipers, j ≠ 0 → AllUse [caliperThread 1 10, caliperThread 3 20] j →
      ∀ k < oneEvent.eventcnt,
        SpreadShown oneEvent [caliperThread 1 10, caliperThread 3 20] j k := by
  have hthreads := caliperThreads 1 3 10 20
  have hsize := fullSize_caliperThreads hthreads
  have hagree := labelsAgree_caliperThreads hthreads
  refine ⟨⟨by simp, hsize, hagree⟩,
    (spread_shown_iff oneEvent _ (by simp) hsize hagree).mpr fun j _ _ hall => .inl ?_⟩
  have hrecords : recordsOf j [caliperThread 1 10, caliperThread 3 20] ≠ [] := by
    rw [recordsOf_of_allUse hall]
    exact List.cons_ne_nil _ _
  obtain rfl := eq_one_of_recordsOf_ne_nil hthreads hrecords
  decide +kernel

/-- **Two threads that have executed a caliper once each, with counts of 10 and 20**: the
deviation is 5, but it is given as 0. -/
theorem spread_shown_sameUses :
    (FullSize [caliperThread 1 10, caliperThread 1 20] ∧
      LabelsAgree [caliperThread 1 10, caliperThread 1 20]) ∧
    ¬ ∀ j < maxCalipers, j ≠ 0 → AllUse [caliperThread 1 10, caliperThread 1 20] j →
      ∀ k < oneEvent.eventcnt,
        SpreadShown oneEvent [caliperThread 1 10, caliperThread 1 20] j k := by
  have hthreads := caliperThreads 1 1 10 20
  refine ⟨⟨fullSize_caliperThreads hthreads, labelsAgree_caliperThreads hthreads⟩, ?_⟩
  intro hshown
  have hall : AllUse [caliperThread 1 10, caliperThread 1 20] 1 := by
    unfold AllUse
    decide +kernel
  have hone := (hshown 1 (by decide) (by decide) hall 0 (by decide)).1
  revert hone
  decide +kernel

end Papiex
