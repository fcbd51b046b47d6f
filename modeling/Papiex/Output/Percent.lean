import Mathlib.Algebra.Order.Field.Rat
import Mathlib.Tactic.Positivity
import Papiex.Caliper.Within
import Papiex.Output.Counters

/-!
# The percentages of the calipers

Outside nextgen mode `print_counters` prints behind each count of a caliper what
percentage it is of the count of the whole thread, computed in `float`.  The count of
the thread is not looked at before it is divided by.

## Main results

* `caliperPercentages_iff`: when all percentages are between 0 and 100.
* `caliper_within_thread`: what is measured inside a thread is a part of it.

## Design notes

The conversions to `float` and the quotient are rounded, and the product by 100 too, in this
order.  A quotient by zero is not a number and has no percentage.
-/

namespace Papiex

/-- `" [%5.1f%%]"` of `100*(float)part/(float)whole`: the number that is shown, and none
for the `nan` or the infinity of a division by zero. -/
def shownPercentage (part whole : ℤ) : Option ℚ :=
  if Binary32.round whole = 0 then none
  else
    let product := Binary32.round (100 * Binary32.round part)
    let quotient := Binary32.round (product / Binary32.round whole)
    some (Binary32.roundHalfEven (10 * quotient) / 10)

/-- The percentages `print_counters` prints for the calipers of a thread. -/
def caliperPercentages (cfg : Config) (thread : PerthreadData) : List (Option ℚ) :=
  (usedCalipers thread).flatMap fun j =>
    (List.range cfg.eventcnt).map fun i =>
      shownPercentage ((thread.data j).counters i) ((thread.data 0).counters i)

/-- What is shown is a number between 0 and 100. -/
def IsPercentage (shown : Option ℚ) : Prop := ∃ x, shown = some x ∧ 0 ≤ x ∧ x ≤ 100

theorem shownPercentage_zero (part : ℤ) : shownPercentage part 0 = none := by
  rw [shownPercentage, Int.cast_zero, Binary32.round_zero, if_pos rfl]

/-- The three roundings move the percentage of a part of something by less than what
the one decimal shows. -/
theorem PartOf.isPercentage {part whole : ℤ} (h : PartOf part whole) (hwhole : whole ≠ 0) :
    IsPercentage (shownPercentage part whole) := by
  have hpart : (0 : ℚ) ≤ part := by exact_mod_cast h.nonneg
  have hle : (part : ℚ) ≤ whole := by exact_mod_cast h.le
  have hpos : (0 : ℚ) < whole :=
    lt_of_le_of_ne (hpart.trans hle) (by exact_mod_cast hwhole.symm)
  have hfloat : 0 < Binary32.round whole := Binary32.round_pos hpos
  have hproduct : 0 ≤ 100 * Binary32.round part :=
    mul_nonneg (by norm_num) (Binary32.round_nonneg hpart)
  have hquotient : 0 ≤ Binary32.round (100 * Binary32.round part) / Binary32.round whole :=
    div_nonneg (Binary32.round_nonneg hproduct) hfloat.le
  obtain ⟨-, hpart'⟩ := Binary32.round_bounds hpart
  obtain ⟨hwhole', -⟩ := Binary32.round_bounds hpos.le
  obtain ⟨-, hproduct'⟩ := Binary32.round_bounds hproduct
  obtain ⟨-, hquotient'⟩ := Binary32.round_bounds hquotient
  have hratio : Binary32.round (100 * Binary32.round part) / Binary32.round whole ≤
      100 + 1 / 100 := by
    rw [div_le_iff₀ hfloat]
    linarith
  have hlow : (0 : ℤ) ≤ Binary32.roundHalfEven (10 * Binary32.round
      (Binary32.round (100 * Binary32.round part) / Binary32.round whole)) := by
    apply Binary32.le_roundHalfEven
    rw [Int.cast_zero]
    linarith [Binary32.round_nonneg hquotient]
  have hhigh : Binary32.roundHalfEven (10 * Binary32.round
      (Binary32.round (100 * Binary32.round part) / Binary32.round whole)) ≤ (1000 : ℤ) := by
    apply Binary32.roundHalfEven_le
    push_cast
    linarith
  refine ⟨_, if_neg hfloat.ne', div_nonneg (by exact_mod_cast hlow) (by norm_num), ?_⟩
  rw [div_le_iff₀ (by norm_num)]
  exact_mod_cast hhigh

theorem isPercentage_iff {part whole : ℤ} (h : PartOf part whole) :
    IsPercentage (shownPercentage part whole) ↔ whole ≠ 0 := by
  refine ⟨?_, h.isPercentage⟩
  rintro ⟨x, hx, -⟩ rfl
  rw [shownPercentage_zero] at hx
  cases hx

/-! ## Runs of a thread -/

section Run

variable {cfg : Config} {calls : List Call} {thread : PerthreadData}

/-- **A caliper has been used** if and only if a call has measured at it. -/
theorem mem_usedCalipers_of_run_iff (hev : cfg.eventcnt ≠ 0)
    (hrun : FallibleRun.run (Call.exec cfg) (some {}) calls = .ok (some thread)) (j : ℕ) :
    j ∈ usedCalipers thread ↔
      1 ≤ j ∧ j < maxCalipers ∧ ∃ call ∈ calls, call.Measures j := by
  obtain ⟨same, hsame, hentries, -⟩ := useRecorded_of_run hev hrun (Nat.succ_pos 31)
  cases hsame
  have hused : j < maxCalipers →
      (0 < (thread.data j).used ↔ ∃ call ∈ calls, call.Measures j) := by
    intro hj
    obtain ⟨other, hother, -, -, hiff⟩ := useRecorded_of_run hev hrun hj
    cases hother
    exact hiff
  simp only [usedCalipers, List.mem_filter, List.mem_range, hentries, Bool.and_eq_true,
    decide_eq_true_eq]
  constructor
  · rintro ⟨hj, hne, hpos⟩
    exact ⟨Nat.one_le_iff_ne_zero.mpr hne, hj, (hused hj).mp hpos⟩
  · rintro ⟨hone, hj, hmeasured⟩
    exact ⟨hj, Nat.one_le_iff_ne_zero.mp hone, (hused hj).mpr hmeasured⟩

/-- The percentages of parts of a thread. -/
theorem caliperPercentages_iff
    (hparts : ∀ p, 1 ≤ p → p < maxCalipers → ∀ i < cfg.eventcnt,
      PartOf ((thread.data p).counters i) ((thread.data 0).counters i))
    (hused : ∀ j ∈ usedCalipers thread, 1 ≤ j ∧ j < maxCalipers) :
    (∀ shown ∈ caliperPercentages cfg thread, IsPercentage shown) ↔
      ((∃ j, j ∈ usedCalipers thread) →
        ∀ i < cfg.eventcnt, (thread.data 0).counters i ≠ 0) := by
  have hiff : ∀ j ∈ usedCalipers thread, ∀ i < cfg.eventcnt,
      (IsPercentage (shownPercentage ((thread.data j).counters i) ((thread.data 0).counters i)) ↔
        (thread.data 0).counters i ≠ 0) := by
    intro j hj i hi
    obtain ⟨hone, hlt⟩ := hused j hj
    exact isPercentage_iff (hparts j hone hlt i hi)
  simp only [caliperPercentages, List.mem_flatMap, List.mem_map, List.mem_range]
  constructor
  · rintro hall ⟨j, hj⟩ i hi
    exact (hiff j hj i hi).mp (hall _ ⟨j, hj, i, hi, rfl⟩)
  · rintro hcounted _ ⟨j, hj, i, hi, rfl⟩
    exact (hiff j hj i hi).mpr (hcounted ⟨j, hj⟩ i hi)

end Run

/-- **No caliper exceeds its thread**, and where its percentages go wrong.  Take a
thread from the start of point 0 by its initialisation to the stop of point 0 at its
end, with any calls of the program on other points in between, where no call takes the
error exit and all reads succeed, and let the counters and the cycles never decrease.
Every point has then measured a part of what point 0 has.  The percentages that are
shown lie between 0 and 100 if and only if no caliper has been used or every event has
been counted between the start and the end of the thread. -/
theorem caliper_within_thread (fpOps fpIns : Bool) (settings : Config) (first last : Sampling)
    (user : List Call) (final : Option PerthreadData)
    (huser : ∀ call ∈ user, 1 ≤ call.point)
    (hread : ∀ call ∈ threadCalls first user last, call.io.read.Succeeds)
    (hcounters : ∀ i < (settings.withDefaultEvents fpOps fpIns).eventcnt,
      NeverDecreases (fun sampled => sampled.counters i) (threadCalls first user last))
    (hcyc : NeverDecreases ReadBuffer.realCyc (threadCalls first user last))
    (hrun : FallibleRun.run (Call.exec (settings.withDefaultEvents fpOps fpIns)) (some {})
      (threadCalls first user last) = .ok final) :
    ∃ thread, final = some thread ∧
      (∀ p, 1 ≤ p → p < maxCalipers →
        (∀ i < (settings.withDefaultEvents fpOps fpIns).eventcnt,
          PartOf ((thread.data p).counters i) ((thread.data 0).counters i)) ∧
        PartOf (thread.data p).realCyc (thread.data 0).realCyc) ∧
      ((∀ shown ∈ caliperPercentages (settings.withDefaultEvents fpOps fpIns) thread,
          IsPercentage shown) ↔
        ((∃ call ∈ user, ∃ p, 1 ≤ p ∧ p < maxCalipers ∧ call.Measures p) →
          ∀ i < (settings.withDefaultEvents fpOps fpIns).eventcnt,
            last.sampled.counters i ≠ first.sampled.counters i)) := by
  have hev : (settings.withDefaultEvents fpOps fpIns).eventcnt ≠ 0 :=
    (Config.eventcnt_withDefaultEvents_pos fpOps fpIns settings).ne'
  obtain ⟨thread, rfl, hparts⟩ := partOf_thread hev huser hread hcounters hcyc hrun
  refine ⟨thread, rfl, hparts, ?_⟩
  rw [caliperPercentages_iff (fun p hp hlt => (hparts p hp hlt).1)
    fun j hj => ((mem_usedCalipers_of_run_iff hev hrun j).mp hj).imp_right And.left]
  have husers : (∃ j, j ∈ usedCalipers thread) ↔
      ∃ call ∈ user, ∃ p, 1 ≤ p ∧ p < maxCalipers ∧ call.Measures p := by
    simp only [mem_usedCalipers_of_run_iff hev hrun]
    constructor
    · rintro ⟨p, hone, hlt, call, hmem, hmeasures⟩
      refine ⟨call, ?_, p, hone, hlt, hmeasures⟩
      -- the two calls of the library are on point 0
      have hpoint := hmeasures.point_eq
      rcases List.mem_cons.mp hmem with rfl | hmem
      · exact hmeasures.elim
      rcases List.mem_append.mp hmem with hmem | hmem
      · exact hmem
      · rw [List.mem_singleton.mp hmem] at hpoint
        have hzero : (0 : ℤ) = p := hpoint
        omega
    · rintro ⟨call, hmem, p, hone, hlt, hmeasures⟩
      exact ⟨p, hone, hlt, call, List.mem_cons_of_mem _ (List.mem_append_left _ hmem),
        hmeasures⟩
  rw [husers]
  refine imp_congr_right fun _ => forall₂_congr fun i hi => ?_
  rw [counters_zero hev huser hread hrun hi]
  exact not_congr sub_eq_zero

/-- Two overlapping calipers, one of them left open. -/
theorem caliper_within_thread_overlapping :
    ∃ thread, FallibleRun.run (Call.exec (plainSettings.withDefaultEvents true true)) (some {})
        (threadCalls (.ofReading 10)
          [.start 1 none (.ofReading 20), .start 2 none (.ofReading 30), .accum 1 (.ofReading 35),
            .stop 1 (.ofReading 40), .accum 2 (.ofReading 70)] (.ofReading 100)) =
        .ok (some thread) ∧
      PartOf (thread.data 2).realCyc (thread.data 0).realCyc ∧
      (thread.data 2).realCyc = 40 ∧ (thread.data 0).realCyc = 90 ∧
      ∀ shown ∈ caliperPercentages (plainSettings.withDefaultEvents true true) thread,
        IsPercentage shown := by
  have hrun : ∃ final, FallibleRun.run (Call.exec (plainSettings.withDefaultEvents true true))
      (some {}) (threadCalls (.ofReading 10)
          [.start 1 none (.ofReading 20), .start 2 none (.ofReading 30), .accum 1 (.ofReading 35),
            .stop 1 (.ofReading 40), .accum 2 (.ofReading 70)] (.ofReading 100)) = .ok final :=
    ⟨_, rfl⟩
  obtain ⟨final, hrun⟩ := hrun
  obtain ⟨thread, rfl, hparts, hshown⟩ := caliper_within_thread true true plainSettings _ _ _ final
    (by simp [Call.point])
    (by simp [threadCalls, Call.io, Sampling.ofReading, Read.Succeeds])
    (by simp [NeverDecreases, threadCalls, Call.io, Sampling.ofReading, Sampling.sampled])
    (by simp [NeverDecreases, threadCalls, Call.io, Sampling.ofReading, Sampling.sampled]) hrun
  refine ⟨thread, hrun, (hparts 2 (by decide) (by decide)).2, ?_, ?_, ?_⟩
  · cases hrun
    rfl
  · cases hrun
    rfl
  · refine hshown.mpr fun _ i _ => ?_
    simp [Sampling.ofReading, Sampling.sampled]

/-- A read of a counter that has counted nothing. -/
def Sampling.ofCycles (realCyc : ℤ) : Sampling :=
  { Sampling.ofReading 0 with read := .done (fun _ => 0) realCyc }

/-- A thread without floating-point operations: the percentage that is printed for the
caliper that was used is no number. -/
theorem caliper_within_thread_nothing_counted :
    let settings : Config := { plainSettings with eventnames := ["PAPI_FP_OPS".toList] }
    let calls := threadCalls (.ofCycles 10)
      [.start 1 none (.ofCycles 20), .stop 1 (.ofCycles 30)] (.ofCycles 40)
    (∀ call ∈ calls, call.io.read.Succeeds) ∧
      (∀ i, NeverDecreases (fun sampled => sampled.counters i) calls) ∧
      NeverDecreases ReadBuffer.realCyc calls ∧
      ∃ thread, FallibleRun.run (Call.exec (settings.withDefaultEvents true true)) (some {})
          calls = .ok (some thread) ∧
        ∃ shown ∈ caliperPercentages (settings.withDefaultEvents true true) thread,
          ¬ IsPercentage shown := by
  intro settings calls
  refine ⟨?_, ?_, ?_, ?_⟩
  · simp [calls, threadCalls, Call.io, Sampling.ofCycles, Read.Succeeds]
  · simp [calls, NeverDecreases, threadCalls, Call.io, Sampling.ofCycles, Sampling.sampled]
  · simp [calls, NeverDecreases, threadCalls, Call.io, Sampling.ofCycles, Sampling.sampled]
  · obtain ⟨thread, hrun⟩ : ∃ thread, FallibleRun.run
        (Call.exec (settings.withDefaultEvents true true)) (some {}) calls = .ok (some thread) :=
      ⟨_, rfl⟩
    have hev : (settings.withDefaultEvents true true).eventcnt ≠ 0 := by decide
    have hused : 1 ∈ usedCalipers thread := by
      rw [mem_usedCalipers_of_run_iff hev hrun]
      exact ⟨le_rfl, by decide, .stop 1 (.ofCycles 30), List.mem_of_getElem? (i := 2) rfl, rfl⟩
    have hzero : (thread.data 0).counters 0 = 0 := by
      cases hrun
      rfl
    refine ⟨thread, hrun, none, ?_, ?_⟩
    · refine List.mem_flatMap.mpr ⟨1, hused, List.mem_map.mpr ⟨0, by decide, ?_⟩⟩
      rw [hzero, shownPercentage_zero]
    · rintro ⟨x, hx, -⟩
      cases hx

end Papiex
