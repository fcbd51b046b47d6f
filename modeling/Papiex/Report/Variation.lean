import Mathlib.Algebra.Order.BigOperators.Group.List
import Mathlib.Analysis.Real.Sqrt
import Mathlib.Data.Char
import Mathlib.Data.List.Lex
import Papiex.Report.Means
import Papiex.Report.Metrics

/-!
# The coefficients of variation

`print_single_level` of `papiex-report.pl` prints the counts of a level with the least,
greatest and mean value of each field, and with its coefficient of variation.  The
squared differences are added up by `compute_totals`, over the threads of a process or
over the tasks of the job.  Here they are divided by the number of tasks in both cases.

## Main results

* `stats_combine`: the squared differences of a field.
* `variations_right_iff`: when the coefficients are over the right number of values.

## Design notes

The root is not computed: a coefficient is kept as its radicand and its mean, and two
coefficients are compared as real numbers.  A coefficient over the wrong number of values is
wrong unless there is no spread at all, which is what the equivalence comes to.
-/

namespace Papiex

open KeyedFold

/-! ## The lines of a level -/

/-- The coefficient of variation: the root of the radicand, divided by the mean. -/
structure Variation where
  radicand : ℚ
  mean : ℚ
  deriving DecidableEq

/-- The number that is printed, in exact arithmetic. -/
noncomputable def Variation.value (cv : Variation) : ℝ := √(cv.radicand : ℝ) / cv.mean

/-- The statistics of a line. -/
structure StatsColumns where
  min : ℚ
  max : ℚ
  mean : ℚ
  cv : Option Variation
  deriving DecidableEq

/-- The line of a field. -/
structure CountLine where
  field : Text
  val : ℚ
  stats : Option StatsColumns
  share : Option ℚ
  deriving DecidableEq

/-- The statistics of a field, unless the least value, the greatest value and the count
are the same.  What is undefined counts as 0.  With a mean of 0 the division makes Perl die
and the report ends there; here the column is `none`. -/
def statsColumns (ntasks : ℕ) (stats : FieldStats) (val : ℚ) : Option StatsColumns :=
  let min := stats.min.getD 0
  let max := stats.max.getD 0
  let mean := stats.mean.getD 0
  if min = max ∧ min = val then none
  else some
    { min, max, mean
      cv := if mean = 0 then none
        else some { radicand := stats.squaredDiff.getD 0 / ntasks, mean } }

/-- A percentage is at most 100. -/
def cappedValue (field : Text) (val : ℚ) : ℚ :=
  if isPercent field && decide (100 < val) then 100 else val

/-- `/^TEXT:/`. -/
def isText (field : Text) : Bool := (Chars.dropPrefix "TEXT:".toList field).isSome

/-- `/^\[\d+\] (.*)$/`. -/
def caliperBase : Text → Option Text
  | '[' :: rest =>
      if rest.takeWhile Char.isDigit = [] then none
      else Chars.dropPrefix "] ".toList (rest.dropWhile Char.isDigit)
  | _ => none

/-- The percentage of a caliper. -/
def caliperShare (counts : Hash ℚ) (field : Text) (val : ℚ) : Option ℚ := do
  let base ← caliperBase field
  let whole ← counts.lookup base
  if 0 < val ∧ 0 < whole then some (100 * val / whole) else none

/-- The lines of these fields.  A percentage above 100 is changed in the hash. -/
def countLines (ntasks : ℕ) (stats : Hash FieldStats) : Hash ℚ → List Text → List CountLine
  | _, [] => []
  | counts, field :: fields =>
      if isText field then countLines ntasks stats counts fields
      else match counts.lookup field with
        | none => countLines ntasks stats counts fields
        | some count =>
            let val := cappedValue field count
            let capped := counts.insert field val
            { field, val
              stats := (stats.lookup field).bind fun entry => statsColumns ntasks entry val
              share := caliperShare capped field val } ::
            countLines ntasks stats capped fields

/-- `print_single_level('counts')`. -/
def printCounts (ntasks : ℕ) (totals : Totals) : List CountLine :=
  countLines ntasks totals.stats totals.counts
    (totals.counts.keys.mergeSort fun field other => decide (field ≤ other))

/-- What is printed as the coefficient of variation of a field. -/
def printedCv (ntasks : ℕ) (totals : Totals) (field : Text) : Option Variation := do
  let line ← (printCounts ntasks totals).find? fun line => line.field = field
  let columns ← line.stats
  columns.cv

/-- What is printed are fields of the counts, but no texts. -/
theorem field_of_mem_countLines {ntasks : ℕ} {stats : Hash FieldStats} {counts : Hash ℚ}
    {fields : List Text} {line : CountLine} (h : line ∈ countLines ntasks stats counts fields) :
    line.field ∈ fields ∧ isText line.field = false := by
  induction fields generalizing counts with
  | nil => cases h
  | cons other fields ih =>
      rw [countLines] at h
      split at h
      · exact (ih h).imp_left (List.mem_cons_of_mem _)
      · next htext =>
          split at h
          · exact (ih h).imp_left (List.mem_cons_of_mem _)
          · rcases List.mem_cons.mp h with rfl | hrest
            · exact ⟨List.mem_cons_self, Bool.eq_false_iff.mpr htext⟩
            · exact (ih hrest).imp_left (List.mem_cons_of_mem _)

/-- The line of a field shows the statistics of the field. -/
theorem stats_countLines (ntasks : ℕ) (stats : Hash FieldStats) (counts : Hash ℚ)
    {fields : List Text} {field : Text} (hfield : field ∈ fields) (htext : isText field = false) :
    (((countLines ntasks stats counts fields).find? fun line => line.field = field).bind
        CountLine.stats) =
      (counts.lookup field).bind fun count =>
        (stats.lookup field).bind fun entry =>
          statsColumns ntasks entry (cappedValue field count) := by
  induction fields generalizing counts with
  | nil => cases hfield
  | cons other fields ih =>
      by_cases hother : other = field
      · subst hother
        rw [countLines, if_neg (by rw [htext]; decide)]
        cases hcount : counts.lookup other with
        | some count =>
            dsimp only
            rw [List.find?_cons_of_pos (by simp)]
            rfl
        | none =>
            -- a field without a count has no line further on either
            dsimp only
            by_cases hmem : other ∈ fields
            · rw [ih counts hmem, hcount]
            · rw [List.find?_eq_none.mpr]
              · rfl
              · intro line hline
                rw [decide_eq_true_eq]
                rintro rfl
                exact hmem (field_of_mem_countLines hline).1
      · -- what is capped before is the count of another field
        have hmem : field ∈ fields := (List.mem_cons.mp hfield).resolve_left (Ne.symm hother)
        rw [countLines]
        split
        · exact ih counts hmem
        · split
          · exact ih counts hmem
          · rw [List.find?_cons_of_neg (by simpa using hother), ih _ hmem,
              AList.lookup_insert_ne (Ne.symm hother)]

/-- **When a coefficient of variation is printed, and which.** -/
theorem cv_statsColumns {ntasks : ℕ} {entry : FieldStats} {val : ℚ} {cv : Variation} :
    (statsColumns ntasks entry val).bind StatsColumns.cv = some cv ↔
      ¬ (entry.min.getD 0 = entry.max.getD 0 ∧ entry.min.getD 0 = val) ∧
        entry.mean.getD 0 ≠ 0 ∧
        cv = { radicand := entry.squaredDiff.getD 0 / ntasks, mean := entry.mean.getD 0 } := by
  unfold statsColumns
  dsimp only
  split
  · next hsame => exact ⟨nofun, fun h => absurd hsame h.1⟩
  · next hsame =>
      rw [Option.bind_some, and_iff_right hsame]
      split
      · next hmean => exact ⟨nofun, fun h => absurd hmean h.1⟩
      · next hmean => rw [and_iff_right hmean, Option.some.injEq, eq_comm]

/-- What is printed depends on the entry of the field in `stats`. -/
theorem printedCv_eq (ntasks : ℕ) (totals : Totals) (field : Text) :
    printedCv ntasks totals field =
      if isText field then none
      else (totals.counts.lookup field).bind fun count =>
        (totals.stats.lookup field).bind fun entry =>
          (statsColumns ntasks entry (cappedValue field count)).bind StatsColumns.cv := by
  have hprinted : printedCv ntasks totals field =
      (((printCounts ntasks totals).find? fun line => line.field = field).bind
        CountLine.stats).bind StatsColumns.cv := by
    rw [Option.bind_assoc]
    rfl
  have hnone : (∀ line ∈ printCounts ntasks totals, line.field ≠ field) →
      (printCounts ntasks totals).find? (fun line => line.field = field) = none := fun hline =>
    List.find?_eq_none.mpr fun line hmem => by simpa using hline line hmem
  rw [hprinted]
  split
  · next htext =>
      rw [hnone]
      · rfl
      · rintro line hline rfl
        rw [(field_of_mem_countLines hline).2] at htext
        cases htext
  · next htext =>
      cases hcount : totals.counts.lookup field with
      | none =>
          rw [hnone]
          · rfl
          · rintro line hline rfl
            have hmem := (field_of_mem_countLines hline).1
            rw [List.mem_mergeSort] at hmem
            exact AList.lookup_eq_none.mp hcount hmem
      | some count =>
          have hmem : field ∈ totals.counts := AList.lookup_isSome.mp (by rw [hcount]; rfl)
          rw [printCounts, stats_countLines _ _ _ (List.mem_mergeSort.mpr hmem)
            (Bool.eq_false_iff.mpr htext), hcount, Option.bind_some, Option.bind_some,
            Option.bind_assoc]

/-- The square of a coefficient of variation, times the square of the mean. -/
theorem Variation.sq_value_mul (cv : Variation) (hradicand : 0 ≤ cv.radicand)
    (hmean : cv.mean ≠ 0) : cv.value ^ 2 * (cv.mean : ℝ) ^ 2 = cv.radicand := by
  have hmean' : (cv.mean : ℝ) ≠ 0 := by exact_mod_cast hmean
  rw [value, div_pow, div_mul_cancel₀ _ (pow_ne_zero 2 hmean'),
    Real.sq_sqrt (by exact_mod_cast hradicand)]

/-! ## The statistics of a field -/

namespace Totals

theorem getD_perlMin (a b : Option ℚ) : (perlMin a b).getD 0 = min (a.getD 0) (b.getD 0) := by
  rw [perlMin, min_def, apply_ite (Option.getD · 0)]

theorem getD_perlMax (a b : Option ℚ) : (perlMax a b).getD 0 = max (a.getD 0) (b.getD 0) := by
  rw [perlMax, max_def', apply_ite (Option.getD · 0)]

/-- The least and the greatest value hold all values so far. -/
theorem bounds_update (cell : Option ℚ × FieldStats) (val : ℕ × ℚ) :
    (update cell val).2.min.getD 0 ≤ val.2 ∧ val.2 ≤ (update cell val).2.max.getD 0 ∧
      (cell.1.isSome = true → (update cell val).2.min.getD 0 ≤ cell.2.min.getD 0 ∧
        cell.2.max.getD 0 ≤ (update cell val).2.max.getD 0) := by
  unfold update
  split
  · dsimp only
    rw [getD_perlMin, getD_perlMax]
    exact ⟨min_le_right _ _, le_max_right _ _, fun _ => ⟨min_le_left _ _, le_max_left _ _⟩⟩
  · next hnone => exact ⟨le_rfl, le_rfl, fun h => absurd h (by rw [hnone]; decide)⟩

/-- Once there was a value there is a total. -/
theorem isSome_update (cell : Option ℚ × FieldStats) (val : ℕ × ℚ) :
    (update cell val).1.isSome = true := by
  unfold update
  split <;> rfl

/-- The least and the greatest value are around all the values. -/
theorem bounds_foldl_update (vals : List (ℕ × ℚ)) (cell : Option ℚ × FieldStats) :
    (∀ val ∈ vals, (vals.foldl update cell).2.min.getD 0 ≤ val.2 ∧
      val.2 ≤ (vals.foldl update cell).2.max.getD 0) ∧
    (cell.1.isSome = true → (vals.foldl update cell).2.min.getD 0 ≤ cell.2.min.getD 0 ∧
      cell.2.max.getD 0 ≤ (vals.foldl update cell).2.max.getD 0) := by
  induction vals generalizing cell with
  | nil => exact ⟨nofun, fun _ => ⟨le_rfl, le_rfl⟩⟩
  | cons val vals ih =>
      obtain ⟨hvals, hcell⟩ := ih (update cell val)
      obtain ⟨hmin, hmax, hold⟩ := bounds_update cell val
      obtain ⟨hle, hge⟩ := hcell (isSome_update cell val)
      refine ⟨?_, fun h => ⟨hle.trans (hold h).1, (hold h).2.trans hge⟩⟩
      intro other hother
      rcases List.mem_cons.mp hother with rfl | hother
      · exact ⟨hle.trans hmin, hmax.trans hge⟩
      · exact hvals other hother

/-- No squared difference is added along with the values. -/
theorem squaredDiff_foldl_update (vals : List (ℕ × ℚ)) (cell : Option ℚ × FieldStats)
    (hcell : cell.2.squaredDiff.getD 0 = 0) :
    (vals.foldl update cell).2.squaredDiff.getD 0 = 0 := by
  induction vals generalizing cell with
  | nil => exact hcell
  | cons val vals ih =>
      apply ih
      unfold update
      split
      · exact hcell
      · rfl

/-- The squared differences to the mean are added up. -/
theorem foldl_updateSquaredDiff_squaredDiff (vals : List (ℕ × ℚ)) (cell : Option ℚ × FieldStats)
    {mean : ℚ} (hcount : cell.1.isSome = true) (hmean : cell.2.mean = some mean) :
    (vals.foldl updateSquaredDiff cell).2.squaredDiff.getD 0 =
      cell.2.squaredDiff.getD 0 + (vals.map fun val => (mean - val.2) ^ 2).sum := by
  induction vals generalizing cell with
  | nil => simp
  | cons val vals ih =>
      obtain ⟨count, hsome⟩ := Option.isSome_iff_exists.mp hcount
      have hstep : (updateSquaredDiff cell val).1 = cell.1 ∧
          (updateSquaredDiff cell val).2.mean = cell.2.mean ∧
          (updateSquaredDiff cell val).2.squaredDiff =
            some (cell.2.squaredDiff.getD 0 + (mean - val.2) ^ 2) := by
        simp [updateSquaredDiff, hsome, hmean]
      obtain ⟨hcount', hmean', hsquared⟩ := hstep
      rw [List.foldl_cons, ih _ (hcount' ▸ hcount) (hmean'.trans hmean), hsquared, List.map_cons,
        List.sum_cons, Option.getD_some, add_assoc]

/-- **What is kept of a field that comes in several levels**: its mean, the squared
differences to it, and bounds of its values. -/
theorem stats_combine (order : KeyOrder) {levels : List (Hash ℚ)} {start : Totals} {field : Text}
    (hlevels : 1 < levels.length) (hstart : start.stats.lookup field = none)
    (hvals : levelValues field levels ≠ []) :
    ∃ entry mean, (combine order levels start).stats.lookup field = some entry ∧
      entry.mean = some mean ∧
      entry.squaredDiff.getD 0 =
        ((levelValues field levels).map fun val => (mean - val) ^ 2).sum ∧
      ∀ val ∈ levelValues field levels, entry.min.getD 0 ≤ val ∧ val ≤ entry.max.getD 0 := by
  have hmap := map_snd_valuesAt_entries order field levels
  have hne : valuesAt field (entries order levels) ≠ [] := by
    rintro hnil
    rw [hnil] at hmap
    exact hvals hmap.symm
  have hcell := cell_combine order field levels start
  rw [if_pos hlevels] at hcell
  obtain ⟨mean, hmean⟩ := Option.isSome_iff_exists.mp
    (mean_foldl_update_isSome hne (start.cell field))
  -- the second pass finds the count and the mean that the first one has left
  have hcount : ((valuesAt field (entries order levels)).foldl update
      (start.cell field)).1.isSome = true := by
    rw [← List.dropLast_append_getLast hne, List.foldl_append]
    exact isSome_update _ _
  have hsquared : (start.cell field).2.squaredDiff.getD 0 = 0 := by
    rw [cell, hstart]
    rfl
  obtain ⟨-, hmin, hmax, hmean'⟩ := foldl_updateSquaredDiff (valuesAt field (entries order levels))
    ((valuesAt field (entries order levels)).foldl update (start.cell field))
  rw [← hcell] at hmin hmax hmean'
  have hsum := foldl_updateSquaredDiff_squaredDiff (valuesAt field (entries order levels)) _
    hcount hmean
  rw [← hcell, squaredDiff_foldl_update _ _ hsquared, zero_add] at hsum
  obtain ⟨entry, hentry⟩ : ∃ entry, (combine order levels start).stats.lookup field =
      some entry := by
    rw [← Option.ne_none_iff_exists']
    intro hnone
    rw [cell, hnone, hmean] at hmean'
    cases hmean'
  rw [cell, hentry, Option.getD_some] at hmin hmax hmean' hsum
  refine ⟨entry, mean, hentry, hmean'.trans hmean, ?_, ?_⟩
  · rw [hsum, ← hmap, List.map_map]
    rfl
  · rw [← hmap]
    intro val hval
    obtain ⟨numbered, hnumbered, rfl⟩ := List.mem_map.mp hval
    rw [hmin, hmax]
    exact (bounds_foldl_update _ _).1 numbered hnumbered

end Totals

/-! ## The right population -/

/-- The mean squared difference over the members of a level. -/
def populationVariance (vals : List ℚ) (mean : ℚ) : ℚ :=
  (vals.map fun val => (mean - val) ^ 2).sum / vals.length

/-- What is printed for a field is the coefficient of variation over these values. -/
def CvOver (ntasks : ℕ) (totals : Totals) (field : Text) (vals : List ℚ) : Prop :=
  ∀ cv, printedCv ntasks totals field = some cv →
    ∃ mean, totals.storedMean field = some mean ∧
      cv.value ^ 2 * (mean : ℝ) ^ 2 = populationVariance vals mean

/-- At every level with more than one member, the coefficient of variation of a field
that all the members have is taken over these members. -/
structure VariationsRight (report : Report) (totals : JobTotals) : Prop where
  threads : ∀ process ∈ totals.processes, 1 < (report.processOf process.1).tids.length →
    ∀ field, (∀ tid ∈ (report.processOf process.1).tids,
        (report.processOf process.1).threadCount field tid ≠ none) →
      CvOver totals.ntasks process.2 field ((report.processOf process.1).threadCounts field)
  tasks : 1 < report.pids.length →
    ∀ field, (∀ pid ∈ report.pids, (report.processOf pid).count field ≠ none) →
      CvOver totals.ntasks totals.total field (report.processCounts field)

/-- A process with several threads has as many of them as the job has tasks, or its
threads do not differ.  Fields whose mean is 0 have no coefficient of variation, and those
that are printed as a text have none either. -/
def PopulationsMatch (report : Report) : Prop :=
  ∀ pid ∈ report.pids, 1 < (report.processOf pid).tids.length →
    ∀ field, isText field = false →
      (∀ tid ∈ (report.processOf pid).tids, (report.processOf pid).threadCount field tid ≠ none) →
      ((report.processOf pid).threadCounts field).sum ≠ 0 →
        (report.processOf pid).tids.length = report.pids.length ∨
          ∃ c, ∀ val ∈ (report.processOf pid).threadCounts field, val = c

/-- The squares add up to 0 only if all values are the mean. -/
theorem sum_sq_eq_zero_iff {vals : List ℚ} {mean : ℚ} :
    (vals.map fun val => (mean - val) ^ 2).sum = 0 ↔ ∀ val ∈ vals, val = mean := by
  constructor
  · intro hsum val hval
    have hzero := List.all_zero_of_le_zero_le_of_sum_eq_zero
      (List.forall_mem_map.mpr fun val _ => sq_nonneg (mean - val)) hsum
      (List.mem_map_of_mem hval)
    exact (sub_eq_zero.mp (pow_eq_zero_iff two_ne_zero |>.mp hzero)).symm
  · intro hsame
    rw [List.map_congr_left (g := fun _ => (0 : ℚ))]
    · simp
    · intro val hval
      rw [hsame val hval, sub_self, zero_pow two_ne_zero]

theorem mean_of_constant {vals : List ℚ} {c : ℚ} (hvals : vals ≠ [])
    (hconst : ∀ val ∈ vals, val = c) : vals.sum / vals.length = c := by
  have hlength : (vals.length : ℚ) ≠ 0 :=
    Nat.cast_ne_zero.mpr (List.length_pos_iff.mpr hvals).ne'
  rw [List.eq_replicate_length.mpr hconst, List.sum_replicate, List.length_replicate,
    nsmul_eq_mul, mul_div_cancel_left₀ _ hlength]

/-- What is kept of a field is kept over these values. -/
structure KeptOver (entry : FieldStats) (vals : List ℚ) : Prop where
  vals_ne_nil : vals ≠ []
  mean : entry.mean = some (vals.sum / vals.length)
  squaredDiff : entry.squaredDiff.getD 0 =
    (vals.map fun val => (vals.sum / vals.length - val) ^ 2).sum
  bounds : ∀ val ∈ vals, entry.min.getD 0 ≤ val ∧ val ≤ entry.max.getD 0

/-- If the mean is right, all that is kept of a field of several levels is. -/
theorem keptOver_combine (order : KeyOrder) {levels : List (Hash ℚ)} (start : Totals)
    {field : Text} {vals : List ℚ} (hlevels : 1 < levels.length)
    (hstart : start.stats.lookup field = none)
    (hperm : (Totals.levelValues field levels).Perm vals) (hvals : vals ≠ [])
    (hright : (Totals.combine order levels start).storedMean field =
      some (vals.sum / vals.length)) :
    ∃ entry, (Totals.combine order levels start).stats.lookup field = some entry ∧
      KeptOver entry vals := by
  have hlevelValues : Totals.levelValues field levels ≠ [] := by
    rintro hnil
    exact hvals (hnil ▸ hperm).symm.eq_nil
  obtain ⟨entry, mean, hentry, hmean, hsquared, hbounds⟩ :=
    Totals.stats_combine order hlevels hstart hlevelValues
  obtain rfl : mean = vals.sum / vals.length := by
    rw [Totals.storedMean, hentry, Option.getD_some, hmean] at hright
    exact Option.some.inj hright
  rw [(hperm.map _).sum_eq] at hsquared
  exact ⟨entry, hentry, hvals, hmean, hsquared,
    fun val hval => hbounds val (hperm.mem_iff.mpr hval)⟩

namespace KeptOver

variable {entry : FieldStats} {vals : List ℚ} (hkept : KeptOver entry vals)
include hkept

theorem length_ne_zero : (vals.length : ℚ) ≠ 0 :=
  Nat.cast_ne_zero.mpr (List.length_pos_iff.mpr hkept.vals_ne_nil).ne'

/-- The mean is 0 exactly if the sum is. -/
theorem mean_ne_zero_iff : entry.mean.getD 0 ≠ 0 ↔ vals.sum ≠ 0 := by
  rw [hkept.mean, Option.getD_some, Ne, Ne, div_eq_zero_iff, or_iff_left hkept.length_ne_zero]

/-- The squared differences divided by `n` are the variance exactly if `n` is the number of
values, or if the values do not differ. -/
theorem value_iff {ntasks : ℕ} (hntasks : 0 < ntasks) (hsum : vals.sum ≠ 0) :
    ((Variation.mk (entry.squaredDiff.getD 0 / ntasks) (entry.mean.getD 0)).value ^ 2 *
        ((vals.sum / vals.length : ℚ) : ℝ) ^ 2 =
      (populationVariance vals (vals.sum / vals.length) : ℝ)) ↔
      vals.length = ntasks ∨ ∀ val ∈ vals, val = vals.sum / vals.length := by
  have hntasks' : (ntasks : ℚ) ≠ 0 := Nat.cast_ne_zero.mpr hntasks.ne'
  have hgetD : entry.mean.getD 0 = vals.sum / vals.length := by rw [hkept.mean, Option.getD_some]
  have hradicand : 0 ≤ entry.squaredDiff.getD 0 / ntasks := by
    rw [hkept.squaredDiff]
    refine div_nonneg (List.sum_nonneg ?_) (Nat.cast_nonneg _)
    exact List.forall_mem_map.mpr fun val _ => sq_nonneg _
  rw [← sum_sq_eq_zero_iff, ← hgetD,
    Variation.sq_value_mul _ hradicand (hkept.mean_ne_zero_iff.mpr hsum), Rat.cast_inj,
    populationVariance, hgetD, ← hkept.squaredDiff, div_eq_div_iff hntasks' hkept.length_ne_zero,
    mul_eq_mul_left_iff, Nat.cast_inj]

/-- The coefficient is right if its divisor is the number of values, or all values are the same.
-/
theorem cvOver {ntasks : ℕ} (hntasks : 0 < ntasks) {totals : Totals} {field : Text}
    (hentry : totals.stats.lookup field = some entry)
    (hmatch : isText field = false → vals.sum ≠ 0 →
      vals.length = ntasks ∨ ∃ c, ∀ val ∈ vals, val = c) :
    CvOver ntasks totals field vals := by
  intro cv hcv
  rw [printedCv_eq] at hcv
  split at hcv
  · cases hcv
  · next htext =>
      obtain ⟨count, hcount, hcv⟩ := Option.bind_eq_some_iff.mp hcv
      rw [hentry, Option.bind_some, cv_statsColumns] at hcv
      obtain ⟨-, hmean, rfl⟩ := hcv
      have hsum := hkept.mean_ne_zero_iff.mp hmean
      refine ⟨_, ?_, (hkept.value_iff hntasks hsum).mpr ?_⟩
      · rw [Totals.storedMean, hentry]
        exact hkept.mean
      · rcases hmatch (Bool.eq_false_iff.mpr htext) hsum with hlength | ⟨c, hconst⟩
        · exact .inl hlength
        · rw [mean_of_constant hkept.vals_ne_nil hconst]
          exact .inr hconst

theorem match_of_cvOver {ntasks : ℕ} (hntasks : 0 < ntasks) {totals : Totals} {field : Text}
    (hentry : totals.stats.lookup field = some entry) (hcount : totals.counts.lookup field ≠ none)
    (hover : CvOver ntasks totals field vals) (htext : isText field = false)
    (hsum : vals.sum ≠ 0) : vals.length = ntasks ∨ ∃ c, ∀ val ∈ vals, val = c := by
  obtain ⟨count, hcount⟩ := Option.ne_none_iff_exists'.mp hcount
  by_cases hsame : entry.min.getD 0 = entry.max.getD 0
  · refine .inr ⟨entry.min.getD 0, fun val hval => ?_⟩
    obtain ⟨hmin, hmax⟩ := hkept.bounds val hval
    exact le_antisymm (hsame ▸ hmax) hmin
  · have hcv : printedCv ntasks totals field =
        some ⟨entry.squaredDiff.getD 0 / ntasks, entry.mean.getD 0⟩ := by
      rw [printedCv_eq, htext, if_neg Bool.false_ne_true, hcount, Option.bind_some, hentry,
        Option.bind_some, cv_statsColumns]
      exact ⟨fun h => hsame h.1, hkept.mean_ne_zero_iff.mpr hsum, rfl⟩
    obtain ⟨mean, hstored, hsquare⟩ := hover _ hcv
    obtain rfl : mean = vals.sum / vals.length := by
      rw [Totals.storedMean, hentry, Option.getD_some, hkept.mean] at hstored
      exact (Option.some.inj hstored).symm
    exact ((hkept.value_iff hntasks hsum).mp hsquare).imp_right fun hconst => ⟨_, hconst⟩

end KeptOver

/-! ## The levels of a job -/

/-- A field that each thread has gives a value for each of them. -/
theorem length_threadCounts {data : ProcessData} {field : Text}
    (hall : ∀ tid ∈ data.tids, data.threadCount field tid ≠ none) :
    (data.threadCounts field).length = data.tids.length := by
  rw [← reduceOption_map_threadCount, ← List.length_map (f := data.threadCount field),
    List.reduceOption_length_eq_iff]
  exact List.forall_mem_map.mpr fun tid htid => Option.isSome_iff_ne_none.mpr (hall tid htid)

/-- A field that each process has gives a value for each of them. -/
theorem length_processCounts {report : Report} {field : Text}
    (hall : ∀ pid ∈ report.pids, (report.processOf pid).count field ≠ none) :
    (report.processCounts field).length = report.pids.length := by
  rw [← reduceOption_map_count,
    ← List.length_map (f := fun pid => (report.processOf pid).count field),
    List.reduceOption_length_eq_iff]
  exact List.forall_mem_map.mpr fun pid hpid => Option.isSome_iff_ne_none.mpr (hall pid hpid)

/-- The coefficients of variation over the threads of a process. -/
theorem cvOver_processTotals_iff (order : KeyOrder) {ntasks : ℕ} (hntasks : 0 < ntasks)
    {data : ProcessData} {field : Text} (htids : 1 < data.tids.length)
    (hall : ∀ tid ∈ data.tids, data.threadCount field tid ≠ none) :
    CvOver ntasks (processTotals order data) field (data.threadCounts field) ↔
      (isText field = false → (data.threadCounts field).sum ≠ 0 →
        data.tids.length = ntasks ∨ ∃ c, ∀ val ∈ data.threadCounts field, val = c) := by
  have hlength := length_threadCounts hall
  have hvals : data.threadCounts field ≠ [] := by
    rw [← List.length_pos_iff, hlength]
    omega
  have hlevels : 1 < (threadLevels order data).length := by
    have hperm := (map_lookup_threadLevels_perm order data field).length_eq
    rw [List.length_map, List.length_map] at hperm
    omega
  obtain ⟨entry, hentry, hkept⟩ := keptOver_combine order
    { counts := data.counts } hlevels (AList.lookup_empty field)
    (levelValues_threadLevels_perm order data field) hvals
    ((storedMean_processTotals_iff data field hvals).mpr (.inl hall) order)
  have hcount : (processTotals order data).counts.lookup field ≠ none := by
    rw [lookup_counts_processTotals, ProcessData.count]
    split
    · exact Option.some_ne_none _
    · rw [sum?, if_neg hvals]
      exact Option.some_ne_none _
  rw [← hlength]
  exact ⟨hkept.match_of_cvOver hntasks hentry hcount, hkept.cvOver hntasks hentry⟩

/-- The coefficients of variation over the tasks of a job are right. -/
theorem cvOver_computeTotals (order : KeyOrder) (wallclockUsecs : Option ℚ) {report : Report}
    {field : Text} (hpids : 1 < report.pids.length)
    (hall : ∀ pid ∈ report.pids, (report.processOf pid).count field ≠ none) :
    CvOver report.pids.length (computeTotals order wallclockUsecs report).total field
      (report.processCounts field) := by
  have hlength := length_processCounts hall
  have hvals : report.processCounts field ≠ [] := by
    rw [← List.length_pos_iff, hlength]
    omega
  have hlevels : 1 < (processLevels order report).length := by
    have hperm := (map_lookup_processLevels_perm order report field).length_eq
    rw [List.length_map, List.length_map] at hperm
    omega
  have hstats := stats_computeTotals report order wallclockUsecs
  have hmean :=
    (storedMean_computeTotals_iff report field wallclockUsecs hvals).mpr (.inl hall) order
  rw [Totals.storedMean, hstats] at hmean
  obtain ⟨entry, hentry, hkept⟩ := keptOver_combine order {} hlevels
    (AList.lookup_empty field) (levelValues_processLevels_perm order report field) hvals hmean
  rw [← hstats] at hentry
  exact hkept.cvOver (by omega) hentry fun _ _ => .inl hlength

/-- **The coefficients of variation are taken over the right populations** exactly if the
numbers of threads match the number of tasks where the threads differ. -/
theorem variations_right_iff (order : KeyOrder) (wallclockUsecs : Option ℚ) (report : Report) :
    VariationsRight report (computeTotals order wallclockUsecs report) ↔
      PopulationsMatch report := by
  have hpids := (order.perm [] report.processData.keys).filter isNumeric
  have hntasks : (computeTotals order wallclockUsecs report).ntasks = report.pids.length :=
    hpids.length_eq
  constructor
  · intro hright pid hpid htids field htext hall hsum
    have hover := hright.threads (pid, processTotals (order.within pid) (report.processOf pid))
      (List.mem_map.mpr ⟨pid, hpids.mem_iff.mpr hpid, rfl⟩) htids field hall
    rw [hntasks] at hover
    exact (cvOver_processTotals_iff _ (List.length_pos_of_mem hpid) htids hall).mp hover htext hsum
  · intro hmatch
    constructor
    · intro process hprocess htids field hall
      obtain ⟨pid, hpid, rfl⟩ := List.mem_map.mp hprocess
      have hpid := hpids.mem_iff.mp hpid
      rw [hntasks]
      exact (cvOver_processTotals_iff _ (List.length_pos_of_mem hpid) htids hall).mpr
        fun htext => hmatch pid hpid htids field htext hall
    · intro htasks field hall
      rw [hntasks]
      exact cvOver_computeTotals order wallclockUsecs htasks hall

/-- A process whose two threads have counts of 2 and 4. -/
def twoThreadedProcess : ProcessData where
  threads := AList.insert ['0'] (AList.insert ['X'] 2 ∅)
    (AList.insert ['1'] (AList.insert ['X'] 4 ∅) ∅)

/-- **The variance of 2 and 4 over two threads is 1**, but 2 is used for a single task. -/
theorem variations_right_twoThreads :
    ¬ VariationsRight (jobOf twoThreadedProcess)
      (computeTotals insertionOrder none (jobOf twoThreadedProcess)) := by
  intro hright
  have hover := hright.threads (['7'], processTotals (insertionOrder.within ['7'])
    twoThreadedProcess) List.mem_cons_self (by decide) ['X'] (by decide)
  obtain ⟨mean, hmean, hvalue⟩ := hover ⟨2, 3⟩ (by decide +kernel)
  have hthree : (processTotals (insertionOrder.within ['7']) twoThreadedProcess).storedMean ['X'] =
      some 3 := by
    decide +kernel
  obtain rfl : mean = 3 := Option.some.inj (hmean.symm.trans hthree)
  have hsquare := Variation.sq_value_mul ⟨2, 3⟩ (by norm_num) (by norm_num)
  have hvariance : populationVariance (twoThreadedProcess.threadCounts ['X']) 3 = 1 := by
    decide +kernel
  replace hvalue : _ = ((populationVariance (twoThreadedProcess.threadCounts ['X']) 3 : ℚ) : ℝ) :=
    hvalue
  rw [hvariance] at hvalue
  have htwo := hsquare.symm.trans hvalue
  norm_num at htwo

end Papiex
