import Mathlib.Data.List.Perm.Basic
import Papiex.Report.Sums

/-!
# The means of a report

`mean` of `papiex-report.pl` is a running mean.  It is given the number of threads
that have been begun, and not the number of those that have the field.  The same is
true of the tasks.  The mean is right in every order of the hashes only if no thread
misses the field, or if there is one value only.

## Main results

* `storedMean_processTotals_iff`, `storedMean_computeTotals_iff`: the means at both levels.
* `means_right_iff`: when they are right in every order of the hashes.

## Design notes

The mean has to be right in every order, since the order of a hash is not the program's.
Where it is not, an order of the keys that shows this is built (`KeyOrder.listing`).  The
arithmetic is that of a running mean whose entries may be missing, from
`Papiex.Lib.RunningMean`.
-/

namespace Papiex

open KeyedFold

/-! ## Hashes in any order -/

namespace KeyOrder

/-- Keys at the top come in this order. -/
def listing (keys keys' : List Text) (hperm : keys'.Perm keys) : KeyOrder where
  order path present := if path = [] ∧ present = keys then keys' else present
  perm path present := by
    split
    · next h => exact h.2 ▸ hperm
    · exact .refl _

/-- A hash may be listed in any order of its keys. -/
theorem keys_listing {V : Type} (hash : Hash V) {keys' : List Text}
    (hperm : keys'.Perm hash.keys) : (listing hash.keys keys' hperm).keys hash = keys' :=
  if_pos ⟨rfl, rfl⟩

/-- The hashes below this name come in this order. -/
def below (name : Text) (inner : KeyOrder) : KeyOrder where
  order
    | [], present => present
    | other :: path, present => if other = name then inner.order path present else present
  perm
    | [], _ => .refl _
    | other :: path, present => by
        dsimp only
        split
        · exact inner.perm path present
        · exact .refl _

theorem within_below (name : Text) (inner : KeyOrder) : (below name inner).within name = inner := by
  unfold within below
  simp only [if_true]

/-- The members of a level come in every order. -/
theorem exists_filter_keys {V : Type} (hash : Hash V) (p : Text → Bool) {members : List Text}
    (hperm : members.Perm (hash.keys.filter p)) :
    ∃ order : KeyOrder, (order.keys hash).filter p = members := by
  have hall : (members ++ hash.keys.filter fun key => !p key).Perm hash.keys :=
    (hperm.append_right _).trans (List.filter_append_perm p hash.keys)
  have hmembers : ∀ key ∈ members, p key = true := fun key hkey =>
    (List.mem_filter.mp (hperm.mem_iff.mp hkey)).2
  refine ⟨listing hash.keys _ hall, ?_⟩
  rw [keys_listing, List.filter_append, List.filter_eq_self.mpr hmembers, List.filter_filter]
  simp

end KeyOrder

/-! ## The mean in a cell -/

namespace Totals

/-- The mean that is kept of a field. -/
def storedMean (totals : Totals) (field : Text) : Option ℚ :=
  ((totals.stats.lookup field).getD {}).mean

/-- A cell as a running mean. -/
def meanState (cell : Option ℚ × FieldStats) : RunningMean.State ℚ :=
  ⟨cell.1.isSome, cell.2.mean.getD 0⟩

/-- A value goes into the mean as one step of it. -/
theorem meanState_update (cell : Option ℚ × FieldStats) (val : ℕ × ℚ) :
    meanState (update cell val) = RunningMean.step (meanState cell) val := by
  cases hcount : cell.1 <;> simp [update, meanState, RunningMean.step, hcount, perlMean]

/-- Values go into the mean as a run of it. -/
theorem meanState_foldl_update (vals : List (ℕ × ℚ)) (cell : Option ℚ × FieldStats) :
    meanState (vals.foldl update cell) = vals.foldl RunningMean.step (meanState cell) := by
  induction vals generalizing cell with
  | nil => rfl
  | cons val vals ih => rw [List.foldl_cons, ih, meanState_update, List.foldl_cons]

/-- Once there was a value there is a mean. -/
theorem mean_foldl_update_isSome {vals : List (ℕ × ℚ)} (hvals : vals ≠ [])
    (cell : Option ℚ × FieldStats) : (vals.foldl update cell).2.mean.isSome = true := by
  rw [← List.dropLast_append_getLast hvals, List.foldl_append, List.foldl_cons, List.foldl_nil,
    update]
  split <;> rfl

variable (order : KeyOrder) (levels : List (Hash ℚ)) (start : Totals) (field : Text)

/-- The mean of a field at the end is the running mean of its values. -/
theorem storedMean_combine (hvals : ∃ counts ∈ levels, counts.lookup field ≠ none) :
    (combine order levels start).storedMean field =
      some (RunningMean.run (meanState (start.cell field)) 1
        (levels.map fun counts => counts.lookup field)).mean := by
  have hne : valuesAt field (entries order levels) ≠ [] := by
    obtain ⟨counts, hcounts, hlookup⟩ := hvals
    obtain ⟨val, hval⟩ := Option.ne_none_iff_exists'.mp hlookup
    intro hnil
    have hmem : val ∈ levelValues field levels := List.mem_filterMap.mpr ⟨counts, hcounts, hval⟩
    rw [← map_snd_valuesAt_entries order, hnil] at hmem
    cases hmem
  obtain ⟨-, -, -, hmean⟩ := foldl_updateSquaredDiff (valuesAt field (entries order levels))
    ((valuesAt field (entries order levels)).foldl update (start.cell field))
  have hcell : ((combine order levels start).cell field).2.mean =
      ((valuesAt field (entries order levels)).foldl update (start.cell field)).2.mean := by
    rw [cell_combine]
    dsimp only
    split
    · exact hmean
    · rfl
  have hsome := mean_foldl_update_isSome hne (start.cell field)
  have hstate := meanState_foldl_update (valuesAt field (entries order levels)) (start.cell field)
  rw [valuesAt_entries] at hstate hsome hcell
  rw [RunningMean.run, ← hstate, storedMean]
  refine hcell.trans ?_
  obtain ⟨mean, hmean⟩ := Option.isSome_iff_exists.mp hsome
  rw [meanState, hmean]
  rfl

/-- The mean of a field is kept right exactly if the running mean is. -/
theorem storedMean_eq_iff {vals : List (Option ℚ)} (hvals : vals.reduceOption ≠ [])
    (hperm : (levels.map fun counts => counts.lookup field).Perm vals) :
    (combine order levels start).storedMean field =
        some (vals.reduceOption.sum / vals.reduceOption.length) ↔
      RunningMean.Right (meanState (start.cell field))
        (levels.map fun counts => counts.lookup field) := by
  have hcounts : ∃ counts ∈ levels, counts.lookup field ≠ none := by
    obtain ⟨val, hval⟩ := List.exists_mem_of_ne_nil _ hvals
    have hmem := hperm.mem_iff.mpr (List.reduceOption_mem_iff.mp hval)
    obtain ⟨counts, hcounts, hlookup⟩ := List.mem_map.mp hmem
    exact ⟨counts, hcounts, fun hnone => nomatch hnone.symm.trans hlookup⟩
  rw [storedMean_combine order levels start field hcounts, RunningMean.Right,
    RunningMean.average_perm hperm, RunningMean.average, Option.some.injEq]

end Totals

/-! ## The means of the threads and of the processes -/

section

variable (data : ProcessData) (report : Report) (field : Text)

/-- The values of the threads come in every order. -/
theorem forall_threadLevels_iff (p : List (Option ℚ) → Prop) :
    (∀ order, p ((threadLevels order data).map fun counts => counts.lookup field)) ↔
      ∀ vals, vals.Perm (data.tids.map (data.threadCount field)) → p vals := by
  constructor
  · intro hall vals hperm
    obtain ⟨tids, rfl, htids⟩ :
        (Relation.Comp (· = List.map (data.threadCount field) ·) List.Perm) vals data.tids := by
      rwa [List.eq_map_comp_perm]
    obtain ⟨order, horder⟩ := KeyOrder.exists_filter_keys data.threads isNumeric htids
    have hvals := hall order
    rwa [threadLevels, horder, List.map_map] at hvals
  · exact fun hall order => hall _ (map_lookup_threadLevels_perm order data field)

/-- The values of the processes come in every order. -/
theorem forall_processLevels_iff (p : List (Option ℚ) → Prop) :
    (∀ order, p ((processLevels order report).map fun counts => counts.lookup field)) ↔
      ∀ vals, vals.Perm (report.pids.map fun pid => (report.processOf pid).count field) →
        p vals := by
  constructor
  · intro hall vals hperm
    obtain ⟨pids, rfl, hpids⟩ : (Relation.Comp
        (· = List.map (fun pid => (report.processOf pid).count field) ·) List.Perm)
        vals report.pids := by
      rwa [List.eq_map_comp_perm]
    obtain ⟨order, horder⟩ := KeyOrder.exists_filter_keys report.processData isNumeric hpids
    have hvals := hall order
    rw [processLevels, horder, List.map_map] at hvals
    simpa only [Function.comp_def, lookup_counts_processTotals] using hvals
  · exact fun hall order => hall _ (map_lookup_processLevels_perm order report field)

/-- The values of a field over the threads that have it. -/
theorem reduceOption_map_threadCount :
    (data.tids.map (data.threadCount field)).reduceOption = data.threadCounts field := by
  rw [List.reduceOption, List.filterMap_map]
  rfl

/-- The values of a field over the processes that have it. -/
theorem reduceOption_map_count :
    (report.pids.map fun pid => (report.processOf pid).count field).reduceOption =
      report.processCounts field := by
  rw [List.reduceOption, List.filterMap_map]
  rfl

/-- **The mean over the threads is right in every order** exactly if no thread misses the
field, or if those that have it have the same value.  A process that has the field itself
starts from a mean of 0. -/
theorem storedMean_processTotals_iff (hfield : data.threadCounts field ≠ []) :
    (∀ order, (processTotals order data).storedMean field =
        some ((data.threadCounts field).sum / (data.threadCounts field).length)) ↔
      (∀ tid ∈ data.tids, data.threadCount field tid ≠ none) ∨
        ∃ c, (∀ val ∈ data.threadCounts field, val = c) ∧
          (data.counts.lookup field ≠ none → c = 0) := by
  have hreduce := reduceOption_map_threadCount data field
  have hright := fun order => Totals.storedMean_eq_iff order (threadLevels order data)
    { counts := data.counts } field (hreduce ▸ hfield)
    (map_lookup_threadLevels_perm order data field)
  simp only [hreduce, ← processTotals_eq] at hright
  simp only [hright]
  have hstate : Totals.meanState (Totals.cell { counts := data.counts } field) =
      ⟨(data.counts.lookup field).isSome, 0⟩ := rfl
  have hsome : ∃ val, some val ∈ data.tids.map (data.threadCount field) := by
    obtain ⟨val, hval⟩ := List.exists_mem_of_ne_nil _ (hreduce ▸ hfield)
    exact ⟨val, List.reduceOption_mem_iff.mp hval⟩
  rw [forall_threadLevels_iff, RunningMean.forall_perm_right_iff hsome (fun _ => by rw [hstate]),
    hstate]
  refine or_congr ?_ (exists_congr fun c => and_congr ?_ ?_)
  · simp only [List.mem_map, not_exists, not_and, ne_eq]
  · simp only [RunningMean.Constant, ← List.reduceOption_mem_iff, hreduce]
  · rw [Option.isSome_iff_ne_none]

/-- The statistics of the job are those of its processes. -/
theorem stats_computeTotals (order : KeyOrder) (wallclockUsecs : Option ℚ) :
    (computeTotals order wallclockUsecs report).total.stats =
      (Totals.combine order (processLevels order report) {}).stats := by
  unfold computeTotals processLevels
  simp only [List.map_map, Function.comp_def]
  cases wallclockUsecs <;> rfl

/-- **The mean over the processes is right in every order** exactly if no process misses
the field, or if those that have it have the same value. -/
theorem storedMean_computeTotals_iff (wallclockUsecs : Option ℚ)
    (hfield : report.processCounts field ≠ []) :
    (∀ order, (computeTotals order wallclockUsecs report).total.storedMean field =
        some ((report.processCounts field).sum / (report.processCounts field).length)) ↔
      (∀ pid ∈ report.pids, (report.processOf pid).count field ≠ none) ∨
        ∃ c, ∀ val ∈ report.processCounts field, val = c := by
  have hreduce := reduceOption_map_count report field
  have htotal : ∀ order, (computeTotals order wallclockUsecs report).total.storedMean field =
      (Totals.combine order (processLevels order report) {}).storedMean field := fun order => by
    rw [Totals.storedMean, stats_computeTotals, Totals.storedMean]
  have hright := fun order => Totals.storedMean_eq_iff order (processLevels order report)
    {} field (hreduce ▸ hfield) (map_lookup_processLevels_perm order report field)
  simp only [hreduce] at hright
  simp only [htotal, hright]
  have hstate : Totals.meanState (Totals.cell {} field) = ⟨false, 0⟩ := rfl
  have hsome : ∃ val, some val ∈ report.pids.map fun pid => (report.processOf pid).count field := by
    obtain ⟨val, hval⟩ := List.exists_mem_of_ne_nil _ (hreduce ▸ hfield)
    exact ⟨val, List.reduceOption_mem_iff.mp hval⟩
  rw [forall_processLevels_iff, RunningMean.forall_perm_right_iff hsome (fun _ => by rw [hstate]),
    hstate]
  refine or_congr ?_ (exists_congr fun c => ?_)
  · simp only [List.mem_map, not_exists, not_and, ne_eq]
  · simp only [RunningMean.Constant, ← List.reduceOption_mem_iff, hreduce]
    exact and_iff_left nofun

end

/-! ## All the means of a report -/

/-- Every mean is the sum over the members that have the field, divided by their number. -/
structure MeansRight (report : Report) (totals : JobTotals) : Prop where
  threads : ∀ process ∈ totals.processes, ∀ field,
    (report.processOf process.1).threadCounts field ≠ [] →
      process.2.storedMean field =
        some (((report.processOf process.1).threadCounts field).sum /
          ((report.processOf process.1).threadCounts field).length)
  processes : ∀ field, report.processCounts field ≠ [] →
    totals.total.storedMean field =
      some ((report.processCounts field).sum / (report.processCounts field).length)

/-- The means do not depend on the order: no member of a level misses a field that
another one has, unless those that have it have the same value. -/
structure MeansSettled (report : Report) : Prop where
  threads : ∀ pid ∈ report.pids, ∀ field, (report.processOf pid).threadCounts field ≠ [] →
    (∀ tid ∈ (report.processOf pid).tids, (report.processOf pid).threadCount field tid ≠ none) ∨
      ∃ c, (∀ val ∈ (report.processOf pid).threadCounts field, val = c) ∧
        ((report.processOf pid).counts.lookup field ≠ none → c = 0)
  processes : ∀ field, report.processCounts field ≠ [] →
    (∀ pid ∈ report.pids, (report.processOf pid).count field ≠ none) ∨
      ∃ c, ∀ val ∈ report.processCounts field, val = c

/-- **The means of a report are right in every order of the hashes** exactly if they are
settled. -/
theorem means_right_iff (wallclockUsecs : Option ℚ) (report : Report) :
    (∀ order, MeansRight report (computeTotals order wallclockUsecs report)) ↔
      MeansSettled report := by
  have hprocess : ∀ order, ∀ pid ∈ report.pids,
      (pid, processTotals (order.within pid) (report.processOf pid)) ∈
        (computeTotals order wallclockUsecs report).processes := fun order pid hpid =>
    List.mem_map.mpr ⟨pid, ((order.perm _ _).filter _).mem_iff.mpr hpid, rfl⟩
  constructor
  · intro hright
    constructor
    · intro pid hpid field hfield
      rw [← storedMean_processTotals_iff _ _ hfield]
      intro order
      have hmean := (hright (KeyOrder.below pid order)).threads _ (hprocess _ pid hpid) field hfield
      rwa [KeyOrder.within_below] at hmean
    · intro field hfield
      rw [← storedMean_computeTotals_iff report field wallclockUsecs hfield]
      exact fun order => (hright order).processes field hfield
  · intro hsettled order
    constructor
    · intro process hprocess field hfield
      obtain ⟨pid, hpid, rfl⟩ := List.mem_map.mp hprocess
      have hpid := ((order.perm _ _).filter _).mem_iff.mp hpid
      exact (storedMean_processTotals_iff _ _ hfield).mpr
        (hsettled.threads pid hpid field hfield) (order.within pid)
    · intro field hfield
      exact (storedMean_computeTotals_iff report field wallclockUsecs hfield).mpr
        (hsettled.processes field hfield) order

/-- A process of three threads, the second of which misses the field. -/
def missingThread : ProcessData where
  threads := AList.insert ['0'] (AList.insert ['X'] 2 ∅)
    (AList.insert ['1'] ∅ (AList.insert ['2'] (AList.insert ['X'] 4 ∅) ∅))

/-- **The mean of 2 and 4 is 8/3**, if a thread without the field comes between them. -/
theorem means_right_missingThread :
    ¬ ∀ order,
      MeansRight (jobOf missingThread) (computeTotals order none (jobOf missingThread)) := by
  intro hright
  have hmean := (hright insertionOrder).threads _ List.mem_cons_self ['X'] (by decide +kernel)
  revert hmean
  decide +kernel

end Papiex
