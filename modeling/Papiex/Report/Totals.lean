import Papiex.Lib.KeyedFold
import Papiex.Lib.RunningMean
import Papiex.Report.Lines

/-!
# The totals of a job

`compute_totals` of `papiex-report.pl`.  The counts of the threads are added to the
counts of their process, and the counts of the processes make up the totals of the
job; in both places the least, greatest and mean value of every field are kept
beside the sum.  Perl goes through the keys of a hash in an order of its own, so
the order is a parameter here.

The counts by rank, which are kept for printing only, are left out.

## Main results

* `cell_combine`: what a field comes to over the levels.
* `summary_combine_empty`, `lookup_counts_combine`: sum, least and greatest value.

## Design notes

A level is added field by field, and the squared differences in a second pass when the mean
is known, if there is more than one level.  Both passes are the same for threads and for
processes, so `Totals.combine` is one definition, used twice.
-/

namespace Papiex

open KeyedFold

/-- The order in which the keys of a hash come: any order of them.  A hash may lie in
another one, and each has its own order; they are told apart by their paths. -/
structure KeyOrder where
  order : List Text → List Text → List Text
  perm : ∀ path keys, (order path keys).Perm keys

/-- The keys in the order in which the hash holds them. -/
def insertionOrder : KeyOrder := ⟨fun _ => id, fun _ _ => .refl _⟩

namespace KeyOrder

/-- The order of the hashes that lie below this name. -/
def within (order : KeyOrder) (name : Text) : KeyOrder :=
  ⟨fun path => order.order (name :: path), fun path => order.perm (name :: path)⟩

/-- `keys %hash`. -/
def keys {V : Type} (order : KeyOrder) (hash : Hash V) : List Text :=
  order.order [] hash.keys

end KeyOrder

/-- `/^\d+$/`. -/
def isNumeric (text : Text) : Bool := !text.isEmpty && text.all Char.isDigit

theorem isNumeric_decimal (n : ℕ) : isNumeric (Chars.decimal n) = true := by
  have hdigits : ∀ c ∈ Chars.decimal n, c.isDigit = true := fun _ => Chars.isDigit_of_mem_decimal
  simpa [isNumeric, Chars.decimal_ne_nil] using hdigits

/-! ## Sums of levels -/

/-- `min`; what is undefined counts as 0. -/
def perlMin (a b : Option ℚ) : Option ℚ := if a.getD 0 ≤ b.getD 0 then a else b

/-- `max`; what is undefined counts as 0. -/
def perlMax (a b : Option ℚ) : Option ℚ := if b.getD 0 ≤ a.getD 0 then a else b

/-- `mean`. -/
def perlMean (prevMean : Option ℚ) (newVal : ℚ) (newCount : ℕ) : ℚ :=
  (prevMean.getD 0 * (newCount - 1) + newVal) / newCount

/-- The entry of a field in `stats`. -/
structure FieldStats where
  min : Option ℚ := none
  max : Option ℚ := none
  mean : Option ℚ := none
  squaredDiff : Option ℚ := none

/-- The hashes `counts` and `stats` of a process or of the job. -/
structure Totals where
  counts : Hash ℚ := ∅
  stats : Hash FieldStats := ∅

namespace Totals

/-- One field of a level is added; `n` levels have been begun. -/
def add (totals : Totals) (entry : Text × (ℕ × ℚ)) : Totals :=
  let (field, n, val) := entry
  match totals.counts.lookup field with
  | some old =>
      let stats := (totals.stats.lookup field).getD {}
      { counts := totals.counts.insert field (old + val)
        stats := totals.stats.insert field
          { stats with
            min := perlMin stats.min (some val)
            max := perlMax stats.max (some val)
            mean := some (perlMean stats.mean val n) } }
  | none =>
      { counts := totals.counts.insert field val
        stats := totals.stats.insert field
          { min := some val, max := some val, mean := some val, squaredDiff := some 0 } }

/-- The squared difference of one field of a level to the mean is added. -/
def addSquaredDiff (totals : Totals) (entry : Text × (ℕ × ℚ)) : Totals :=
  let (field, _, val) := entry
  let stats := (totals.stats.lookup field).getD {}
  match totals.counts.lookup field, stats.mean with
  | some _, some mean =>
      { totals with
        stats := totals.stats.insert field
          { stats with squaredDiff := some (stats.squaredDiff.getD 0 + (mean - val) ^ 2) } }
  | _, _ => totals

/-- The order of the fields of level `n`. -/
def levelOrder (order : KeyOrder) (n : ℕ) : KeyOrder :=
  (order.within "counts".toList).within (Chars.decimal n)

/-- The fields of a level with their counts. -/
def levelEntries (order : KeyOrder) (n : ℕ) (counts : Hash ℚ) : List (Text × (ℕ × ℚ)) :=
  ((levelOrder order n).keys counts).map fun field => (field, n, (counts.lookup field).getD 0)

/-- The fields of all the levels, one level after the other. -/
def entries (order : KeyOrder) (levels : List (Hash ℚ)) : List (Text × (ℕ × ℚ)) :=
  (levels.zipIdx 1).flatMap fun level => levelEntries order level.2 level.1

/-- The levels are added up, and then the squared differences if there is more than
one level. -/
def combine (order : KeyOrder) (levels : List (Hash ℚ)) (start : Totals) : Totals :=
  let summed := (entries order levels).foldl add start
  if 1 < levels.length then (entries order levels).foldl addSquaredDiff summed else summed

end Totals

/-! ## `compute_totals` -/

/-- The totals of a process: its own counts, and those of its threads. -/
def processTotals (order : KeyOrder) (data : ProcessData) : Totals :=
  let tids := (order.keys data.threads).filter isNumeric
  Totals.combine order (tids.map fun tid => (data.threads.lookup tid).getD ∅)
    { counts := data.counts }

/-- What `compute_totals` leaves in `process_data` and `global_data`. -/
structure JobTotals where
  ntasks : ℕ
  processes : List (Text × Totals)
  total : Totals

/-- `compute_totals`.  The wallclock time of the job is taken from
`PAPIEX_WALLCLOCK_USECS`, if that is in the environment. -/
def computeTotals (order : KeyOrder) (wallclockUsecs : Option ℚ) (report : Report) : JobTotals :=
  let pids := (order.keys report.processData).filter isNumeric
  let processes := pids.map fun pid =>
    (pid, processTotals (order.within pid) (report.processOf pid))
  let total := Totals.combine order (processes.map fun process => process.2.counts) {}
  { ntasks := pids.length
    processes
    total := match wallclockUsecs with
      | some usecs =>
          { total with counts := total.counts.insert "Wallclock usecs".toList usecs }
      | none => total }

/-! ## What the totals hold -/

namespace Totals

variable (order : KeyOrder) (field : Text)

theorem nodup_keys {V : Type} (hash : Hash V) : (order.keys hash).Nodup :=
  (order.perm _ _).nodup_iff.mpr hash.keys_nodup

theorem mem_keys_iff {V : Type} {hash : Hash V} {key : Text} :
    key ∈ order.keys hash ↔ key ∈ hash :=
  (order.perm _ _).mem_iff

/-- What is kept of a field. -/
def cell (totals : Totals) (field : Text) : Option ℚ × FieldStats :=
  (totals.counts.lookup field, (totals.stats.lookup field).getD {})

/-- What adding a value does to the cell of its field. -/
def update (cell : Option ℚ × FieldStats) (val : ℕ × ℚ) : Option ℚ × FieldStats :=
  match cell.1 with
  | some old =>
      (some (old + val.2),
        { cell.2 with
          min := perlMin cell.2.min (some val.2)
          max := perlMax cell.2.max (some val.2)
          mean := some (perlMean cell.2.mean val.2 val.1) })
  | none =>
      (some val.2,
        { min := some val.2, max := some val.2, mean := some val.2, squaredDiff := some 0 })

/-- A value goes into the totals of its own field. -/
theorem cell_add (totals : Totals) (entry : Text × (ℕ × ℚ)) (key : Text) :
    (totals.add entry).cell key =
      if entry.1 = key then update (totals.cell key) entry.2 else totals.cell key := by
  obtain ⟨field, n, val⟩ := entry
  by_cases h : field = key
  · subst h
    cases hold : totals.counts.lookup field <;> simp [add, cell, update, hold]
  · have hne : key ≠ field := Ne.symm h
    cases hold : totals.counts.lookup field <;>
      simp [add, cell, hold, h, AList.lookup_insert_ne hne]

/-- The values of a field in the levels. -/
def levelValues (field : Text) (levels : List (Hash ℚ)) : List ℚ :=
  levels.filterMap fun counts => counts.lookup field

/-- A level has at most one value for a field. -/
theorem valuesAt_levelEntries (n : ℕ) (counts : Hash ℚ) :
    valuesAt field (levelEntries order n counts) =
      (counts.lookup field).toList.map fun val => (n, val) := by
  rw [levelEntries, valuesAt_map_of_nodup (nodup_keys _ counts)
    (fun field => (n, (counts.lookup field).getD 0))]
  cases hval : counts.lookup field with
  | none =>
      rw [if_neg]
      · rfl
      · rw [mem_keys_iff, ← AList.lookup_isSome, hval]
        simp
  | some val =>
      rw [if_pos]
      · rfl
      · rw [mem_keys_iff, ← AList.lookup_isSome, hval]
        rfl

/-- The values of a field come with the numbers of their levels. -/
theorem valuesAt_entries (levels : List (Hash ℚ)) :
    valuesAt field (entries order levels) =
      RunningMean.numbered 1 (levels.map fun counts => counts.lookup field) := by
  have hgeneral : ∀ start : ℕ, valuesAt field ((levels.zipIdx start).flatMap fun level =>
      levelEntries order level.2 level.1) =
      RunningMean.numbered start (levels.map fun counts => counts.lookup field) := by
    induction levels with
    | nil => intro start; rfl
    | cons counts levels ih =>
        intro start
        rw [List.zipIdx_cons, List.flatMap_cons, valuesAt_append, ih, valuesAt_levelEntries,
          List.map_cons]
        cases hval : counts.lookup field <;> rfl
  exact hgeneral 1

/-- The values of a field over the levels, in order. -/
theorem map_snd_valuesAt_entries (levels : List (Hash ℚ)) :
    (valuesAt field (entries order levels)).map Prod.snd = levelValues field levels := by
  rw [valuesAt_entries, RunningMean.map_snd_numbered, List.reduceOption, List.filterMap_map]
  rfl

/-- What adding a squared difference does to the cell of its field. -/
def updateSquaredDiff (cell : Option ℚ × FieldStats) (val : ℕ × ℚ) : Option ℚ × FieldStats :=
  match cell.1, cell.2.mean with
  | some _, some mean =>
      (cell.1, { cell.2 with squaredDiff := some (cell.2.squaredDiff.getD 0 + (mean - val.2) ^ 2) })
  | _, _ => cell

theorem cell_addSquaredDiff (totals : Totals) (entry : Text × (ℕ × ℚ)) (key : Text) :
    (totals.addSquaredDiff entry).cell key =
      if entry.1 = key then updateSquaredDiff (totals.cell key) entry.2 else totals.cell key := by
  obtain ⟨field, n, val⟩ := entry
  by_cases h : field = key
  · subst h
    rw [if_pos rfl]
    cases hold : totals.counts.lookup field with
    | none => simp [addSquaredDiff, cell, updateSquaredDiff, hold]
    | some old =>
        cases hmean : ((totals.stats.lookup field).getD {}).mean <;>
          simp [addSquaredDiff, cell, updateSquaredDiff, hold, hmean]
  · have hne : key ≠ field := Ne.symm h
    rw [if_neg h]
    unfold addSquaredDiff
    dsimp only
    split
    · simp [cell, AList.lookup_insert_ne hne]
    · rfl

/-- **The cell of a field at the end**: the values of the field are added in the order of
the levels, and then their squared differences. -/
theorem cell_combine (levels : List (Hash ℚ)) (start : Totals) :
    (combine order levels start).cell field =
      let summed := (valuesAt field (entries order levels)).foldl update (start.cell field)
      if 1 < levels.length then
        (valuesAt field (entries order levels)).foldl updateSquaredDiff summed
      else summed := by
  rw [combine, apply_ite (fun totals => cell totals field),
    cell_foldl addSquaredDiff cell updateSquaredDiff cell_addSquaredDiff,
    cell_foldl add cell update cell_add]

/-- What the squared differences leave alone. -/
theorem foldl_updateSquaredDiff (vals : List (ℕ × ℚ)) (cell : Option ℚ × FieldStats) :
    let last := vals.foldl updateSquaredDiff cell
    last.1 = cell.1 ∧ last.2.min = cell.2.min ∧ last.2.max = cell.2.max ∧
      last.2.mean = cell.2.mean := by
  induction vals generalizing cell with
  | nil => exact ⟨rfl, rfl, rfl, rfl⟩
  | cons val vals ih =>
      have hstep : (updateSquaredDiff cell val).1 = cell.1 ∧
          (updateSquaredDiff cell val).2.min = cell.2.min ∧
          (updateSquaredDiff cell val).2.max = cell.2.max ∧
          (updateSquaredDiff cell val).2.mean = cell.2.mean := by
        unfold updateSquaredDiff
        split <;> exact ⟨rfl, rfl, rfl, rfl⟩
      obtain ⟨hcount, hmin, hmax, hmean⟩ := ih (updateSquaredDiff cell val)
      exact ⟨hcount.trans hstep.1, hmin.trans hstep.2.1, hmax.trans hstep.2.2.1,
        hmean.trans hstep.2.2.2⟩

/-- The part of a cell that the totals are read from. -/
def summary (cell : Option ℚ × FieldStats) : Option ℚ × Option ℚ × Option ℚ :=
  (cell.1, cell.2.min, cell.2.max)

/-- The totals of a field depend on its own values alone. -/
theorem summary_combine (levels : List (Hash ℚ)) (start : Totals) :
    summary ((combine order levels start).cell field) =
      summary ((valuesAt field (entries order levels)).foldl update (start.cell field)) := by
  obtain ⟨hcount, hmin, hmax, -⟩ := foldl_updateSquaredDiff (valuesAt field (entries order levels))
    ((valuesAt field (entries order levels)).foldl update (start.cell field))
  rw [cell_combine]
  dsimp only
  split
  · rw [summary, hcount, hmin, hmax, summary]
  · rfl

theorem perlMin_some (a b : ℚ) : perlMin (some a) (some b) = some (min a b) := by
  rw [perlMin, min_def]
  split <;> simp_all

theorem perlMax_some (a b : ℚ) : perlMax (some a) (some b) = some (max a b) := by
  rw [perlMax, max_def']
  split <;> simp_all

/-- Adding to a cell that has a value. -/
theorem summary_foldl_update_some (vals : List (ℕ × ℚ)) (sum least greatest : ℚ)
    (mean squaredDiff : Option ℚ) :
    summary (vals.foldl update
      (some sum, { min := some least, max := some greatest, mean, squaredDiff })) =
      (some (sum + (vals.map Prod.snd).sum), some ((vals.map Prod.snd).foldl min least),
        some ((vals.map Prod.snd).foldl max greatest)) := by
  induction vals generalizing sum least greatest mean with
  | nil => simp [summary]
  | cons val vals ih =>
      simp only [List.foldl_cons, update, perlMin_some, perlMax_some]
      rw [ih]
      simp [add_assoc]

/-- A cell that was empty holds the sum, the least and the greatest of the values. -/
theorem summary_foldl_update_empty (vals : List (ℕ × ℚ)) :
    summary (vals.foldl update (none, {})) =
      (sum? (vals.map Prod.snd), (vals.map Prod.snd).min?, (vals.map Prod.snd).max?) := by
  cases vals with
  | nil => rfl
  | cons val vals =>
      simp only [List.foldl_cons, update]
      rw [summary_foldl_update_some]
      rw [List.map_cons, List.min?_cons', List.max?_cons', sum?, if_neg (List.cons_ne_nil _ _),
        List.sum_cons]

/-- The sum in a cell does not depend on the rest of it. -/
theorem fst_foldl_update (vals : List (ℕ × ℚ)) (cell : Option ℚ × FieldStats) :
    (vals.foldl update cell).1 =
      match cell.1 with
      | some sum => some (sum + (vals.map Prod.snd).sum)
      | none => sum? (vals.map Prod.snd) := by
  have hsome : ∀ (vals : List (ℕ × ℚ)) (cell : Option ℚ × FieldStats) (sum : ℚ),
      cell.1 = some sum → (vals.foldl update cell).1 = some (sum + (vals.map Prod.snd).sum) := by
    intro vals
    induction vals with
    | nil => intro cell sum h; simp [h]
    | cons val vals ih =>
        intro cell sum h
        rw [List.foldl_cons, ih (update cell val) (sum + val.2) (by simp [update, h]),
          List.map_cons, List.sum_cons, add_assoc]
  cases h : cell.1 with
  | some sum => exact hsome vals cell sum h
  | none =>
      cases vals with
      | nil => exact h
      | cons val vals =>
          rw [List.foldl_cons, hsome vals (update cell val) val.2 (by simp [update, h])]
          simp [sum?]

/-- **Levels that are added to nothing: the sum, the least and the greatest of their
values.** -/
theorem summary_combine_empty (levels : List (Hash ℚ)) :
    summary ((combine order levels {}).cell field) =
      (sum? (levelValues field levels), (levelValues field levels).min?,
        (levelValues field levels).max?) := by
  have hempty : cell {} field = (none, {}) := rfl
  rw [summary_combine, hempty, summary_foldl_update_empty, map_snd_valuesAt_entries]

/-- **Levels that are added to counts: the sum goes on from there.** -/
theorem lookup_counts_combine (levels : List (Hash ℚ)) (start : Totals) :
    (combine order levels start).counts.lookup field =
      match start.counts.lookup field with
      | some sum => some (sum + (levelValues field levels).sum)
      | none => sum? (levelValues field levels) := by
  have hfst : (combine order levels start).counts.lookup field =
      (summary ((combine order levels start).cell field)).1 := rfl
  rw [hfst, summary_combine, summary, fst_foldl_update, map_snd_valuesAt_entries]
  rfl

end Totals

end Papiex
