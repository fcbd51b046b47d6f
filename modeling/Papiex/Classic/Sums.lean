import Mathlib.Algebra.BigOperators.Group.Finset.Basic
import Mathlib.Algebra.BigOperators.Ring.Finset
import Papiex.Lib.KeyedFold
import Papiex.Output.Counters

/-!
# The sums of classic mode

`print_process_stats` adds the records of the threads of a process up in
`process_data_sums`, caliper by caliper.  A caliper of a thread is left out if its
label is not the one that the sum has taken for the same index.

## Main results

* `sumOf_processDataSums`: the sum of a caliper, where the threads agree on its label.
* `classicTotal_eq`: what the sums hold under a label.

## Design notes

A threaded process has one record for each of its threads, and the sums are a fold over
them, with a fold over the calipers inside.  Only the record of caliper `j` of the sums
depends on the calipers `j` of the threads, so a caliper is followed on its own.  Whether a
record is taken in is `match_caliper_label`, which returns the label that the sum keeps.
-/

namespace Papiex

open KeyedFold

/-! ## The loop -/

/-- `match_caliper_label`: the label that the sum keeps, or nothing if the labels do not
match. -/
def matchCaliperLabel (label subLabel : Text) : Option Text :=
  if label ≠ [] ∧ subLabel ≠ [] then
    if label = subLabel then some label else none
  else if subLabel = [] ∧ label = [] then some label
  else if subLabel = [] ∧ label ≠ [] then none
  else some subLabel

/-- `counters[k] += …` for the configured events. -/
def addCounters (cfg : Config) (sums counters : ℕ → ℤ) : ℕ → ℤ :=
  fun k => if k < cfg.eventcnt then sums k + counters k else sums k

/-- The quantities of the profiling wrappers, as far as they are on. -/
def addProfiling (cfg : Config) (sums record : CaliperData) : CaliperData :=
  let mpied := if !cfg.noMpiProf && cfg.isMpied then
      { sums with mpiprof := sums.mpiprof + record.mpiprof
                  mpisyncprof := sums.mpisyncprof + record.mpisyncprof }
    else sums
  let ioed := if !cfg.noIoProf then { mpied with ioprof := mpied.ioprof + record.ioprof } else mpied
  if !cfg.noThreadsyncProf then
    { ioed with threadsyncprof := ioed.threadsyncprof + record.threadsyncprof }
  else ioed

/-- Each quantity is increased by itself: what is not profiled gets 0 more. -/
theorem addProfiling_eq (cfg : Config) (sums record : CaliperData) :
    addProfiling cfg sums record =
      { sums with
        mpiprof := sums.mpiprof + if !cfg.noMpiProf && cfg.isMpied then record.mpiprof else 0
        mpisyncprof :=
          sums.mpisyncprof + if !cfg.noMpiProf && cfg.isMpied then record.mpisyncprof else 0
        ioprof := sums.ioprof + if !cfg.noIoProf then record.ioprof else 0
        threadsyncprof :=
          sums.threadsyncprof + if !cfg.noThreadsyncProf then record.threadsyncprof else 0 } := by
  unfold addProfiling
  split_ifs <;> simp

/-- The record of one used caliper is added, or left out for its label. -/
def mergeCaliper (cfg : Config) (sums record : CaliperData) : CaliperData :=
  match matchCaliperLabel sums.label record.label with
  | none => sums
  | some label =>
      let basic :=
        { sums with
          label
          used := Binary32.round (sums.used + record.used)
          realCyc := sums.realCyc + record.realCyc }
      let full := if cfg.fullCaliperData then
          addProfiling cfg
            { basic with virtUsec := sums.virtUsec + record.virtUsec
                         virtCyc := sums.virtCyc + record.virtCyc
                         realUsec := sums.realUsec + record.realUsec } record
        else basic
      { full with counters := addCounters cfg sums.counters record.counters }

/-- One turn of the loop over the calipers of a thread. -/
def addCaliper (cfg : Config) (sums : PerthreadData) (entry : ℕ × CaliperData) : PerthreadData :=
  sums.setCaliper entry.1 (mergeCaliper cfg (sums.data entry.1) entry.2)

/-- The quantities of the whole run of a thread are added. -/
def addWhole (cfg : Config) (sums thread : PerthreadData) : PerthreadData :=
  let record := thread.data 0
  let zero := addProfiling cfg
    { sums.data 0 with
      used := Binary32.round ((sums.data 0).used + record.used)
      realUsec := (sums.data 0).realUsec + record.realUsec
      realCyc := (sums.data 0).realCyc + record.realCyc
      virtUsec := (sums.data 0).virtUsec + record.virtUsec
      virtCyc := (sums.data 0).virtCyc + record.virtCyc } record
  let mpied := !cfg.noMpiProf && cfg.isMpied
  { sums.setCaliper 0
      { zero with counters := addCounters cfg (sums.data 0).counters record.counters } with
    papiexMpiprof :=
      if mpied then sums.papiexMpiprof + thread.papiexMpiprof else sums.papiexMpiprof
    papiexMpisyncprof :=
      if mpied then sums.papiexMpisyncprof + thread.papiexMpisyncprof else sums.papiexMpisyncprof
    papiexIoprof :=
      if !cfg.noIoProf then sums.papiexIoprof + thread.papiexIoprof else sums.papiexIoprof
    papiexThreadsyncprof :=
      if !cfg.noThreadsyncProf then sums.papiexThreadsyncprof + thread.papiexThreadsyncprof
      else sums.papiexThreadsyncprof
    maxCaliperEntries := max sums.maxCaliperEntries thread.maxCaliperEntries
    maxCaliperUsed := max sums.maxCaliperUsed thread.maxCaliperUsed }

/-- One turn of the loop over the threads. -/
def addThread (cfg : Config) (sums thread : PerthreadData) : PerthreadData :=
  ((usedCalipers thread).map fun j => (j, thread.data j)).foldl (addCaliper cfg)
    (addWhole cfg sums thread)

/-- `process_data_sums` of a threaded process. -/
def processDataSums (cfg : Config) (threads : List PerthreadData) : PerthreadData :=
  threads.foldl (addThread cfg) { maxCaliperEntries := 0 }

/-! ## What a turn does -/

theorem processDataSums_concat (cfg : Config) (threads : List PerthreadData)
    (thread : PerthreadData) :
    processDataSums cfg (threads ++ [thread]) =
      addThread cfg (processDataSums cfg threads) thread := by
  rw [processDataSums, List.foldl_append]
  rfl

theorem mem_usedCalipers_iff {thread : PerthreadData} {j : ℕ} :
    j ∈ usedCalipers thread ↔
      j < thread.maxCaliperEntries ∧ j ≠ 0 ∧ 0 < (thread.data j).used := by
  simp [usedCalipers]

variable {cfg : Config} {sums thread : PerthreadData} {threads : List PerthreadData} {i j : ℕ}

/-- A caliper is merged into the sums at its own point. -/
theorem addCaliper_data (sums : PerthreadData) (entry : ℕ × CaliperData) (j : ℕ) :
    (addCaliper cfg sums entry).data j =
      if entry.1 = j then mergeCaliper cfg (sums.data j) entry.2 else sums.data j := by
  by_cases h : entry.1 = j
  · rw [if_pos h, ← h, addCaliper, PerthreadData.setCaliper_data_self]
  · rw [if_neg h, addCaliper, PerthreadData.setCaliper_data_of_ne _ _ _ _ (Ne.symm h)]

/-- The turns on other calipers leave a caliper alone. -/
theorem foldl_addCaliper_data (points : List ℕ) (hj : j ∉ points) (sums : PerthreadData) :
    ((points.map fun k => (k, thread.data k)).foldl (addCaliper cfg) sums).data j =
      sums.data j := by
  induction points generalizing sums with
  | nil => rfl
  | cons k points ih =>
      rw [List.mem_cons, not_or] at hj
      rw [List.map_cons, List.foldl_cons, ih hj.2, addCaliper_data, if_neg (Ne.symm hj.1)]

/-- The counts of the whole thread go to point 0 alone. -/
theorem addWhole_data (hj : j ≠ 0) : (addWhole cfg sums thread).data j = sums.data j :=
  PerthreadData.setCaliper_data_of_ne _ _ _ _ hj

/-- The loop over the calipers changes exactly the ones that have been used. -/
theorem addThread_data_eq (j : ℕ) :
    (addThread cfg sums thread).data j =
      if j ∈ usedCalipers thread then
        mergeCaliper cfg ((addWhole cfg sums thread).data j) (thread.data j)
      else (addWhole cfg sums thread).data j := by
  have hnodup : (usedCalipers thread).Nodup := List.nodup_range.filter _
  have hcell : (((usedCalipers thread).map fun j => (j, thread.data j)).foldl (addCaliper cfg)
        (addWhole cfg sums thread)).data j =
      (valuesAt j ((usedCalipers thread).map fun j => (j, thread.data j))).foldl
        (mergeCaliper cfg) ((addWhole cfg sums thread).data j) :=
    cell_foldl (addCaliper cfg) (fun sums j => sums.data j) (mergeCaliper cfg) addCaliper_data _
  rw [addThread]
  refine hcell.trans ?_
  rw [valuesAt_map_of_nodup hnodup fun j => thread.data j]
  split <;> rfl

/-- **A thread changes exactly the calipers that it has used.** -/
theorem addThread_data (hj : j ≠ 0) :
    (addThread cfg sums thread).data j =
      if j ∈ usedCalipers thread then mergeCaliper cfg (sums.data j) (thread.data j)
      else sums.data j := by
  rw [addThread_data_eq, addWhole_data hj]

theorem addThread_data_zero :
    (addThread cfg sums thread).data 0 = (addWhole cfg sums thread).data 0 := by
  rw [addThread_data_eq, if_neg]
  intro hmem
  exact (mem_usedCalipers_iff.mp hmem).2.1 rfl

/-- The records of a caliper in the threads that have used it. -/
def usedRecords (j : ℕ) (threads : List PerthreadData) : List CaliperData :=
  (threads.filter fun thread => decide (j ∈ usedCalipers thread)).map fun thread => thread.data j

/-- **The sum of a caliper** is made of the records of the threads that have used it,
one after the other. -/
theorem processDataSums_data (hj : j ≠ 0) :
    (processDataSums cfg threads).data j =
      (usedRecords j threads).foldl (mergeCaliper cfg) {} := by
  induction threads using List.reverseRecOn with
  | nil => rfl
  | append_singleton threads thread ih =>
      rw [processDataSums_concat, addThread_data hj, ih]
      by_cases hused : j ∈ usedCalipers thread
      · simp [usedRecords, hused]
      · simp [usedRecords, hused]

theorem addThread_counters_zero (hi : i < cfg.eventcnt) :
    ((addThread cfg sums thread).data 0).counters i =
      (sums.data 0).counters i + (thread.data 0).counters i := by
  rw [addThread_data_zero]
  simp [addWhole, addCounters, hi]

/-- The sums have as many points as the thread that has most. -/
theorem addThread_maxCaliperEntries :
    (addThread cfg sums thread).maxCaliperEntries =
      max sums.maxCaliperEntries thread.maxCaliperEntries := by
  have hfold : ∀ (entries : List (ℕ × CaliperData)) (sums : PerthreadData),
      (entries.foldl (addCaliper cfg) sums).maxCaliperEntries = sums.maxCaliperEntries := by
    intro entries
    induction entries with
    | nil => intro sums; rfl
    | cons entry entries ih => intro sums; rw [List.foldl_cons, ih]; rfl
  rw [addThread, hfold]
  rfl

/-- The sum keeps the label of a caliper that comes in, if it has none or the same. -/
theorem matchCaliperLabel_of_agree {label subLabel : Text} (h : label = [] ∨ label = subLabel) :
    matchCaliperLabel label subLabel = some subLabel := by
  unfold matchCaliperLabel
  rcases h with rfl | rfl
  · by_cases hsub : subLabel = [] <;> simp [hsub]
  · by_cases hlabel : label = [] <;> simp [hlabel]

/-- The label of a merged caliper. -/
theorem mergeCaliper_label_of_agree {sums record : CaliperData}
    (h : sums.label = [] ∨ sums.label = record.label) :
    (mergeCaliper cfg sums record).label = record.label := by
  simp only [mergeCaliper, matchCaliperLabel_of_agree h, addProfiling_eq]
  split <;> rfl

/-- Numbers of executions are added if the labels agree, as `float`. -/
theorem mergeCaliper_used_of_agree {sums record : CaliperData}
    (h : sums.label = [] ∨ sums.label = record.label) :
    (mergeCaliper cfg sums record).used = Binary32.round (sums.used + record.used) := by
  simp only [mergeCaliper, matchCaliperLabel_of_agree h, addProfiling_eq]
  split <;> rfl

theorem mergeCaliper_realCyc_of_agree {sums record : CaliperData}
    (h : sums.label = [] ∨ sums.label = record.label) :
    (mergeCaliper cfg sums record).realCyc = sums.realCyc + record.realCyc := by
  simp only [mergeCaliper, matchCaliperLabel_of_agree h, addProfiling_eq]
  split <;> rfl

theorem mergeCaliper_counters_of_agree {sums record : CaliperData}
    (h : sums.label = [] ∨ sums.label = record.label) (hi : i < cfg.eventcnt) :
    (mergeCaliper cfg sums record).counters i = sums.counters i + record.counters i := by
  simp [mergeCaliper, matchCaliperLabel_of_agree h, addCounters, hi]

/-! ## Records under one label -/

section

variable {records : List CaliperData} {label : Text}

/-- The sum of some records of a caliper under one label: everything is there. -/
structure SumOf (cfg : Config) (records : List CaliperData) (sum : CaliperData) : Prop where
  label_eq : ∀ record ∈ records, sum.label = record.label
  used_eq : sum.used = Binary32.sum (records.map CaliperData.used)
  realCyc_eq : sum.realCyc = (records.map CaliperData.realCyc).sum
  counters_eq : ∀ i < cfg.eventcnt,
    sum.counters i = (records.map fun record => record.counters i).sum
  eq_zero_of_nil : records = [] → sum = {}

/-- One more record whose label is that of the others. -/
theorem SumOf.merge {sum record : CaliperData} (h : SumOf cfg records sum)
    (hlabel : ∀ other ∈ records, other.label = record.label) :
    matchCaliperLabel sum.label record.label ≠ none ∧
      SumOf cfg (records ++ [record]) (mergeCaliper cfg sum record) := by
  -- the sum has no label yet, or the one of a record before
  have hmatch : sum.label = [] ∨ sum.label = record.label := by
    rcases records.eq_nil_or_concat with hnil | ⟨front, other, hconcat⟩
    · rw [h.eq_zero_of_nil hnil]
      exact .inl rfl
    · have hother : other ∈ records := by rw [hconcat]; simp
      exact .inr ((h.label_eq other hother).trans (hlabel other hother))
  have hkept := matchCaliperLabel_of_agree hmatch
  refine ⟨by rw [hkept]; exact Option.some_ne_none _, ?_, ?_, ?_, ?_, by simp⟩
  · intro other hother
    rw [mergeCaliper_label_of_agree hmatch]
    rcases List.mem_append.mp hother with hother | hother
    · exact (hlabel other hother).symm
    · rw [List.mem_singleton.mp hother]
  · rw [mergeCaliper_used_of_agree hmatch, h.used_eq]
    simp
  · rw [mergeCaliper_realCyc_of_agree hmatch, h.realCyc_eq]
    simp
  · intro i hi
    rw [mergeCaliper_counters_of_agree hmatch hi, h.counters_eq i hi]
    simp

theorem sumOf_nil : SumOf cfg [] {} where
  label_eq := by simp
  used_eq := rfl
  realCyc_eq := rfl
  counters_eq _ _ := rfl
  eq_zero_of_nil _ := rfl

/-- **Records under one label are all added.** -/
theorem sumOf_foldl (hlabel : ∀ record ∈ records, record.label = label) :
    SumOf cfg records (records.foldl (mergeCaliper cfg) {}) := by
  induction records using List.reverseRecOn with
  | nil => exact sumOf_nil
  | append_singleton records record ih =>
      have hearlier := ih fun other hother => hlabel other (List.mem_append_left _ hother)
      rw [List.foldl_append]
      refine (hearlier.merge fun other hother => ?_).2
      rw [hlabel other (List.mem_append_left _ hother), hlabel record (by simp)]

end

/-! ## The sums over all threads -/

/-- The threads that have used a caliper agree on its label. -/
def LabelsAgree (threads : List PerthreadData) : Prop :=
  ∀ thread ∈ threads, ∀ other ∈ threads, ∀ j ∈ usedCalipers thread, j ∈ usedCalipers other →
    (thread.data j).label = (other.data j).label

/-- The threads that have used caliper `j` agree on its label. -/
def LabelsAgreeAt (j : ℕ) (threads : List PerthreadData) : Prop :=
  ∀ thread ∈ threads, ∀ other ∈ threads, j ∈ usedCalipers thread → j ∈ usedCalipers other →
    (thread.data j).label = (other.data j).label

theorem LabelsAgree.at (h : LabelsAgree threads) (j : ℕ) : LabelsAgreeAt j threads :=
  fun thread hthread other hother => h thread hthread other hother j

/-- The records of the threads that used the caliper. -/
theorem mem_usedRecords {record : CaliperData} :
    record ∈ usedRecords j threads ↔
      ∃ thread ∈ threads, j ∈ usedCalipers thread ∧ thread.data j = record := by
  simp [usedRecords, and_assoc]

/-- Threads that agree have one label for the caliper. -/
theorem LabelsAgreeAt.common_label (h : LabelsAgreeAt j threads) :
    ∃ label, ∀ record ∈ usedRecords j threads, record.label = label := by
  cases hrecords : usedRecords j threads with
  | nil => exact ⟨[], by simp⟩
  | cons first rest =>
      obtain ⟨thread, hthread, hused, rfl⟩ : ∃ thread ∈ threads, j ∈ usedCalipers thread ∧
          thread.data j = first := mem_usedRecords.mp (by rw [hrecords]; exact List.mem_cons_self)
      refine ⟨(thread.data j).label, fun record hrecord => ?_⟩
      rw [← hrecords] at hrecord
      obtain ⟨other, hother, hused', rfl⟩ := mem_usedRecords.mp hrecord
      exact h other hother thread hthread hused' hused

/-- **At a caliper on whose label the threads agree the pass leaves the sum.** -/
theorem sumOf_processDataSums (h : LabelsAgreeAt j threads) (hj : j ≠ 0) :
    SumOf cfg (usedRecords j threads) ((processDataSums cfg threads).data j) := by
  obtain ⟨label, hlabel⟩ := h.common_label
  rw [processDataSums_data hj]
  exact sumOf_foldl hlabel

/-- The count of a caliper, if the thread has used it. -/
def usedCount (i j : ℕ) (thread : PerthreadData) : ℤ :=
  if j ∈ usedCalipers thread then (thread.data j).counters i else 0

/-- The whole run: every thread counts. -/
theorem processDataSums_counters_zero (hi : i < cfg.eventcnt) :
    ((processDataSums cfg threads).data 0).counters i =
      (threads.map fun thread => (thread.data 0).counters i).sum := by
  induction threads using List.reverseRecOn with
  | nil => rfl
  | append_singleton threads thread ih =>
      rw [processDataSums_concat, addThread_counters_zero hi, ih]
      simp

theorem le_processDataSums_maxCaliperEntries (hthread : thread ∈ threads) :
    thread.maxCaliperEntries ≤ (processDataSums cfg threads).maxCaliperEntries := by
  induction threads using List.reverseRecOn with
  | nil => cases hthread
  | append_singleton threads last ih =>
      rw [processDataSums_concat, addThread_maxCaliperEntries]
      rcases List.mem_append.mp hthread with hearlier | hlast
      · exact le_max_of_le_left (ih hearlier)
      · rw [List.mem_singleton.mp hlast]
        exact le_max_right _ _

/-- The sum over the records is one over the threads. -/
theorem sum_usedRecords_counters (i j : ℕ) (threads : List PerthreadData) :
    ((usedRecords j threads).map fun record => record.counters i).sum =
      (threads.map (usedCount i j)).sum := by
  induction threads with
  | nil => rfl
  | cons thread threads ih =>
      rw [List.map_cons, List.sum_cons, ← ih]
      by_cases hused : j ∈ usedCalipers thread
      · simp [usedRecords, usedCount, hused]
      · simp [usedRecords, usedCount, hused]

/-- **Where the labels agree, no thread is left out**: the sum has the label of every
thread that has used the caliper, and the counts of all of them. -/
theorem processDataSums_caliper (hagree : LabelsAgree threads) (hj : j ≠ 0) :
    (∀ thread ∈ threads, j ∈ usedCalipers thread →
        ((processDataSums cfg threads).data j).label = (thread.data j).label) ∧
      ∀ i < cfg.eventcnt, ((processDataSums cfg threads).data j).counters i =
        (threads.map (usedCount i j)).sum := by
  have hsum : SumOf cfg (usedRecords j threads) ((processDataSums cfg threads).data j) :=
    sumOf_processDataSums (hagree.at j) hj
  refine ⟨fun thread hthread hused => ?_, fun i hi => ?_⟩
  · exact hsum.label_eq _ (mem_usedRecords.mpr ⟨thread, hthread, hused, rfl⟩)
  · rw [hsum.counters_eq i hi, sum_usedRecords_counters]

/-! ## Totals under a label -/

/-- What the sums hold of an event under a label: the calipers that carry it, added
up. -/
def classicTotal (sums : PerthreadData) (label : Text) (i : ℕ) : ℤ :=
  ∑ j ∈ (Finset.range sums.maxCaliperEntries).filter
    fun j => j ≠ 0 ∧ printedLabel j (sums.data j) = label, (sums.data j).counters i

/-- What one thread holds of an event under a label. -/
def threadTotal (label : Text) (i : ℕ) (thread : PerthreadData) : ℤ :=
  (((usedCalipers thread).filter fun j => decide (printedLabel j (thread.data j) = label)).map
    fun j => (thread.data j).counters i).sum

/-- What a thread has under a label, as a sum over the points. -/
theorem threadTotal_eq_sum {label : Text} {bound : ℕ} (hbound : thread.maxCaliperEntries ≤ bound) :
    threadTotal label i thread =
      ∑ j ∈ (Finset.range bound).filter fun j => j ≠ 0 ∧ j ∈ usedCalipers thread ∧
        printedLabel j (thread.data j) = label, (thread.data j).counters i := by
  have hnodup : ((usedCalipers thread).filter
      fun j => decide (printedLabel j (thread.data j) = label)).Nodup :=
    (List.nodup_range.filter _).filter _
  rw [threadTotal, ← List.sum_toFinset _ hnodup]
  apply Finset.sum_congr _ fun _ _ => rfl
  ext j
  simp only [List.mem_toFinset, List.mem_filter, decide_eq_true_eq, Finset.mem_filter,
    Finset.mem_range]
  constructor
  · rintro ⟨hused, hlabel⟩
    obtain ⟨hlt, hne, -⟩ := mem_usedCalipers_iff.mp hused
    exact ⟨by omega, hne, hused, hlabel⟩
  · rintro ⟨-, -, hused, hlabel⟩
    exact ⟨hused, hlabel⟩

theorem sum_list_map_comm {α : Type} (s : Finset ℕ) (l : List α) (f : ℕ → α → ℤ) :
    ∑ j ∈ s, (l.map (f j)).sum = (l.map fun x => ∑ j ∈ s, f j x).sum := by
  induction l with
  | nil => simp
  | cons x l ih => simp [Finset.sum_add_distrib, ih]

/-- **Where the labels agree, the sums under a label are the threads' counts under this
label, added up.** -/
theorem classicTotal_eq (hagree : LabelsAgree threads) (label : Text) (hi : i < cfg.eventcnt) :
    classicTotal (processDataSums cfg threads) label i =
      (threads.map (threadTotal label i)).sum := by
  have hcounters : ∀ j ∈ (Finset.range (processDataSums cfg threads).maxCaliperEntries).filter
      (fun j => j ≠ 0 ∧ printedLabel j ((processDataSums cfg threads).data j) = label),
      ((processDataSums cfg threads).data j).counters i =
        (threads.map (usedCount i j)).sum := by
    intro j hj
    exact (processDataSums_caliper hagree (Finset.mem_filter.mp hj).2.1).2 i hi
  rw [classicTotal, Finset.sum_congr rfl hcounters, sum_list_map_comm]
  congr 1
  apply List.map_congr_left
  intro thread hthread
  have hbound : thread.maxCaliperEntries ≤ (processDataSums cfg threads).maxCaliperEntries :=
    le_processDataSums_maxCaliperEntries hthread
  rw [threadTotal_eq_sum hbound]
  simp only [usedCount]
  rw [← Finset.sum_filter, Finset.filter_filter]
  apply Finset.sum_congr _ fun _ _ => rfl
  apply Finset.filter_congr
  intro j _
  constructor
  · rintro ⟨⟨hj, hlabel⟩, hused⟩
    refine ⟨hj, hused, ?_⟩
    rwa [printedLabel, ← (processDataSums_caliper hagree hj).1 thread hthread hused]
  · rintro ⟨hj, hused, hlabel⟩
    refine ⟨⟨hj, ?_⟩, hused⟩
    rwa [printedLabel, (processDataSums_caliper hagree hj).1 thread hthread hused]

end Papiex
