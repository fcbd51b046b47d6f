import Mathlib.Data.List.Perm.Basic
import Papiex.Caliper.Api
import Papiex.Classic.Sums

/-!
# Sums that lose nothing, in any order

The threads of a process are added up in the order in which they have registered.  The
sum of a caliper takes the label of the first record that comes in, and leaves the
records out whose label is another.  Where the threads agree on the label nothing is
left out, and what was added up does not depend on the order.

The number of uses is a `float`, and each addition is rounded.

## Main results

* `process_sums_complete`: where the labels agree nothing is lost.
* `process_sums_perm`: where they agree the order of the threads does not matter.

## Design notes

That nothing is lost is said of the records that come in (`SumOf`, `WholeSumOf`), and their
order has no part in it.  That the order does not matter is a fact about folds, used for a
record without its number of uses; these agree where their sum fits into a `float`.
-/

namespace Papiex

open KeyedFold

variable {cfg : Config} {threads : List PerthreadData} {records : List CaliperData}
variable {label : Text} {i j : ℕ}

/-! ## The whole run -/

/-- What a thread adds to the record of the whole run. -/
def addRecord (cfg : Config) (sums record : CaliperData) : CaliperData :=
  { addProfiling cfg
      { sums with
        used := Binary32.round (sums.used + record.used)
        realUsec := sums.realUsec + record.realUsec
        realCyc := sums.realCyc + record.realCyc
        virtUsec := sums.virtUsec + record.virtUsec
        virtCyc := sums.virtCyc + record.virtCyc } record with
    counters := addCounters cfg sums.counters record.counters }

/-- The sum of the whole run is made of the records of all threads. -/
theorem processDataSums_data_zero :
    (processDataSums cfg threads).data 0 =
      (threads.map fun thread => thread.data 0).foldl (addRecord cfg) {} := by
  induction threads using List.reverseRecOn with
  | nil => rfl
  | append_singleton threads thread ih =>
      rw [processDataSums_concat, addThread_data_zero, List.map_append, List.foldl_append, ← ih]
      simp [addWhole, addRecord]

/-- The sum of the records of the whole runs: everything is there. -/
structure WholeSumOf (cfg : Config) (records : List CaliperData) (sum : CaliperData) : Prop where
  used_eq : sum.used = Binary32.sum (records.map CaliperData.used)
  realUsec_eq : sum.realUsec = (records.map CaliperData.realUsec).sum
  realCyc_eq : sum.realCyc = (records.map CaliperData.realCyc).sum
  virtUsec_eq : sum.virtUsec = (records.map CaliperData.virtUsec).sum
  virtCyc_eq : sum.virtCyc = (records.map CaliperData.virtCyc).sum
  counters_eq : ∀ i < cfg.eventcnt,
    sum.counters i = (records.map fun record => record.counters i).sum

/-- The numbers of executions are added up as `float`. -/
theorem foldl_addRecord_used (records : List CaliperData) :
    (records.foldl (addRecord cfg) {}).used =
      Binary32.sum (records.map CaliperData.used) := by
  induction records using List.reverseRecOn with
  | nil => rfl
  | append_singleton records record ih =>
      rw [List.foldl_concat, List.map_append, List.map_singleton, Binary32.sum_concat, ← ih]
      simp only [addRecord, addProfiling_eq]

/-- The pass leaves the sums of the counters and of the cycles. -/
theorem wholeSumOf_foldl (records : List CaliperData) :
    WholeSumOf cfg records (records.foldl (addRecord cfg) {}) := by
  have hsum : ∀ measure : CaliperData → ℤ, measure {} = 0 →
      (∀ sums record, measure (addRecord cfg sums record) = measure sums + measure record) →
      measure (records.foldl (addRecord cfg) {}) = (records.map measure).sum := by
    intro measure hzero hstep
    rw [measure_foldl (addRecord cfg) measure measure hstep, hzero, zero_add]
  refine ⟨foldl_addRecord_used records, hsum _ rfl ?_, hsum _ rfl ?_, hsum _ rfl ?_,
    hsum _ rfl ?_, ?_⟩
  · intro sums record
    rw [addRecord, addProfiling_eq]
  · intro sums record
    rw [addRecord, addProfiling_eq]
  · intro sums record
    rw [addRecord, addProfiling_eq]
  · intro sums record
    rw [addRecord, addProfiling_eq]
  · intro i hi
    exact hsum (fun record => record.counters i) rfl fun sums record => by
      simp [addRecord, addCounters, hi]

/-! ## Nothing is lost -/

/-- The uses are whole numbers with a sum that a `float` holds exactly. -/
structure WholeUses (records : List CaliperData) : Prop where
  whole : ∀ record ∈ records, ∃ n : ℕ, record.used = n
  sum_le : (records.map CaliperData.used).sum ≤ 2 ^ 24

theorem WholeUses.sum_eq (h : WholeUses records) :
    Binary32.sum (records.map CaliperData.used) = (records.map CaliperData.used).sum := by
  have hnats : records.map CaliperData.used =
      (records.map fun record => ⌊record.used⌋₊).map fun n : ℕ => (n : ℚ) := by
    rw [List.map_map]
    apply List.map_congr_left
    intro record hrecord
    obtain ⟨n, hn⟩ := h.whole record hrecord
    simp [hn]
  have hsum := h.sum_le
  rw [hnats, ← Nat.cast_list_sum] at hsum
  rw [hnats, Binary32.sum_natCast (by exact_mod_cast hsum), Nat.cast_list_sum]

theorem WholeUses.perm {records' : List CaliperData} (h : WholeUses records)
    (hperm : records.Perm records') : WholeUses records' where
  whole record hrecord := h.whole record (hperm.mem_iff.mpr hrecord)
  sum_le := by rw [← (hperm.map _).sum_eq]; exact h.sum_le

/-- The sums when the loop comes to a caliper of a thread: the threads before it, its
whole run, and the calipers before this one have been added. -/
def sumsBefore (cfg : Config) (front : List PerthreadData) (thread : PerthreadData)
    (earlier : List ℕ) : PerthreadData :=
  (earlier.map fun k => (k, thread.data k)).foldl (addCaliper cfg)
    (addWhole cfg (processDataSums cfg front) thread)

/-- **The process sums lose nothing where the labels agree.**  The record of the whole
run is the sum over all threads; the record of a caliper is the sum over the threads
that have used it, under their label, and is all zero if there is none; and no thread
is skipped for its label.  The uses are added up in `float`, and exactly as long as a
`float` holds the sum. -/
theorem process_sums_complete (cfg : Config) (threads : List PerthreadData)
    (hagree : LabelsAgree threads) :
    WholeSumOf cfg (threads.map fun thread => thread.data 0)
        ((processDataSums cfg threads).data 0) ∧
      (WholeUses (threads.map fun thread => thread.data 0) →
        ((processDataSums cfg threads).data 0).used =
          (threads.map fun thread => (thread.data 0).used).sum) ∧
      (∀ j, 1 ≤ j →
        SumOf cfg (usedRecords j threads) ((processDataSums cfg threads).data j) ∧
        (WholeUses (usedRecords j threads) →
          ((processDataSums cfg threads).data j).used =
            ((usedRecords j threads).map CaliperData.used).sum)) ∧
      ∀ front thread rest earlier j later, threads = front ++ thread :: rest →
        usedCalipers thread = earlier ++ j :: later →
        matchCaliperLabel ((sumsBefore cfg front thread earlier).data j).label
          (thread.data j).label ≠ none := by
  have hwhole : WholeSumOf cfg (threads.map fun thread => thread.data 0)
      ((processDataSums cfg threads).data 0) := by
    rw [processDataSums_data_zero]
    exact wholeSumOf_foldl _
  refine ⟨hwhole, fun huses => ?_, fun j hj => ?_, ?_⟩
  · rw [hwhole.used_eq, huses.sum_eq, List.map_map]
    rfl
  · have hsum : SumOf cfg (usedRecords j threads) ((processDataSums cfg threads).data j) :=
      sumOf_processDataSums (hagree.at j) (Nat.one_le_iff_ne_zero.mp hj)
    exact ⟨hsum, fun huses => hsum.used_eq.trans huses.sum_eq⟩
  · rintro front thread rest earlier j later rfl hsplit
    have hused : j ∈ usedCalipers thread := by rw [hsplit]; simp
    have hj : j ≠ 0 := (mem_usedCalipers_iff.mp hused).2.1
    have hnodup : (earlier ++ j :: later).Nodup := hsplit ▸ List.nodup_range.filter _
    have hearlier : j ∉ earlier := fun hmem =>
      List.disjoint_of_nodup_append hnodup hmem List.mem_cons_self
    have hagreeAt : LabelsAgreeAt j front := fun one hone other hother =>
      hagree.at j one (List.mem_append_left _ hone) other (List.mem_append_left _ hother)
    rw [sumsBefore, foldl_addCaliper_data earlier hearlier, addWhole_data hj]
    refine ((sumOf_processDataSums hagreeAt hj).merge fun other hother => ?_).1
    obtain ⟨one, hone, hused', rfl⟩ := mem_usedRecords.mp hother
    exact hagree.at j one (List.mem_append_left _ hone) thread (by simp) hused' hused

/-- A thread that has used caliper 1 under a label. -/
def threadWith (label : Text) (used : ℚ) (count : ℤ) : PerthreadData where
  data := fun point =>
    if point = 1 then { label, used, realCyc := 10, counters := fun _ => count } else {}

/-- Two threads with one label. -/
theorem process_sums_complete_two :
    LabelsAgree [threadWith ['a'] 1 700, threadWith ['a'] 2 50] ∧
      ((processDataSums plainSettings
        [threadWith ['a'] 1 700, threadWith ['a'] 2 50]).data 1).realCyc = 10 + 10 := by
  have hagree : LabelsAgree [threadWith ['a'] 1 700, threadWith ['a'] 2 50] := by
    unfold LabelsAgree
    decide +kernel
  have hrecords : (usedRecords 1 [threadWith ['a'] 1 700, threadWith ['a'] 2 50]).map
      CaliperData.realCyc = [10, 10] := by
    decide +kernel
  obtain ⟨-, -, hsums, -⟩ := process_sums_complete plainSettings _ hagree
  refine ⟨hagree, ?_⟩
  rw [(hsums 1 le_rfl).1.realCyc_eq, hrecords]
  rfl

/-- Two threads under one label whose uses a `float` cannot add up. -/
theorem process_sums_used_rounded :
    LabelsAgree [threadWith [] (2 ^ 24) 0, threadWith [] 1 0] ∧
      ((processDataSums plainSettings [threadWith [] (2 ^ 24) 0, threadWith [] 1 0]).data 1).used ≠
        ((usedRecords 1 [threadWith [] (2 ^ 24) 0, threadWith [] 1 0]).map
          CaliperData.used).sum := by
  constructor
  · unfold LabelsAgree
    decide +kernel
  · decide +kernel

/-! ## Any order -/

/-- A record but for its number of uses. -/
def CaliperData.withoutUsed (record : CaliperData) : CaliperData := { record with used := 0 }

/-- Records that differ in the number of executions alone. -/
theorem withoutUsed_eq_iff {record record' : CaliperData} :
    record.withoutUsed = record'.withoutUsed ↔
      record = { record' with used := record.used } := by
  cases record
  cases record'
  simp [CaliperData.withoutUsed]

/-- `mergeCaliper` once the label of the sum is settled. -/
def mergeAs (cfg : Config) (label : Text) (sums record : CaliperData) : CaliperData :=
  mergeCaliper cfg { sums with label } { record with label }

/-- With labels that agree the merge is that of the common label. -/
theorem mergeCaliper_eq_mergeAs {sums record : CaliperData}
    (h : sums.label = [] ∨ sums.label = record.label) :
    mergeCaliper cfg sums record = mergeAs cfg record.label sums record := by
  have hself := matchCaliperLabel_of_agree
    (.inr rfl : record.label = [] ∨ record.label = record.label)
  simp only [mergeAs, mergeCaliper, matchCaliperLabel_of_agree h, hself, addProfiling]

theorem mergeAs_label {sums record : CaliperData} :
    (mergeAs cfg label sums record).label = label :=
  mergeCaliper_label_of_agree (.inr rfl)

/-- Records under one label are all merged under it. -/
theorem foldl_mergeCaliper_eq (hlabel : ∀ record ∈ records, record.label = label)
    {sums : CaliperData} (hsums : sums.label = [] ∨ sums.label = label) :
    records.foldl (mergeCaliper cfg) sums = records.foldl (mergeAs cfg label) sums := by
  induction records generalizing sums with
  | nil => rfl
  | cons record records ih =>
      rw [List.forall_mem_cons] at hlabel
      obtain ⟨rfl, hrest⟩ := hlabel
      rw [List.foldl_cons, List.foldl_cons, mergeCaliper_eq_mergeAs hsums]
      exact ih hrest (.inr mergeAs_label)

theorem addCounters_comm (sums counters counters' : ℕ → ℤ) :
    addCounters cfg (addCounters cfg sums counters) counters' =
      addCounters cfg (addCounters cfg sums counters') counters := by
  funext k
  unfold addCounters
  split
  · exact add_right_comm _ _ _
  · rfl

/-- Two records under the same label may change places. -/
theorem mergeAs_comm (sums record record' : CaliperData) :
    (mergeAs cfg label (mergeAs cfg label sums record) record').withoutUsed =
      (mergeAs cfg label (mergeAs cfg label sums record') record).withoutUsed := by
  have hself := matchCaliperLabel_of_agree (.inr rfl : label = [] ∨ label = label)
  simp only [mergeAs, mergeCaliper, hself, addProfiling_eq, CaliperData.withoutUsed]
  split <;> simp [add_right_comm, addCounters_comm]

/-- Two records may be added in either order, but for the number of executions. -/
theorem addRecord_comm (sums record record' : CaliperData) :
    (addRecord cfg (addRecord cfg sums record) record').withoutUsed =
      (addRecord cfg (addRecord cfg sums record') record).withoutUsed := by
  simp only [addRecord, addProfiling_eq, CaliperData.withoutUsed]
  simp [add_right_comm, addCounters_comm]

/-- What a merge or an addition makes of a record but for its uses is determined by the
record but for its uses. -/
theorem mergeAs_withoutUsed {sums sums' : CaliperData} (h : sums.withoutUsed = sums'.withoutUsed)
    (record : CaliperData) :
    (mergeAs cfg label sums record).withoutUsed = (mergeAs cfg label sums' record).withoutUsed := by
  have hself := matchCaliperLabel_of_agree (.inr rfl : label = [] ∨ label = label)
  rw [withoutUsed_eq_iff] at h
  rw [h]
  simp only [mergeAs, mergeCaliper, hself, addProfiling_eq, CaliperData.withoutUsed]
  split <;> rfl

/-- The number of executions does not go into anything else. -/
theorem addRecord_withoutUsed {sums sums' : CaliperData}
    (h : sums.withoutUsed = sums'.withoutUsed) (record : CaliperData) :
    (addRecord cfg sums record).withoutUsed = (addRecord cfg sums' record).withoutUsed := by
  rw [withoutUsed_eq_iff] at h
  rw [h]
  simp only [addRecord, addProfiling_eq, CaliperData.withoutUsed]

/-- The uses of some records in another order. -/
theorem WholeUses.sum_perm {records' : List CaliperData} (h : WholeUses records)
    (hperm : records.Perm records') :
    Binary32.sum (records.map CaliperData.used) =
      Binary32.sum (records'.map CaliperData.used) := by
  rw [h.sum_eq, (h.perm hperm).sum_eq, (hperm.map _).sum_eq]

theorem usedRecords_perm {threads' : List PerthreadData} (hperm : threads.Perm threads') (j : ℕ) :
    (usedRecords j threads).Perm (usedRecords j threads') :=
  (hperm.filter _).map _

theorem LabelsAgreeAt.perm {threads' : List PerthreadData} (h : LabelsAgreeAt j threads)
    (hperm : threads.Perm threads') : LabelsAgreeAt j threads' :=
  fun thread hthread other hother =>
    h thread (hperm.mem_iff.mpr hthread) other (hperm.mem_iff.mpr hother)

/-- **The process sums do not depend on the order in which the threads have
registered**, where the threads agree on the labels.  The record of the whole run is
the same in any order but for its uses, and so is that of every caliper on whose label
the threads that have used it agree; and the uses are the same where a `float` adds
them up exactly. -/
theorem process_sums_perm (cfg : Config) (threads threads' : List PerthreadData)
    (hperm : threads.Perm threads') :
    ((processDataSums cfg threads).data 0).withoutUsed =
        ((processDataSums cfg threads').data 0).withoutUsed ∧
      (WholeUses (threads.map fun thread => thread.data 0) →
        ((processDataSums cfg threads).data 0).used =
          ((processDataSums cfg threads').data 0).used) ∧
      ∀ j, 1 ≤ j → LabelsAgreeAt j threads →
        ((processDataSums cfg threads).data j).withoutUsed =
            ((processDataSums cfg threads').data j).withoutUsed ∧
          (WholeUses (usedRecords j threads) →
            ((processDataSums cfg threads).data j).used =
              ((processDataSums cfg threads').data j).used) := by
  refine ⟨?_, fun huses => ?_, fun j hj hagree => ⟨?_, fun huses => ?_⟩⟩
  · rw [processDataSums_data_zero, processDataSums_data_zero]
    exact view_foldl_perm (addRecord cfg) CaliperData.withoutUsed
      (fun _ _ record hsame => addRecord_withoutUsed hsame record) addRecord_comm
      (hperm.map _) {}
  · rw [processDataSums_data_zero, processDataSums_data_zero, foldl_addRecord_used,
      foldl_addRecord_used]
    exact huses.sum_perm (hperm.map _)
  · obtain ⟨label, hlabel⟩ := hagree.common_label
    have hrecords := usedRecords_perm hperm j
    have hlabel' : ∀ record ∈ usedRecords j threads', record.label = label :=
      fun record hrecord => hlabel record (hrecords.mem_iff.mpr hrecord)
    have hne : j ≠ 0 := Nat.one_le_iff_ne_zero.mp hj
    rw [processDataSums_data hne, processDataSums_data hne,
      foldl_mergeCaliper_eq hlabel (.inl rfl), foldl_mergeCaliper_eq hlabel' (.inl rfl)]
    exact view_foldl_perm (mergeAs cfg label) CaliperData.withoutUsed
      (fun _ _ record hsame => mergeAs_withoutUsed hsame record) mergeAs_comm hrecords {}
  · have hne : j ≠ 0 := Nat.one_le_iff_ne_zero.mp hj
    rw [(sumOf_processDataSums hagree hne).used_eq,
      (sumOf_processDataSums (hagree.perm hperm) hne).used_eq]
    exact huses.sum_perm (usedRecords_perm hperm j)

/-- Two threads in both orders. -/
theorem process_sums_perm_two :
    ((processDataSums plainSettings
        [threadWith ['a'] 1 700, threadWith ['a'] 2 50]).data 1).withoutUsed =
      ((processDataSums plainSettings
        [threadWith ['a'] 2 50, threadWith ['a'] 1 700]).data 1).withoutUsed := by
  have hagree : LabelsAgreeAt 1 [threadWith ['a'] 1 700, threadWith ['a'] 2 50] := by
    unfold LabelsAgreeAt
    decide +kernel
  obtain ⟨-, -, hcalipers⟩ := process_sums_perm plainSettings _ _
    (List.Perm.swap (threadWith ['a'] 2 50) (threadWith ['a'] 1 700) [])
  exact (hcalipers 1 le_rfl hagree).1

/-- **The order matters** for threads that label a caliper differently, where the second
one is left out; and, under one label, for uses that a `float` cannot add up. -/
theorem process_sums_order_matters :
    (∃ threads threads' : List PerthreadData, threads.Perm threads' ∧
      ((processDataSums (plainSettings.withDefaultEvents true true) threads).data 1).counters 0 ≠
        ((processDataSums (plainSettings.withDefaultEvents true true) threads').data 1).counters
          0) ∧
    ∃ threads threads' : List PerthreadData, threads.Perm threads' ∧ LabelsAgree threads ∧
      ((processDataSums plainSettings threads).data 1).used ≠
        ((processDataSums plainSettings threads').data 1).used := by
  constructor
  · refine ⟨[threadWith ['a'] 1 700, threadWith ['b'] 1 50],
      [threadWith ['b'] 1 50, threadWith ['a'] 1 700], List.Perm.swap _ _ _, ?_⟩
    decide +kernel
  · refine ⟨[threadWith [] 1 0, threadWith [] 1 0, threadWith [] (2 ^ 24) 0],
      [threadWith [] 1 0, threadWith [] (2 ^ 24) 0, threadWith [] 1 0],
      (List.Perm.swap _ _ _).cons _, ?_, ?_⟩
    · unfold LabelsAgree
      decide +kernel
    · decide +kernel

end Papiex
