import Mathlib.Data.List.FinRange
import Papiex.Classic.Sums
import Papiex.Report.ProcessFiles

/-!
# Classic and nextgen totals

A threaded process can be reported in two ways: classic mode adds the records of its
threads up in memory, caliper by caliper; nextgen mode writes a count file for every
thread, and the report adds up what it reads, label by label.  Where the threads agree
on the labels of the calipers, both come to the same totals.

## Main results

* `processTotals_label_of_carries`: what the report has under a label.
* `modes_agree`: it is what classic mode prints.

## Design notes

Both modes are folds over the same records, one by caliper and the other by the field in a
file.  They are compared at a label, over the calipers that carry it in any thread.  Where the
threads agree on the label of each caliper, nothing of these is left out of the sums.
-/

namespace Papiex

open Chars Report KeyedFold LastWrite

/-- **A threaded process when it ends**: the records of its threads, which can all be
read back, what the headers of its files say, and the order in which the report reads
them. -/
structure ThreadedProcess where
  info : ExecutableInfo
  rank : Option ℕ
  settings : PrintSettings
  threads : List PerthreadData
  startTime : Fin threads.length → Text
  finishTime : Fin threads.length → Text
  reading : List (Fin threads.length)
  threads_ne_nil : threads ≠ []
  header : ∀ i : Fin threads.length,
    ∀ line ∈ headerLines info rank (some i) (startTime i) (finishTime i),
      ∀ more ∈ (linesOf line).tail, KeepsCounts more
  events : settings.cfg.EventsNamed
  readable : ∀ thread ∈ threads, Readable settings.cfg thread
  reading_perm : reading.Perm (List.finRange threads.length)

namespace ThreadedProcess

variable (process : ThreadedProcess)

/-- The count file of a thread. -/
def fileOf (i : Fin process.threads.length) : CountFile where
  info := process.info
  rank := process.rank
  tid := some i
  start := process.startTime i
  finish := process.finishTime i
  settings := process.settings
  thread := process.threads.get i

/-- The count files, in the order they are read. -/
def files : List CountFile := process.reading.map process.fileOf

/-- The process id. -/
def pid : Text := decimal process.info.pid

/-- The entry of the process after its files. -/
def entry : ProcessData := entryOf process.files process.pid {}

/-- `process_data_sums` of classic mode. -/
def sums : PerthreadData := processDataSums process.settings.cfg process.threads

/-- Some thread has used a caliper under this label. -/
def Carries (label : Text) : Prop :=
  ∃ thread ∈ process.threads, ∃ j ∈ usedCalipers thread,
    printedLabel j (thread.data j) = label

/-- The totals of the report are the sums of classic mode. -/
structure AgreesWith (totals : Totals) : Prop where
  whole : ∀ i (hi : i < process.settings.cfg.eventcnt),
    totals.counts.lookup (process.settings.cfg.eventnames.get ⟨i, hi⟩) =
      some ((process.sums.data 0).counters i : ℚ)
  label : ∀ i (hi : i < process.settings.cfg.eventcnt), ∀ label, process.Carries label →
    totals.counts.lookup (caliperField label (process.settings.cfg.eventnames.get ⟨i, hi⟩)) =
      some (classicTotal process.sums label i : ℚ)
  noLabel : ∀ i (hi : i < process.settings.cfg.eventcnt), ∀ label, ¬ process.Carries label →
    totals.counts.lookup (caliperField label (process.settings.cfg.eventnames.get ⟨i, hi⟩)) =
      none

/-! ## What the report reads -/

variable {process}

theorem readsBack_fileOf (i : Fin process.threads.length) : (process.fileOf i).ReadsBack where
  header := process.header i
  events := process.events
  readable := process.readable _ (List.get_mem _ _)

/-- Every file of the process can be read back, and is of a thread. -/
theorem readsBack_of_mem_files {file : CountFile} (h : file ∈ process.files) :
    file.ReadsBack ∧ file.tid ≠ none := by
  obtain ⟨i, -, rfl⟩ := List.mem_map.mp h
  exact ⟨readsBack_fileOf i, by simp [fileOf]⟩

/-- The entry holds all the files. -/
theorem entry_eq : process.entry = applyFiles process.files {} := by
  have hall : ∀ file ∈ process.files, decide (file.pid = process.pid) = true := by
    intro file hfile
    obtain ⟨i, -, rfl⟩ := List.mem_map.mp hfile
    exact decide_eq_true rfl
  rw [entry, entryOf, List.filter_eq_self.mpr hall]

/-- The files are of different threads. -/
theorem nodup_map_tid_files : (process.files.map CountFile.tid).Nodup := by
  rw [files, List.map_map]
  refine List.Nodup.map ?_ (process.reading_perm.nodup_iff.mpr (List.nodup_finRange _))
  exact fun i k heq => Fin.ext (Option.some.inj heq)

/-- **The total of the process is the sum of what the threads' files record.** -/
theorem processTotals_entry (order : KeyOrder) {field : Text}
    (hfield : field ≠ "Wallclock usecs".toList) :
    (processTotals order process.entry).counts.lookup field =
      sum? ((List.finRange process.threads.length).filterMap fun i =>
        recorded process.settings (process.threads.get i) (some (decimal i.val)) field) := by
  rw [entry_eq, processTotals_threadFiles order (fun file hfile => (readsBack_of_mem_files hfile).1)
    nodup_map_tid_files (fun file hfile => (readsBack_of_mem_files hfile).2) hfield, files,
    List.filterMap_map]
  exact sum?_perm (process.reading_perm.filterMap _)

/-! ## What a file records of an event -/

/-- A counter is printed under the name of its event. -/
theorem mem_eventCounts (cfg : Config) (record : CaliperData) {i : ℕ} (hi : i < cfg.eventcnt) :
    (cfg.eventnames.get ⟨i, hi⟩, record.counters i) ∈ eventCounts cfg record :=
  List.mem_mapIdx.mpr ⟨i, hi, rfl⟩

/-- A list without repetitions that has one value only. -/
theorem eq_singleton_of_forall_eq {α : Type} {l : List α} {x : α} (hnodup : l.Nodup) (hx : x ∈ l)
    (h : ∀ y ∈ l, y = x) : l = [x] := by
  have hreplicate : l = List.replicate l.length x := List.eq_replicate_iff.mpr ⟨rfl, h⟩
  have hlength : l.length ≤ 1 := by
    rw [hreplicate] at hnodup
    exact List.nodup_replicate.mp hnodup
  have hpos := List.length_pos_of_mem hx
  rw [hreplicate, show l.length = 1 by omega]
  rfl

variable {settings : PrintSettings} {thread : PerthreadData} {tid : Option Text}

/-- A readable record has at most one caliper under a label. -/
theorem threadTotal_eq (hread : Readable settings.cfg thread) {j : ℕ}
    (hj : j ∈ usedCalipers thread) (i : ℕ) :
    threadTotal (printedLabel j (thread.data j)) i thread = (thread.data j).counters i := by
  have hone : ((usedCalipers thread).filter fun k =>
      decide (printedLabel k (thread.data k) = printedLabel j (thread.data j))) = [j] := by
    apply eq_singleton_of_forall_eq (usedCalipers_nodup.filter _)
    · rw [List.mem_filter]
      exact ⟨hj, by simp⟩
    · intro k hk
      obtain ⟨hused, hlabel⟩ := List.mem_filter.mp hk
      exact List.inj_on_of_nodup_map hread.labelsDistinct hused hj (of_decide_eq_true hlabel)
  rw [threadTotal, hone]
  simp

/-- A thread without the label adds nothing to it. -/
theorem threadTotal_eq_zero {label : Text}
    (h : ¬ ∃ j ∈ usedCalipers thread, printedLabel j (thread.data j) = label) (i : ℕ) :
    threadTotal label i thread = 0 := by
  have hnone : ((usedCalipers thread).filter fun k =>
      decide (printedLabel k (thread.data k) = label)) = [] := by
    rw [List.filter_eq_nil_iff]
    intro k hk heq
    exact h ⟨k, hk, of_decide_eq_true heq⟩
  rw [threadTotal, hnone]
  rfl

theorem recorded_event (hevents : settings.cfg.EventsNamed)
    (hread : Readable settings.cfg thread) {i : ℕ} (hi : i < settings.cfg.eventcnt) :
    recorded settings thread tid (settings.cfg.eventnames.get ⟨i, hi⟩) =
      some ((thread.data 0).counters i : ℚ) := by
  have hmem := mem_eventCounts settings.cfg (thread.data 0) hi
  exact recorded_whole hevents hread (List.mem_append_right _ hmem) (hread.counts _ hmem)

/-- **A file records an event under a label exactly if the thread has used a caliper
with this label.** -/
theorem recorded_label (hevents : settings.cfg.EventsNamed)
    (hread : Readable settings.cfg thread) {i : ℕ} (hi : i < settings.cfg.eventcnt)
    (label : Text) :
    recorded settings thread tid (caliperField label (settings.cfg.eventnames.get ⟨i, hi⟩)) =
      if ∃ j ∈ usedCalipers thread, printedLabel j (thread.data j) = label then
        some (threadTotal label i thread : ℚ)
      else none := by
  have hname : ¬ "] ".toList <:+: settings.cfg.eventnames.get ⟨i, hi⟩ :=
    (hevents.word _ (List.get_mem _ _)).quantity.unclosed
  split
  · rename_i hcarries
    obtain ⟨j, hj, rfl⟩ := hcarries
    have hmem := mem_eventCounts settings.cfg (thread.data j) hi
    rw [threadTotal_eq hread hj]
    exact recorded_caliper hevents hread hj (List.mem_append_right _ hmem)
      (hread.caliperCounts j hj _ hmem)
  · rename_i hnot
    rw [Option.eq_none_iff_forall_ne_some]
    intro val hrecorded
    -- what else is printed for the thread has another field
    rcases origin_caliperField hevents (origin_of_recorded hevents hrecorded) rfl with
      ⟨j, hj, count, hcount, -, -, hfield, -⟩ | ⟨j, hj, hprocess, -⟩
    · have hlabel := (caliperField_inj hname
        (quantity_of_mem_caliperCounts hevents hcount).unclosed hfield).1
      exact hnot ⟨j, hj, hlabel.symm⟩
    · exact hread.process j hj hprocess

/-! ## The two totals -/

variable {process : ThreadedProcess} (order : KeyOrder)

/-- No event is named like the wall clock time. -/
theorem fieldWallclock_ne_event (hevents : settings.cfg.EventsNamed) {i : ℕ}
    (hi : i < settings.cfg.eventcnt) :
    settings.cfg.eventnames.get ⟨i, hi⟩ ≠ "Wallclock usecs".toList := by
  intro heq
  have hblank := (hevents.word _ (List.get_mem settings.cfg.eventnames ⟨i, hi⟩)).not_mem_blank
  rw [heq] at hblank
  exact hblank (by decide)

/-- The whole run: the report adds up all the threads. -/
theorem processTotals_event {i : ℕ} (hi : i < process.settings.cfg.eventcnt) :
    (processTotals order process.entry).counts.lookup
        (process.settings.cfg.eventnames.get ⟨i, hi⟩) =
      some ((process.threads.map fun thread => ((thread.data 0).counters i : ℚ)).sum) := by
  rw [processTotals_entry order (fieldWallclock_ne_event process.events hi)]
  have hvals : ((List.finRange process.threads.length).filterMap fun k =>
      recorded process.settings (process.threads.get k) (some (decimal k.val))
        (process.settings.cfg.eventnames.get ⟨i, hi⟩)) =
      process.threads.map fun thread => ((thread.data 0).counters i : ℚ) := by
    have hsome : ∀ k ∈ List.finRange process.threads.length,
        recorded process.settings (process.threads.get k) (some (decimal k.val))
          (process.settings.cfg.eventnames.get ⟨i, hi⟩) =
        some ((((process.threads.get k).data 0).counters i : ℤ) : ℚ) := fun k _ =>
      recorded_event process.events (process.readable _ (List.get_mem _ _)) hi
    rw [List.filterMap_congr hsome, List.filterMap_eq_map']
    conv_rhs => rw [← List.map_get_finRange process.threads]
    rw [List.map_map]
    rfl
  rw [hvals, sum?, if_neg]
  simpa using process.threads_ne_nil

open Classical in
/-- **Under a label the report adds up the threads that have used a caliper with this
label**, whatever its index is. -/
theorem processTotals_label {i : ℕ} (hi : i < process.settings.cfg.eventcnt) (label : Text) :
    (processTotals order process.entry).counts.lookup
        (caliperField label (process.settings.cfg.eventnames.get ⟨i, hi⟩)) =
      if process.Carries label then
        some ((process.threads.map fun thread => (threadTotal label i thread : ℚ)).sum)
      else none := by
  have hfield : caliperField label (process.settings.cfg.eventnames.get ⟨i, hi⟩) ≠
      "Wallclock usecs".toList := by
    intro heq
    have hhead := congrArg List.head? heq
    exact absurd hhead (by simp [caliperField])
  have hrecorded : ∀ k ∈ List.finRange process.threads.length,
      recorded process.settings (process.threads.get k) (some (decimal k.val))
        (caliperField label (process.settings.cfg.eventnames.get ⟨i, hi⟩)) =
      if ∃ j ∈ usedCalipers (process.threads.get k),
          printedLabel j ((process.threads.get k).data j) = label then
        some (threadTotal label i (process.threads.get k) : ℚ)
      else none := fun k _ =>
    recorded_label process.events (process.readable _ (List.get_mem _ _)) hi label
  -- a thread without the label would add 0
  have hzero : ∀ k ∈ List.finRange process.threads.length,
      (¬ ∃ j ∈ usedCalipers (process.threads.get k),
        printedLabel j ((process.threads.get k).data j) = label) →
      (threadTotal label i (process.threads.get k) : ℚ) = 0 := by
    intro k _ hnot
    rw [threadTotal_eq_zero hnot, Int.cast_zero]
  have hcarries : (∃ k ∈ List.finRange process.threads.length,
      ∃ j ∈ usedCalipers (process.threads.get k),
        printedLabel j ((process.threads.get k).data j) = label) ↔ process.Carries label := by
    constructor
    · rintro ⟨k, -, hk⟩
      exact ⟨_, List.get_mem _ _, hk⟩
    · rintro ⟨thread, hthread, hk⟩
      obtain ⟨k, rfl⟩ := List.get_of_mem hthread
      exact ⟨k, List.mem_finRange k, hk⟩
  have hmap : (List.finRange process.threads.length).map
      (fun k => (threadTotal label i (process.threads.get k) : ℚ)) =
      process.threads.map fun thread => (threadTotal label i thread : ℚ) := by
    conv_rhs => rw [← List.map_get_finRange process.threads]
    rw [List.map_map]
    rfl
  rw [processTotals_entry order hfield, List.filterMap_congr hrecorded,
    sum?_filterMap_ite _ _ _ hzero, hmap]
  simp only [hcarries]

theorem sum_map_cast (l : List PerthreadData) (f : PerthreadData → ℤ) :
    (l.map fun thread => (f thread : ℚ)).sum = ((l.map f).sum : ℤ) := by
  induction l with
  | nil => simp
  | cons thread l ih => simp [ih]

/-- **The total of the report under a label** is the sum over the threads. -/
theorem processTotals_label_of_carries {label : Text} (hcarries : process.Carries label) {i : ℕ}
    (hi : i < process.settings.cfg.eventcnt) :
    (processTotals order process.entry).counts.lookup
        (caliperField label (process.settings.cfg.eventnames.get ⟨i, hi⟩)) =
      some (((process.threads.map (threadTotal label i)).sum : ℤ) : ℚ) := by
  rw [processTotals_label order hi, if_pos hcarries, sum_map_cast]

/-- The report on the files of a process is about this process alone. -/
theorem totalsOf_files_eq (wallclockUsecs : Option ℚ) (process : ThreadedProcess) :
    ∃ totals, totalsOf order wallclockUsecs process.files = .ok totals ∧
      totals.processes =
        [(process.pid, processTotals (order.within process.pid) process.entry)] := by
  have hplace : ∀ file ∈ process.files, file.rank ≠ none ∨ file.tid ≠ none :=
    fun file hfile => .inr (readsBack_of_mem_files hfile).2
  have hpids : (process.files.map CountFile.pid).dedup = [process.pid] := by
    have hreplicate : process.files.map CountFile.pid =
        List.replicate process.files.length process.pid := by
      rw [List.map_eq_replicate_iff]
      intro file hfile
      obtain ⟨i, -, rfl⟩ := List.mem_map.mp hfile
      rfl
    have hlength : process.files.length = process.threads.length := by
      rw [files, List.length_map, process.reading_perm.length_eq, List.length_finRange]
    rw [hreplicate, List.replicate_dedup]
    rw [hlength]
    exact (List.length_pos_iff.mpr process.threads_ne_nil).ne'
  obtain ⟨totals, pids, htotals, hperm, -, hprocesses, -⟩ :=
    totalsOf_files order wallclockUsecs process.files
      (fun file hfile => (readsBack_of_mem_files hfile).1) hplace
  rw [hpids, List.perm_singleton] at hperm
  subst hperm
  exact ⟨totals, htotals, hprocesses⟩

/-- **Classic and nextgen mode come to the same totals of a process**, if its threads
agree on the labels of the calipers. -/
theorem modes_agree (order : KeyOrder) (wallclockUsecs : Option ℚ) (process : ThreadedProcess)
    (hagree : LabelsAgree process.threads) :
    ∃ totals processTotals, totalsOf order wallclockUsecs process.files = .ok totals ∧
      totals.processes = [(process.pid, processTotals)] ∧ process.AgreesWith processTotals := by
  obtain ⟨totals, htotals, hprocesses⟩ := totalsOf_files_eq order wallclockUsecs process
  refine ⟨totals, _, htotals, hprocesses, ?_, ?_, ?_⟩
  · intro i hi
    rw [processTotals_event _ hi, sum_map_cast, sums, processDataSums_counters_zero hi]
  · intro i hi label hcarries
    rw [processTotals_label_of_carries _ hcarries hi, sums, classicTotal_eq hagree label hi]
  · intro i hi label hnot
    rw [processTotals_label _ hi, if_neg hnot]

theorem infoOn_newline : ∀ i : Fin 2,
    ∀ line ∈ headerLines (infoOn "node0".toList) none (some i) "s".toList "f".toList,
      '\n' ∉ line := by
  decide

/-- Two threads that have used caliper 1 once each, under these labels; the file of the
second one is read first. -/
def twoThreads (first second : Text)
    (hfirst : Readable labelledSettings.cfg (labelledThread first))
    (hsecond : Readable labelledSettings.cfg (labelledThread second)) : ThreadedProcess where
  info := infoOn "node0".toList
  rank := none
  settings := labelledSettings
  threads := [labelledThread first, labelledThread second]
  startTime := fun _ => "s".toList
  finishTime := fun _ => "f".toList
  reading := [(1 : Fin 2), (0 : Fin 2)]
  threads_ne_nil := by simp
  header := fun i => CountFile.keepsCounts_of_newline (infoOn_newline i)
  events := eventsNamed_labelledSettings
  readable := by
    intro thread hthread
    simp only [List.mem_cons, List.not_mem_nil, or_false] at hthread
    rcases hthread with rfl | rfl
    · exact hfirst
    · exact hsecond
  reading_perm := List.Perm.swap _ _ _

/-- Two threads with one label. -/
theorem modes_agree_twoThreads :
    LabelsAgree [labelledThread "solve".toList, labelledThread "solve".toList] ∧
      ∃ totals processTotals,
        totalsOf insertionOrder none (twoThreads "solve".toList "solve".toList
          readable_labelledThread readable_labelledThread).files = .ok totals ∧
        totals.processes = [(decimal 4242, processTotals)] ∧
        (twoThreads "solve".toList "solve".toList
          readable_labelledThread readable_labelledThread).AgreesWith processTotals := by
  have hagree : LabelsAgree [labelledThread "solve".toList, labelledThread "solve".toList] := by
    unfold LabelsAgree
    decide
  exact ⟨hagree, modes_agree insertionOrder none _ hagree⟩

theorem readable_a : Readable labelledSettings.cfg (labelledThread "a".toList) :=
  ⟨by decide, by decide, by decide, by decide, by decide, by decide, by decide, by decide,
    by decide⟩

theorem readable_b : Readable labelledSettings.cfg (labelledThread "b".toList) :=
  ⟨by decide, by decide, by decide, by decide, by decide, by decide, by decide, by decide,
    by decide⟩

/-- **Where two threads label caliper 1 differently, classic mode leaves the second one
out**, and nextgen mode does not. -/
theorem modes_differ_labels :
    ¬ ∃ totals processTotals,
      totalsOf insertionOrder none
        (twoThreads "a".toList "b".toList readable_a readable_b).files = .ok totals ∧
      totals.processes = [(decimal 4242, processTotals)] ∧
      (twoThreads "a".toList "b".toList readable_a readable_b).AgreesWith processTotals := by
  rintro ⟨totals, totals', htotals, hprocesses, hagree⟩
  obtain ⟨found, hfound, hentry⟩ := totalsOf_files_eq insertionOrder none
    (twoThreads "a".toList "b".toList readable_a readable_b)
  obtain rfl : totals = found := Except.ok.inj (htotals.symm.trans hfound)
  have heq : totals' = processTotals (insertionOrder.within (decimal 4242))
      (twoThreads "a".toList "b".toList readable_a readable_b).entry := by
    have hsame := hprocesses.symm.trans hentry
    simp only [List.cons.injEq, Prod.mk.injEq, and_true] at hsame
    exact hsame.2
  have hcarries : (twoThreads "a".toList "b".toList readable_a readable_b).Carries "b".toList :=
    ⟨labelledThread "b".toList, List.mem_cons_of_mem _ List.mem_cons_self, 1, by decide,
      by decide⟩
  -- nextgen mode has the 700 of the second thread, classic mode has nothing
  have hclassic := hagree.label 0 (by decide) _ hcarries
  have hnextgen := processTotals_label_of_carries (insertionOrder.within (decimal 4242)) hcarries
    (i := 0) (by decide)
  rw [← heq, hclassic, Option.some.injEq] at hnextgen
  have hsum : classicTotal (twoThreads "a".toList "b".toList readable_a readable_b).sums
      "b".toList 0 = 0 := by
    decide
  have hthreads : ([labelledThread "a".toList, labelledThread "b".toList].map
      (threadTotal "b".toList 0)).sum = 700 := by
    decide
  rw [hsum] at hnextgen
  have hzero : (0 : ℤ) = 700 := (Int.cast_injective hnextgen).trans hthreads
  omega

end ThreadedProcess

end Papiex
