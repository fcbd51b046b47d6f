import Papiex.Report.Files

/-!
# The files of one process

The count files of a process are read one after the other into one entry.  The files of
different threads write under keys of their own, so the entry keeps for every thread what
its own file records.  `compute_totals` adds the threads up, in the order in which the
hash of the threads gives them.

## Main results

* `processTotals_threadFiles`: the totals of a process, from its files.

## Design notes

A field of a thread is written by one file only, since the thread ids differ; so the order in
which the files of a process are read does not matter for what its threads have.
-/

namespace Papiex

open Chars Report KeyedFold LastWrite

/-! ## What an entry holds -/

/-- What the lines of a file leave under a key of its own level. -/
def CountFile.recorded (file : CountFile) (field : Text) : Option ℚ :=
  Papiex.recorded file.settings file.thread (file.tid.map decimal) field

section

variable {file : CountFile} {files : List CountFile} {level : Option Text} {field : Text}

/-- Files that write nothing under a key leave it alone. -/
theorem countAt_applyFiles_of_silent
    (h : ∀ file ∈ files, ∀ line ∈ file.body,
      written (file.tid.map decimal) level field line = none) (data : ProcessData) :
    (applyFiles files data).countAt level field =
      data.countAt level field := by
  induction files generalizing data with
  | nil => rfl
  | cons file files ih =>
      rw [List.forall_mem_cons] at h
      rw [applyFiles_cons, ih h.2, CountFile.countAt_apply]
      exact after_eq_start h.1

/-- A file writes at the level of its own thread, and at that of the process. -/
theorem CountFile.written_of_other_level (hnone : level ≠ none)
    (hlevel : level ≠ file.tid.map decimal) :
    ∀ line ∈ file.body, written (file.tid.map decimal) level field line = none :=
  fun line _ => Papiex.written_of_other_level hnone hlevel field line

/-- **An entry keeps for every thread what its own file records.** -/
theorem countAt_applyFiles_self (htids : (files.map CountFile.tid).Nodup)
    (hfile : file ∈ files) (htid : file.tid ≠ none) :
    (applyFiles files {}).countAt (file.tid.map decimal) field =
      file.recorded field := by
  obtain ⟨front, back, rfl⟩ := List.append_of_mem hfile
  have hlevel : file.tid.map decimal ≠ none := by simpa using htid
  rw [List.map_append, List.map_cons, List.nodup_middle, List.nodup_cons, List.mem_append,
    not_or] at htids
  -- no other file is of this thread
  have hother : ∀ l : List CountFile, file.tid ∉ l.map CountFile.tid →
      ∀ other ∈ l, ∀ line ∈ other.body,
        written (other.tid.map decimal) (file.tid.map decimal) field line = none := by
    intro l hnot other hmem
    refine CountFile.written_of_other_level hlevel fun heq => hnot ?_
    rw [Option.map_injective decimal_injective heq]
    exact List.mem_map_of_mem hmem
  rw [applyFiles_append, applyFiles_cons,
    countAt_applyFiles_of_silent (hother back htids.1.2), CountFile.countAt_apply,
    countAt_applyFiles_of_silent (hother front htids.1.1)]
  cases hcase : file.tid with
  | none => exact absurd hcase htid
  | some tid => rw [CountFile.recorded, Papiex.recorded, hcase]; rfl

/-- There are no counts of other threads. -/
theorem countAt_applyFiles_of_ne {key : Text}
    (h : ∀ file ∈ files, file.tid.map decimal ≠ some key) :
    (applyFiles files {}).countAt (some key) field = none := by
  rw [countAt_applyFiles_of_silent]
  · rfl
  · intro file hfile
    exact CountFile.written_of_other_level (by simp) (Ne.symm (h file hfile))

/-- The file of a thread says nothing about the whole process but its wallclock time. -/
theorem CountFile.written_process (hread : file.ReadsBack) (htid : file.tid ≠ none)
    (hfield : field ≠ "Wallclock usecs".toList) :
    ∀ line ∈ file.body, written (file.tid.map decimal) none field line = none :=
  fun _ hline =>
    written_process_eq_none hread.events hread.readable (by simpa using htid) hfield hline

end

/-! ## What `compute_totals` adds up -/

/-- Lists of keys that have the same values somewhere else than nowhere. -/
theorem filterMap_perm_of_mem_iff {l l' : List Text} (hl : l.Nodup) (hl' : l'.Nodup)
    {f : Text → Option ℚ} (h : ∀ key, f key ≠ none → (key ∈ l ↔ key ∈ l')) :
    (l.filterMap f).Perm (l'.filterMap f) := by
  have hfilter : ∀ l : List Text,
      l.filterMap f = (l.filter fun key => (f key).isSome).filterMap f := by
    intro l
    induction l with
    | nil => rfl
    | cons key l ih =>
        cases hkey : f key <;> simp [hkey, ih]
  rw [hfilter l, hfilter l']
  apply List.Perm.filterMap
  refine (List.perm_ext_iff_of_nodup (hl.filter _) (hl'.filter _)).mpr fun key => ?_
  rw [List.mem_filter, List.mem_filter]
  constructor
  · rintro ⟨hmem, hkey⟩
    exact ⟨(h key (Option.isSome_iff_ne_none.mp hkey)).mp hmem, hkey⟩
  · rintro ⟨hmem, hkey⟩
    exact ⟨(h key (Option.isSome_iff_ne_none.mp hkey)).mpr hmem, hkey⟩

/-- **The total of a process**: what stands at its own level, and the threads that have
counts under the field. -/
theorem processTotals_lookup (order : KeyOrder) (data : ProcessData) (field : Text)
    {tids : List ℕ} (hnodup : tids.Nodup)
    (hcover : ∀ key, data.countAt (some key) field ≠ none → ∃ tid ∈ tids, decimal tid = key) :
    (processTotals order data).counts.lookup field =
      let vals := tids.filterMap fun tid => data.countAt (some (decimal tid)) field
      match data.countAt none field with
      | some sum => some (sum + vals.sum)
      | none => sum? vals := by
  have hkeys : (tids.map decimal).Nodup := hnodup.map decimal_injective
  -- the hash gives the threads in an order of its own
  have hperm : (Totals.levelValues field
      (((order.keys data.threads).filter isNumeric).map fun tid =>
        (data.threads.lookup tid).getD ∅)).Perm
      (tids.filterMap fun tid => data.countAt (some (decimal tid)) field) := by
    have hlevels : Totals.levelValues field
        (((order.keys data.threads).filter isNumeric).map fun tid =>
          (data.threads.lookup tid).getD ∅) =
        ((order.keys data.threads).filter isNumeric).filterMap fun tid =>
          data.countAt (some tid) field := by
      rw [Totals.levelValues, List.filterMap_map]
      congr 1
      funext tid
      exact lookup_getD_empty _ _
    have htids : (tids.filterMap fun tid => data.countAt (some (decimal tid)) field) =
        (tids.map decimal).filterMap fun tid => data.countAt (some tid) field := by
      rw [List.filterMap_map]
      rfl
    rw [hlevels, htids]
    apply filterMap_perm_of_mem_iff ((Totals.nodup_keys order _).filter _) hkeys
    intro key hkey
    obtain ⟨tid, htid, rfl⟩ := hcover key hkey
    refine iff_of_true ?_ (List.mem_map_of_mem htid)
    rw [List.mem_filter, Totals.mem_keys_iff, ← AList.lookup_isSome, Option.isSome_iff_ne_none]
    refine ⟨fun hlookup => hkey ?_, isNumeric_decimal _⟩
    rw [ProcessData.countAt, hlookup]
    rfl
  rw [processTotals, Totals.lookup_counts_combine]
  show (match data.countAt none field with
    | some sum => some (sum + (Totals.levelValues field _).sum)
    | none => sum? (Totals.levelValues field _)) = _
  rw [hperm.sum_eq, sum?_perm hperm]

/-- Without counts of threads the total is what stands at the level of the process. -/
theorem processTotals_lookup_of_no_thread (order : KeyOrder) (data : ProcessData) (field : Text)
    (h : ∀ key, data.countAt (some key) field = none) :
    (processTotals order data).counts.lookup field = data.countAt none field := by
  have hcover : ∀ key, data.countAt (some key) field ≠ none → ∃ tid ∈ ([] : List ℕ),
      decimal tid = key := fun key hkey => absurd (h key) hkey
  rw [processTotals_lookup order data field List.nodup_nil hcover]
  cases data.countAt none field with
  | none => rfl
  | some sum =>
      show some (sum + ([] : List ℚ).sum) = some sum
      rw [List.sum_nil, add_zero]

/-- **The total of the files of threads is the sum of what they record**, of every field
but the wallclock time. -/
theorem processTotals_threadFiles (order : KeyOrder) {files : List CountFile}
    (hread : ∀ file ∈ files, file.ReadsBack) (htids : (files.map CountFile.tid).Nodup)
    (hthreads : ∀ file ∈ files, file.tid ≠ none) {field : Text}
    (hfield : field ≠ "Wallclock usecs".toList) :
    (processTotals order (applyFiles files {})).counts.lookup field =
      sum? (files.filterMap fun file => file.recorded field) := by
  have htid : ∀ file ∈ files, file.tid = some (file.tid.getD 0) := by
    intro file hfile
    obtain ⟨tid, htid⟩ := Option.ne_none_iff_exists'.mp (hthreads file hfile)
    rw [htid, Option.getD_some]
  have hnodup : (files.map fun file => file.tid.getD 0).Nodup := by
    have hmap : (files.map fun file => file.tid.getD 0).map some = files.map CountFile.tid := by
      rw [List.map_map]
      exact List.map_congr_left fun file hfile => (htid file hfile).symm
    rw [← hmap] at htids
    exact htids.of_map
  have hcover : ∀ key,
      (applyFiles files {}).countAt (some key) field ≠ none →
      ∃ tid ∈ files.map (fun file => file.tid.getD 0), decimal tid = key := by
    intro key hkey
    by_contra hnot
    refine hkey (countAt_applyFiles_of_ne fun file hfile heq => hnot ?_)
    refine ⟨file.tid.getD 0, List.mem_map_of_mem hfile, ?_⟩
    rw [htid file hfile] at heq
    exact Option.some.inj heq
  have hprocess : (applyFiles files {}).countAt none field = none := by
    rw [countAt_applyFiles_of_silent]
    · rfl
    · exact fun file hfile =>
        CountFile.written_process (hread file hfile) (hthreads file hfile) hfield
  rw [processTotals_lookup order _ field hnodup hcover, hprocess, List.filterMap_map]
  dsimp only
  congr 1
  apply List.filterMap_congr
  intro file hfile
  have hself : (applyFiles files {}).countAt (file.tid.map decimal) field = file.recorded field :=
    countAt_applyFiles_self htids hfile (hthreads file hfile)
  rw [← hself, Function.comp_apply]
  congr 1
  exact congrArg (Option.map decimal) (htid file hfile).symm

end Papiex
