import Mathlib.Data.Finset.Max
import Papiex.Report.Printed

/-!
# The raw count file, written and read back

A thread record is printed by `print_counters` and read by `process_input`.  The
text round-trips exactly if the record is readable: the counts of the events are
not negative, and nothing in the labels and the event names gets in the way of the
format.

## Main results

* `Readable`: what a record needs to be read back.
* `roundTrips_of_readable`, `readable_of_roundTrips`: that it is enough, and that it is needed.
* `count_file_roundTrips_iff`: both together.

## Design notes

A record is recovered if every count of an event stands under a key of its own and nothing
else is taken for one.  Each clause of `Readable` is one way for this to fail: a negative
count, a label with a newline or with one of the markers, two labels that print alike, an
event that is named like a quantity.
-/

namespace Papiex

open Chars Report LastWrite

/-- The reader when the lines of a thread begin: the header has named the process
and, in a threaded program, the thread, nothing has been counted for it, and the
labels it knows have come from lines. -/
structure AtThread (start : Report) (pid : Text) (tid : Option Text) : Prop where
  pid_eq : start.pid = some pid
  tid_eq : start.tid = tid
  fresh : ∀ field, start.countAt pid tid field = none
  labels : ∀ labelIndex label, start.labelmap.lookup labelIndex = some label → '\n' ∉ label

/-- The fields of the pairs of a used caliper and one of its quantities. -/
def caliperKeys (cfg : Config) (thread : PerthreadData) : List Text :=
  (usedCalipers thread).flatMap fun j =>
    (caliperCounts cfg (thread.data j)).map fun count =>
      caliperField (printedLabel j (thread.data j)) count.1

/-- The fields of everything that is printed for a thread. -/
def threadKeys (cfg : Config) (thread : PerthreadData) : List Text :=
  (threadCounts cfg thread).map Prod.fst ++ caliperKeys cfg thread

/-- What the reader holds after the lines of a thread is what was printed: every
count of an event under a key of its own, nothing of the thread at the process, and
the labels of the calipers. -/
structure Recovers (cfg : Config) (thread : PerthreadData) (pid : Text) (tid : Option Text)
    (start final : Report) : Prop where
  whole : ∀ count ∈ eventCounts cfg (thread.data 0),
    final.countAt pid tid count.1 = some (count.2 : ℚ)
  caliper : ∀ j ∈ usedCalipers thread, ∀ count ∈ eventCounts cfg (thread.data j),
    final.countAt pid tid (caliperField (printedLabel j (thread.data j)) count.1) =
      some (count.2 : ℚ)
  distinct : (threadKeys cfg thread).Nodup
  processWide : tid ≠ none → ∀ field, field ≠ "Wallclock usecs".toList →
    final.countAt pid none field = start.countAt pid none field
  labelmap : ∀ j ∈ usedCalipers thread,
    final.labelmap.lookup (decimal j) = some (thread.data j).label

/-- Reading the printed lines back recovers the record. -/
def RoundTrips (settings : PrintSettings) (thread : PerthreadData) (pid : Text)
    (tid : Option Text) (start : Report) : Prop :=
  ∃ final, readLines start (lines (printCounters settings thread)) = .ok final ∧
    Recovers settings.cfg thread pid tid start final

/-- **What a record needs to be readable.** -/
structure Readable (cfg : Config) (thread : PerthreadData) : Prop where
  counts : ∀ count ∈ eventCounts cfg (thread.data 0), 0 ≤ count.2
  caliperCounts : ∀ j ∈ usedCalipers thread, ∀ count ∈ eventCounts cfg (thread.data j), 0 ≤ count.2
  newlines : ∀ j ∈ usedCalipers thread, '\n' ∉ (thread.data j).label
  label : ∀ j ∈ usedCalipers thread, ¬ LabelReserved (printedLabel j (thread.data j))
  process : ∀ j ∈ usedCalipers thread, ¬ ProcessReserved (printedLabel j (thread.data j))
  labelsDistinct : ((usedCalipers thread).map fun j => printedLabel j (thread.data j)).Nodup
  eventsDistinct : cfg.eventnames.Nodup
  eventsLong : ∀ name ∈ cfg.eventnames, 2 ≤ name.length
  measurements : usedCalipers thread ≠ [] → "Measurements".toList ∉ cfg.eventnames

variable {settings : PrintSettings} {thread : PerthreadData} {pid : Text} {tid : Option Text}
variable {start final : Report}

/-! ## Keys -/

theorem usedCalipers_nodup : (usedCalipers thread).Nodup := List.nodup_range.filter _

theorem pos_of_mem_usedCalipers {j : ℕ} (h : j ∈ usedCalipers thread) : 1 ≤ j := by
  have hfilter := (List.mem_filter.mp h).2
  simp only [Bool.and_eq_true, decide_eq_true_eq] at hfilter
  omega

/-- The names papiex gives to its own counts have a blank, but one. -/
theorem blank_mem_of_mem_ownNames {name : Text} (h : name ∈ ownNames)
    (hname : name ≠ "Measurements".toList) : ' ' ∈ name := by
  have hall : ∀ name ∈ ownNames, name ≠ "Measurements".toList → ' ' ∈ name := by decide
  exact hall name h hname

/-- All fields of the thread have two characters at least. -/
theorem two_le_length_of_mem_threadCounts (hread : Readable settings.cfg thread)
    {count : Text × ℤ} (hcount : count ∈ threadCounts settings.cfg thread) :
    2 ≤ count.1.length := by
  have hown : ∀ name ∈ ownNames, 2 ≤ name.length := by decide
  rcases mem_threadCounts hcount with hclock | hevent
  · exact hown _ hclock
  · exact hread.eventsLong _ (mem_eventnames_of_mem_eventCounts hevent)

/-- A key that no marker has been cut from has at least two characters. -/
theorem origin_two_le_length
    (hprocess : ∀ j ∈ usedCalipers thread, ¬ ProcessReserved (printedLabel j (thread.data j)))
    {level : Option Text} {field : Text} {val : ℚ}
    (horigin : Origin settings thread tid level field val) : 2 ≤ field.length := by
  cases horigin with
  | wallclock _ => decide
  | whole _ _ hlong => exact hlong
  | caliper _ _ _ _ _ => exact two_le_length_caliperField _
  | marked hj _ _ hreserved _ => exact absurd hreserved (hprocess _ hj)

section

variable (hevents : settings.cfg.EventsNamed)

include hevents

/-- The fields of a whole run are all different if the events are. -/
theorem nodup_map_fst_threadCounts (h : settings.cfg.eventnames.Nodup) :
    ((threadCounts settings.cfg thread).map Prod.fst).Nodup := by
  have hclock : clockNames.Nodup ∧ ∀ name ∈ clockNames, ' ' ∈ name := by decide
  rw [threadCounts, List.map_append, map_fst_eventCounts, List.nodup_append]
  refine ⟨hclock.1.sublist (threadClocks_sublist _ _), h, ?_⟩
  rintro name hname _ hevent rfl
  exact (hevents.word name hevent).not_mem_blank
    (hclock.2 name ((threadClocks_sublist _ _).subset hname))

/-- The fields of a caliper are all different if the events are, and none of them is
called like the number of measurements. -/
theorem nodup_map_fst_caliperCounts (record : CaliperData) (h : settings.cfg.eventnames.Nodup)
    (hmeasurements : "Measurements".toList ∉ settings.cfg.eventnames) :
    ((caliperCounts settings.cfg record).map Prod.fst).Nodup := by
  have hown : ownNames.Nodup := by decide
  rw [caliperCounts, List.map_append, map_fst_eventCounts, List.nodup_append]
  refine ⟨hown.sublist (caliperClocks_sublist _ _), h, ?_⟩
  rintro name hname _ hevent rfl
  have hmem := (caliperClocks_sublist _ _).subset hname
  by_cases hmeasure : name = "Measurements".toList
  · exact hmeasurements (hmeasure ▸ hevent)
  · exact (hevents.word name hevent).not_mem_blank (blank_mem_of_mem_ownNames hmem hmeasure)

/-- Fields of quantities of calipers are equal only with equal labels and equal names. -/
theorem caliperField_inj_of_mem {j j' : ℕ} {count count' : Text × ℤ} {label label' : Text}
    (hcount : count ∈ caliperCounts settings.cfg (thread.data j))
    (hcount' : count' ∈ caliperCounts settings.cfg (thread.data j'))
    (h : caliperField label count.1 = caliperField label' count'.1) :
    label = label' ∧ count.1 = count'.1 :=
  caliperField_inj (quantity_of_mem_caliperCounts hevents hcount).unclosed
    (quantity_of_mem_caliperCounts hevents hcount').unclosed h

/-- **The keys of a readable record are all different.** -/
theorem nodup_threadKeys (hread : Readable settings.cfg thread) :
    (threadKeys settings.cfg thread).Nodup := by
  rw [threadKeys, caliperKeys, List.nodup_append]
  refine ⟨nodup_map_fst_threadCounts hevents hread.eventsDistinct, ?_, ?_⟩
  · rw [List.nodup_flatMap]
    constructor
    · intro j hj
      have hnodup := nodup_map_fst_caliperCounts hevents (thread.data j) hread.eventsDistinct
        (hread.measurements (List.ne_nil_of_mem hj))
      apply List.Nodup.map_on _ (List.Nodup.of_map _ hnodup)
      intro count hcount count' hcount' heq
      exact List.inj_on_of_nodup_map hnodup hcount hcount'
        (caliperField_inj_of_mem hevents hcount hcount' heq).2
    · refine List.Pairwise.imp_of_mem ?_ (List.pairwise_map.mp hread.labelsDistinct)
      intro j j' hj hj' hne field hfield hfield'
      obtain ⟨count, hcount, rfl⟩ := List.mem_map.mp hfield
      obtain ⟨count', hcount', heq⟩ := List.mem_map.mp hfield'
      exact hne (caliperField_inj_of_mem hevents hcount hcount' heq.symm).1
  · rintro name hname _ hfield rfl
    obtain ⟨count, hcount, rfl⟩ := List.mem_map.mp hname
    obtain ⟨j, hj, hfield⟩ := List.mem_flatMap.mp hfield
    obtain ⟨count', -, heq⟩ := List.mem_map.mp hfield
    exact not_bracketed_of_mem_threadCounts hevents hcount ⟨_, _, heq.symm⟩

/-! ## Every readable record is recovered -/

/-- What the lines of a thread leave under a key at its level. -/
def recorded (settings : PrintSettings) (thread : PerthreadData) (tid : Option Text)
    (field : Text) : Option ℚ :=
  after (written tid tid field) none (counterOutputs settings thread)

omit hevents in
/-- **After the file the report has what the file recorded.** -/
theorem countAt_eq_recorded (hat : AtThread start pid tid)
    (hall : ReadsAll (counterOutputs settings thread) start final) (field : Text) :
    final.countAt pid tid field = recorded settings thread tid field := by
  rw [hall.countAt_eq hat.pid_eq, hat.fresh, hat.tid_eq, recorded]

/-- What is recorded has an origin among the printed lines. -/
theorem origin_of_recorded {field : Text} {val : ℚ}
    (h : recorded settings thread tid field = some val) :
    Origin settings thread tid tid field val := by
  rcases of_after_eq_some h with hnone | ⟨line, hline, hwritten⟩
  · cases hnone
  · exact (printedLine_of_mem hline).origin hevents (written_eq_some_iff.mp hwritten)

/-- A count that is written, and that nothing else is written over, is recorded. -/
theorem recorded_of_written {line field : Text} {val : ℚ}
    (hline : line ∈ counterOutputs settings thread)
    (hwritten : countWritten tid line = some (tid, field, val))
    (hunique : ∀ other, Origin settings thread tid tid field other → other = val) :
    recorded settings thread tid field = some val := by
  refine after_eq_some ?_ (.inr ⟨line, hline, written_eq_some_iff.mpr hwritten⟩)
  intro other hother otherVal hval
  exact hunique otherVal ((printedLine_of_mem hother).origin hevents (written_eq_some_iff.mp hval))

/-- No count of the thread is named like the wall clock time. -/
theorem wallclock_ne_of_mem_threadCounts {count : Text × ℤ}
    (hcount : count ∈ threadCounts settings.cfg thread) :
    "Wallclock usecs".toList ≠ count.1 := by
  intro heq
  rcases mem_threadCounts hcount with hown | hevent
  · rw [← heq] at hown
    exact absurd hown (by decide)
  · apply (hevents.word _ (mem_eventnames_of_mem_eventCounts hevent)).not_mem_blank
    rw [← heq]
    decide

/-- The field of a quantity of the whole run has one value only. -/
theorem origin_whole_unique (hread : Readable settings.cfg thread) {count : Text × ℤ}
    (hcount : count ∈ threadCounts settings.cfg thread) {level : Option Text} {field : Text}
    {val : ℚ} (horigin : Origin settings thread tid level field val) (hfield : field = count.1) :
    val = count.2 := by
  have hplain := not_bracketed_of_mem_threadCounts hevents hcount
  cases horigin with
  | wallclock _ => exact absurd hfield (wallclock_ne_of_mem_threadCounts hevents hcount)
  | whole hother _ _ =>
      rw [List.inj_on_of_nodup_map (nodup_map_fst_threadCounts hevents hread.eventsDistinct)
        hother hcount hfield]
  | caliper _ _ _ _ _ => exact absurd ⟨_, _, hfield.symm⟩ hplain
  | marked hj _ _ hprocess _ => exact absurd hprocess (hread.process _ hj)

/-- **The field of a caliper** comes from a caliper, or from one whose label is taken for the
marker of the process. -/
theorem origin_caliperField {level : Option Text} {field label quantity : Text} {val : ℚ}
    (horigin : Origin settings thread tid level field val)
    (hfield : field = caliperField label quantity) :
    (∃ j ∈ usedCalipers thread, ∃ count ∈ caliperCounts settings.cfg (thread.data j),
        ¬ LabelReserved (printedLabel j (thread.data j)) ∧
          ¬ ProcessReserved (printedLabel j (thread.data j)) ∧
          caliperField label quantity = caliperField (printedLabel j (thread.data j)) count.1 ∧
          val = count.2) ∨
      ∃ j ∈ usedCalipers thread, ProcessReserved (printedLabel j (thread.data j)) ∧
        ∃ count ∈ caliperCounts settings.cfg (thread.data j),
          dropPrefixNoCase processMarker
            (caliperField (printedLabel j (thread.data j)) count.1) =
              some (caliperField label quantity) := by
  cases horigin with
  | wallclock _ =>
      have hhead := congrArg List.head? hfield
      exact absurd hhead (by simp [caliperField])
  | whole hcount _ _ =>
      exact absurd ⟨_, _, hfield⟩ (not_bracketed_of_mem_threadCounts hevents hcount)
  | @caliper j count hj hcount _ hlabel hprocess =>
      exact .inl ⟨j, hj, count, hcount, hlabel, hprocess, hfield.symm, rfl⟩
  | @marked j count _ hj hcount _ hprocess hstripped =>
      exact .inr ⟨j, hj, hprocess, count, hcount, hfield ▸ hstripped⟩

/-- The field of a quantity of a used caliper has one value only. -/
theorem origin_caliper_unique (hread : Readable settings.cfg thread) {j : ℕ} {count : Text × ℤ}
    (hj : j ∈ usedCalipers thread) (hcount : count ∈ caliperCounts settings.cfg (thread.data j))
    {level : Option Text} {field : Text} {val : ℚ}
    (horigin : Origin settings thread tid level field val)
    (hfield : field = caliperField (printedLabel j (thread.data j)) count.1) :
    val = count.2 := by
  have hnodup := nodup_map_fst_caliperCounts hevents (thread.data j) hread.eventsDistinct
    (hread.measurements (List.ne_nil_of_mem hj))
  rcases origin_caliperField hevents horigin hfield with
    ⟨j', hj', count', hcount', -, -, hsame, rfl⟩ | ⟨j', hj', hprocess, -⟩
  · obtain ⟨hlabel, hname⟩ := caliperField_inj_of_mem hevents hcount' hcount hsame.symm
    obtain rfl : j' = j := List.inj_on_of_nodup_map hread.labelsDistinct hj' hj hlabel
    rw [List.inj_on_of_nodup_map hnodup hcount' hcount hname]
  · exact absurd hprocess (hread.process _ hj')

/-- Every quantity of a whole run that is not negative is recovered. -/
theorem recorded_whole (hread : Readable settings.cfg thread) {count : Text × ℤ}
    (hcount : count ∈ threadCounts settings.cfg thread) (hsign : 0 ≤ count.2) :
    recorded settings thread tid count.1 = some (count.2 : ℚ) := by
  apply recorded_of_written hevents (mem_counterOutputs_whole hcount)
  · rw [countWritten_whole hevents hcount hsign,
      if_pos (two_le_length_of_mem_threadCounts hread hcount)]
  · intro other horigin
    exact origin_whole_unique hevents hread hcount horigin rfl

/-- Every quantity of a used caliper that is not negative is recovered. -/
theorem recorded_caliper (hread : Readable settings.cfg thread) {j : ℕ} {count : Text × ℤ}
    (hj : j ∈ usedCalipers thread) (hcount : count ∈ caliperCounts settings.cfg (thread.data j))
    (hsign : 0 ≤ count.2) :
    recorded settings thread tid (caliperField (printedLabel j (thread.data j)) count.1) =
      some (count.2 : ℚ) := by
  apply recorded_of_written hevents (mem_counterOutputs_caliper hj hcount)
  · rw [countWritten_caliper hevents hcount hsign,
      if_pos (dropPrefix_caliperField.mpr (hread.label j hj)), markedCount,
      dropPrefixNoCase_caliperField.mpr (hread.process j hj)]
  · intro other horigin
    exact origin_caliper_unique hevents hread hj hcount horigin rfl

/-- No line of a thread is taken for one of the process. -/
theorem written_process_eq_none (hread : Readable settings.cfg thread) (htid : tid ≠ none)
    {field line : Text} (hfield : field ≠ "Wallclock usecs".toList)
    (hline : line ∈ counterOutputs settings thread) : written tid none field line = none := by
  rw [Option.eq_none_iff_forall_ne_some]
  intro val hwritten
  have horigin := (printedLine_of_mem hline).origin hevents (written_eq_some_iff.mp hwritten)
  cases horigin with
  | wallclock _ => exact hfield rfl
  | whole _ _ _ => exact htid rfl
  | caliper _ _ _ _ _ => exact htid rfl
  | marked hj _ _ hprocess _ => exact hread.process _ hj hprocess

/-- The file of a thread leaves the counts of the process alone, but for the wall clock time. -/
theorem countAt_process (hread : Readable settings.cfg thread) (hat : AtThread start pid tid)
    (hall : ReadsAll (counterOutputs settings thread) start final) (htid : tid ≠ none)
    {field : Text} (hfield : field ≠ "Wallclock usecs".toList) :
    final.countAt pid none field = start.countAt pid none field := by
  rw [hall.countAt_eq hat.pid_eq, hat.tid_eq]
  exact after_eq_start fun line hline => written_process_eq_none hevents hread htid hfield hline

/-- The label map sends every used caliper to its label. -/
theorem labelmap_of_readable (hread : Readable settings.cfg thread)
    (hall : ReadsAll (counterOutputs settings thread) start final) {j : ℕ}
    (hj : j ∈ usedCalipers thread) :
    final.labelmap.lookup (decimal j) = some (thread.data j).label := by
  rw [hall.labelmap_eq]
  refine after_eq_some ?_ (.inr ⟨_, mem_counterOutputs_label hj,
    labelWritten_eq_some_iff.mpr (matchLabel_labelLine j _)⟩)
  intro line hline label hlabel
  obtain ⟨j', hj', ⟨hindex, hsame⟩ | hreserved⟩ :=
    (printedLine_of_mem hline).label_cases hevents (labelWritten_eq_some_iff.mp hlabel)
  · obtain rfl := decimal_injective hindex
    exact hsame
  · exact absurd hreserved (hread.label j' hj')

/-- The only labels in the lines of a readable record are the ones of its calipers. -/
theorem one_le_perlNum_of_readable (hread : Readable settings.cfg thread) {line : Text}
    (hline : line ∈ counterOutputs settings thread) {number label : Text}
    (hlabel : matchLabel line = some (number, label)) : 1 ≤ perlNum number := by
  obtain ⟨j, hj, ⟨rfl, -⟩ | hreserved⟩ := (printedLine_of_mem hline).label_cases hevents hlabel
  · rw [perlNum_decimal]
    exact_mod_cast pos_of_mem_usedCalipers hj
  · exact absurd hreserved (hread.label j hj)

/-- The lines of a readable record do not make the reader die. -/
theorem readLines_of_readable (hread : Readable settings.cfg thread)
    (hat : AtThread start pid tid) :
    ∃ final, readLines start (counterOutputs settings thread) = .ok final := by
  rw [readLines_eq_ok_iff (fun line h => (printedLine_of_mem h).matchHeader_eq_none) hat.pid_eq]
  intro line hline number label hlabel
  exact one_le_perlNum_of_readable hevents hread hline hlabel

/-- **A readable record is recovered.** -/
theorem roundTrips_of_readable (hread : Readable settings.cfg thread)
    (hat : AtThread start pid tid) : RoundTrips settings thread pid tid start := by
  obtain ⟨final, hrun⟩ := readLines_of_readable hevents hread hat
  have hall := readsAll_of_readLines
    (fun line h => (printedLine_of_mem h).matchHeader_eq_none) hat.pid_eq hrun
  refine ⟨final, ?_, ?_⟩
  · rw [lines_printCounters hevents.newline_not_mem hread.newlines, hrun]
  · refine ⟨?_, ?_, nodup_threadKeys hevents hread, ?_, ?_⟩
    · intro count hcount
      rw [countAt_eq_recorded hat hall]
      exact recorded_whole hevents hread (List.mem_append_right _ hcount)
        (hread.counts count hcount)
    · intro j hj count hcount
      rw [countAt_eq_recorded hat hall]
      exact recorded_caliper hevents hread hj (List.mem_append_right _ hcount)
        (hread.caliperCounts j hj count hcount)
    · intro htid field hfield
      exact countAt_process hevents hread hat hall htid hfield
    · intro j hj
      exact labelmap_of_readable hevents hread hall hj

/-! ## Only readable records are recovered -/

/-- Where the count of a caliper comes from: from a caliper with this label, or from
one with a longer label that is taken for the marker of the process. -/
theorem origin_caliper_cases {level : Option Text} {field label quantity : Text} {val : ℚ}
    (horigin : Origin settings thread tid level field val)
    (hfield : field = caliperField label quantity) (hquantity : ¬ "] ".toList <:+: quantity) :
    (¬ LabelReserved label ∧ ¬ ProcessReserved label) ∨
      ∃ j ∈ usedCalipers thread, ProcessReserved (printedLabel j (thread.data j)) ∧
        label.length < (printedLabel j (thread.data j)).length := by
  rcases origin_caliperField hevents horigin hfield with
    ⟨j, hj, count, hcount, hlabel, hprocess, hsame, -⟩ | ⟨j, hj, hprocess, count, hcount, hstripped⟩
  · obtain ⟨rfl, -⟩ := caliperField_inj
      (quantity_of_mem_caliperCounts hevents hcount).unclosed hquantity hsame.symm
    exact .inl ⟨hlabel, hprocess⟩
  · refine .inr ⟨j, hj, hprocess, ?_⟩
    obtain ⟨front, hfront, hmarker⟩ := dropPrefixNoCase_eq_some hstripped
    have hlength : front.length = 10 := by
      have hmap := congrArg List.length hmarker
      rw [List.length_map] at hmap
      rw [hmap]
      decide
    have hclose : ('[' :: printedLabel j (thread.data j)) ++ "] ".toList ++ count.1 =
        (front ++ '[' :: label) ++ "] ".toList ++ quantity := by
      simpa [caliperField] using hfront
    have hinj := (append_close_inj (quantity_of_mem_caliperCounts hevents hcount).unclosed
      hquantity hclose).1
    have hlengths := congrArg List.length hinj
    simp only [List.length_cons, List.length_append] at hlengths
    omega

/-- Every count that the report has comes from a line of the file. -/
theorem origin_of_countAt (hat : AtThread start pid tid)
    (hall : ReadsAll (counterOutputs settings thread) start final) {field : Text} {val : ℚ}
    (hcount : final.countAt pid tid field = some val) :
    Origin settings thread tid tid field val := by
  rw [countAt_eq_recorded hat hall] at hcount
  exact origin_of_recorded hevents hcount

theorem exists_eventCount (record : CaliperData) :
    ∃ count, count ∈ eventCounts settings.cfg record := by
  apply List.exists_mem_of_ne_nil
  intro hnil
  have hnames := map_fst_eventCounts settings.cfg record
  rw [hnil] at hnames
  exact hevents.ne_nil hnames.symm

/-- No event has a closing bracket with a blank behind it. -/
theorem unclosed_of_mem_eventCounts {record : CaliperData} {count : Text × ℤ}
    (h : count ∈ eventCounts settings.cfg record) : ¬ "] ".toList <:+: count.1 :=
  (hevents.word _ (mem_eventnames_of_mem_eventCounts h)).quantity.unclosed

/-- No label of a recovered record is taken for the marker of the process: the count of
the longest such label would be nowhere to be found. -/
theorem not_processReserved_of_recovers (hat : AtThread start pid tid)
    (hall : ReadsAll (counterOutputs settings thread) start final)
    (hrecovers : Recovers settings.cfg thread pid tid start final) :
    ∀ j ∈ usedCalipers thread, ¬ ProcessReserved (printedLabel j (thread.data j)) := by
  intro j hj hprocess
  let reserved := (usedCalipers thread).toFinset.filter fun j =>
    ProcessReserved (printedLabel j (thread.data j))
  have hne : reserved.Nonempty := ⟨j, by simp [reserved, hj, hprocess]⟩
  obtain ⟨longest, hlongest, hmax⟩ := reserved.exists_max_image
    (fun j => (printedLabel j (thread.data j)).length) hne
  obtain ⟨hused, hreserved⟩ := Finset.mem_filter.mp hlongest
  rw [List.mem_toFinset] at hused
  obtain ⟨count, hcount⟩ := exists_eventCount hevents (thread.data longest)
  have horigin := origin_of_countAt hevents hat hall (hrecovers.caliper longest hused count hcount)
  rcases origin_caliper_cases hevents horigin rfl (unclosed_of_mem_eventCounts hevents hcount) with
    ⟨-, hnot⟩ | ⟨j', hj', hprocess', hlonger⟩
  · exact hnot hreserved
  · have hle := hmax j' (by simp [reserved, hj', hprocess'])
    omega

/-- A file that is read back has no caliper labelled `LABEL`. -/
theorem not_labelReserved_of_recovers (hat : AtThread start pid tid)
    (hall : ReadsAll (counterOutputs settings thread) start final)
    (hrecovers : Recovers settings.cfg thread pid tid start final) :
    ∀ j ∈ usedCalipers thread, ¬ LabelReserved (printedLabel j (thread.data j)) := by
  intro j hj
  obtain ⟨count, hcount⟩ := exists_eventCount hevents (thread.data j)
  have horigin := origin_of_countAt hevents hat hall (hrecovers.caliper j hj count hcount)
  rcases origin_caliper_cases hevents horigin rfl (unclosed_of_mem_eventCounts hevents hcount) with
    ⟨hnot, -⟩ | ⟨j', hj', hprocess', -⟩
  · exact hnot
  · exact absurd hprocess' (not_processReserved_of_recovers hevents hat hall hrecovers j' hj')

/-- What is read is not negative. -/
theorem nonneg_of_countAt (hat : AtThread start pid tid)
    (hall : ReadsAll (counterOutputs settings thread) start final) {field : Text} {value : ℤ}
    (hcount : final.countAt pid tid field = some (value : ℚ)) : 0 ≤ value := by
  have hrat : (0 : ℚ) ≤ (value : ℚ) := by
    cases origin_of_countAt hevents hat hall hcount <;> exact_mod_cast ‹_›
  exact_mod_cast hrat

/-- A file that is read back has no event named by one character. -/
theorem two_le_length_of_recovers (hat : AtThread start pid tid)
    (hall : ReadsAll (counterOutputs settings thread) start final)
    (hrecovers : Recovers settings.cfg thread pid tid start final) :
    ∀ name ∈ settings.cfg.eventnames, 2 ≤ name.length := by
  intro name hname
  rw [← map_fst_eventCounts settings.cfg (thread.data 0)] at hname
  obtain ⟨count, hcount, rfl⟩ := List.mem_map.mp hname
  exact origin_two_le_length
    (not_processReserved_of_recovers hevents hat hall hrecovers)
    (origin_of_countAt hevents hat hall (hrecovers.whole count hcount))

end

/-- Different keys need different events and different labels. -/
theorem distinct_of_nodup_threadKeys {cfg : Config} (h : (threadKeys cfg thread).Nodup) :
    cfg.eventnames.Nodup ∧
      ((usedCalipers thread).map fun j => printedLabel j (thread.data j)).Nodup ∧
      (usedCalipers thread ≠ [] → "Measurements".toList ∉ cfg.eventnames) := by
  have hmeasure : ∀ record, ("Measurements".toList, ⌊record.used⌋) ∈ caliperCounts cfg record :=
    fun record => List.mem_append_left _ (List.mem_append_left _ List.mem_cons_self)
  rw [threadKeys, caliperKeys, List.nodup_append, List.nodup_flatMap] at h
  obtain ⟨hwhole, ⟨heach, hdisjoint⟩, -⟩ := h
  refine ⟨?_, ?_, ?_⟩
  · rw [threadCounts, List.map_append, map_fst_eventCounts] at hwhole
    exact hwhole.sublist (List.sublist_append_right _ _)
  · refine List.pairwise_map.mpr (hdisjoint.imp ?_)
    intro j j' hdisjoint heq
    refine hdisjoint (List.mem_map.mpr ⟨_, hmeasure _, rfl⟩) (List.mem_map.mpr ⟨_, hmeasure _, ?_⟩)
    rw [heq]
  · intro hused hname
    obtain ⟨j, hj⟩ := List.exists_mem_of_ne_nil _ hused
    have hnodup : ((caliperCounts cfg (thread.data j)).map Prod.fst).Nodup := by
      have hmap : (((caliperCounts cfg (thread.data j)).map Prod.fst).map
          (caliperField (printedLabel j (thread.data j)))).Nodup := by
        rw [List.map_map]
        exact heach j hj
      exact hmap.of_map
    rw [caliperCounts, List.map_append, map_fst_eventCounts, List.nodup_append] at hnodup
    have hclock : "Measurements".toList ∈ (caliperClocks cfg (thread.data j)).map Prod.fst :=
      List.mem_map.mpr ⟨_, List.mem_append_left _ List.mem_cons_self, rfl⟩
    exact hnodup.2.2 _ hclock _ hname rfl

/-- **A file that is read back was readable.** -/
theorem readable_of_roundTrips (hevents : settings.cfg.EventsNamed)
    (hat : AtThread start pid tid) (h : RoundTrips settings thread pid tid start) :
    Readable settings.cfg thread := by
  obtain ⟨final, hrun, hrecovers⟩ := h
  have hnewlines : ∀ j ∈ usedCalipers thread, '\n' ∉ (thread.data j).label := by
    intro j hj
    exact newline_not_mem_labelmap (fun _ => not_mem_lines) hat.labels hrun
      (hrecovers.labelmap j hj)
  rw [lines_printCounters hevents.newline_not_mem hnewlines] at hrun
  have hall := readsAll_of_readLines
    (fun line h => (printedLine_of_mem h).matchHeader_eq_none) hat.pid_eq hrun
  obtain ⟨heventsDistinct, hlabelsDistinct, hmeasurements⟩ :=
    distinct_of_nodup_threadKeys hrecovers.distinct
  exact
    { counts := fun count hcount =>
        nonneg_of_countAt hevents hat hall (hrecovers.whole count hcount)
      caliperCounts := fun j hj count hcount =>
        nonneg_of_countAt hevents hat hall (hrecovers.caliper j hj count hcount)
      newlines := hnewlines
      label := not_labelReserved_of_recovers hevents hat hall hrecovers
      process := not_processReserved_of_recovers hevents hat hall hrecovers
      labelsDistinct := hlabelsDistinct
      eventsDistinct := heventsDistinct
      eventsLong := two_le_length_of_recovers hevents hat hall hrecovers
      measurements := hmeasurements }

/-! ## The exact condition -/

/-- **The count file of a thread round-trips exactly if the record is readable.** -/
theorem count_file_roundTrips_iff (settings : PrintSettings) (thread : PerthreadData)
    (hevents : settings.cfg.EventsNamed) (start : Report) (pid : Text) (tid : Option Text)
    (hat : AtThread start pid tid) :
    RoundTrips settings thread pid tid start ↔ Readable settings.cfg thread := by
  constructor
  · exact readable_of_roundTrips hevents hat
  · intro hread
    exact roundTrips_of_readable hevents hread hat

/-- One event, and a thread with one used caliper of this label. -/
def labelledSettings : PrintSettings where
  cfg :=
    { eventnames := ["PAPI_TOT_CYC".toList], fullCaliperData := false, noMpiProf := false,
      isMpied := false, noIoProf := false, noThreadsyncProf := false }
  multiplex := false
  mpxInterval := 10000
  wallclockUsecs := 1000

/-- A thread whose caliper 1 was used once under this label. -/
def labelledThread (label : Text) : PerthreadData where
  data := fun point =>
    if point = 1 then { label, used := 1, counters := fun _ => 700 }
    else { counters := fun _ => 5000 }

/-- The reader at thread 0 of process 42. -/
def atThreadZero : Report := { pid := some ['4', '2'], tid := some ['0'] }

theorem atThread_atThreadZero : AtThread atThreadZero ['4', '2'] (some ['0']) :=
  ⟨rfl, rfl, fun _ => rfl, fun _ _ h => by cases h⟩

theorem eventsNamed_labelledSettings : labelledSettings.cfg.EventsNamed :=
  ⟨by decide, by unfold IsWord; decide⟩

theorem readable_labelledThread :
    Readable labelledSettings.cfg (labelledThread "solve".toList) :=
  ⟨by decide, by decide, by decide, by decide, by decide, by decide, by decide, by decide,
    by decide⟩

/-- The file of a thread with a labelled caliper. -/
theorem count_file_roundTrips_labelled :
    labelledSettings.cfg.EventsNamed ∧ AtThread atThreadZero ['4', '2'] (some ['0']) ∧
      RoundTrips labelledSettings (labelledThread "solve".toList) ['4', '2'] (some ['0'])
        atThreadZero := by
  refine ⟨eventsNamed_labelledSettings, atThread_atThreadZero, ?_⟩
  rw [count_file_roundTrips_iff _ _ eventsNamed_labelledSettings _ _ _ atThread_atThreadZero]
  exact readable_labelledThread

/-- A caliper labelled `PROCESS` is not read back: its lines are taken for lines about
the whole process. -/
theorem count_file_label_process :
    ¬ RoundTrips labelledSettings (labelledThread "PROCESS".toList) ['4', '2'] (some ['0'])
      atThreadZero := by
  intro h
  have hread := readable_of_roundTrips eventsNamed_labelledSettings atThread_atThreadZero h
  exact hread.process 1 (by decide) (by decide)

end Papiex
