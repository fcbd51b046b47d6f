import Papiex.Report.Fields

/-!
# How the reader takes the printed lines

`print_counters` prints the wallclock time, the quantities of the thread, and for
every used caliper its label and its quantities.  Each count that the reader ends
up with has one of these lines for its origin.

## Main results

* `PrintedLine.origin`: a count that is read comes from one of the printed lines.
* `lines_printCounters`: the lines of `print_counters`.

## Design notes

The origin of a count is a relation with one constructor for each kind of line that is read
as a count.  It says where a printed quantity goes, and it is complete: a count that no
constructor gives was not read.  The round trip, the totals and the comparison of the two
readers all go by it.
-/

namespace Papiex

open Chars Report

/-! ## The lines of `print_counters` -/

variable {settings : PrintSettings} {thread : PerthreadData} {tid : Option Text} {line : Text}

/-- A line of `print_counters`.  The silent ones are empty or belong to the warning. -/
inductive PrintedLine (settings : PrintSettings) (thread : PerthreadData) : Text → Prop
  | silent {line : Text} (hheader : matchHeader line = none) (hnumber : matchNumber line = none) :
      PrintedLine settings thread line
  | wallclock : PrintedLine settings thread (wallclockLine settings)
  | whole {count : Text × ℤ} (hcount : count ∈ threadCounts settings.cfg thread) :
      PrintedLine settings thread (countLine count.2 count.1)
  | label {j : ℕ} (hj : j ∈ usedCalipers thread) :
      PrintedLine settings thread (countLine j (labelMarker ++ (thread.data j).label))
  | caliper {j : ℕ} {count : Text × ℤ} (hj : j ∈ usedCalipers thread)
      (hcount : count ∈ caliperCounts settings.cfg (thread.data j)) :
      PrintedLine settings thread (caliperLine (printedLabel j (thread.data j)) count)

theorem mem_fixed2 {x : ℚ} {c : Char} (h : c ∈ fixed2 x) :
    c.isDigit = true ∨ c = '.' ∨ c = '-' ∨ c = ' ' := by
  have hdigits : ∀ hundredths : ℤ, c ∈ decimal (hundredths.natAbs / 100) ++
      '.' :: (decimal (hundredths.natAbs / 10 % 10) ++ decimal (hundredths.natAbs % 10)) →
      c.isDigit = true ∨ c = '.' := by
    intro hundredths hmem
    rcases List.mem_append.mp hmem with hwhole | hfrac
    · exact .inl (isDigit_of_mem_decimal hwhole)
    · rcases List.mem_cons.mp hfrac with hpoint | hfrac
      · exact .inr hpoint
      · rcases List.mem_append.mp hfrac with hfrac | hfrac <;>
          exact .inl (isDigit_of_mem_decimal hfrac)
  unfold fixed2 at h
  dsimp only at h
  rcases List.mem_append.mp h with hblank | htext
  · exact .inr (.inr (.inr (List.eq_of_mem_replicate hblank)))
  · split at htext
    · rcases List.mem_cons.mp htext with hminus | htext
      · exact .inr (.inr (.inl hminus))
      · rcases hdigits _ htext with hdigit | hpoint
        · exact .inl hdigit
        · exact .inr (.inl hpoint)
    · rcases hdigits _ htext with hdigit | hpoint
      · exact .inl hdigit
      · exact .inr (.inl hpoint)

/-- A number has neither a colon nor a newline in it. -/
theorem not_mem_fixed2 {x : ℚ} {c : Char} (h : c = ':' ∨ c = '\n') : c ∉ fixed2 x := by
  intro hmem
  rcases h with rfl | rfl <;> simpa using mem_fixed2 hmem

theorem head_not_isNumberChar {c : Char} (h : isNumberChar c = false) (rest : Text) :
    ∀ first ∈ (c :: rest).head?, isNumberChar first = false := by
  rintro first hfirst
  cases hfirst
  exact h

/-- The warning starts no line with a number and has no colon. -/
theorem mem_mpxWarning (h : line ∈ mpxWarning settings thread) :
    (∀ c ∈ line.head?, isNumberChar c = false) ∧ ':' ∉ line ∧ '\n' ∉ line := by
  have hsigned : ∀ {n : ℤ} {c : Char}, c = ':' ∨ c = '\n' → c ∉ signed n := by
    rintro n c (rfl | rfl) <;> exact not_mem_signed (by decide) (by decide)
  unfold mpxWarning at h
  split at h
  · simp only [List.mem_cons, List.not_mem_nil, or_false] at h
    rcases h with rfl | rfl | rfl | rfl | rfl | rfl | rfl | rfl
    · decide
    · decide
    · exact ⟨head_not_isNumberChar (by decide) _, by simp [not_mem_fixed2],
        by simp [not_mem_fixed2]⟩
    · exact ⟨head_not_isNumberChar (by decide) _, by simp [not_mem_fixed2, hsigned],
        by simp [not_mem_fixed2, hsigned]⟩
    · decide
    · exact ⟨head_not_isNumberChar (by decide) _, by simp [hsigned], by simp [hsigned]⟩
    · decide
    · decide
  · cases h

/-- The fields of the counters are the names of the events, in order. -/
theorem map_fst_eventCounts (cfg : Config) (record : CaliperData) :
    (eventCounts cfg record).map Prod.fst = cfg.eventnames := by
  apply List.ext_getElem <;> simp [eventCounts]

theorem map_ite_sublist {α β : Type} (f : α → β) (test : Bool) (l : List α) :
    ((if test then l else []).map f).Sublist (l.map f) := by
  cases test with
  | true => exact List.Sublist.refl _
  | false => exact List.nil_sublist _

/-- The names of the quantities of a whole run besides the events. -/
def clockNames : List Text :=
  ["Real usecs", "Real cycles", "Virtual usecs", "Virtual cycles", "MPI cycles",
    "MPI Sync cycles", "IO cycles", "Thr Sync cycles"].map String.toList

/-- The fields of the clocks are some of these names, in order. -/
theorem threadClocks_sublist (cfg : Config) (thread : PerthreadData) :
    ((threadClocks cfg thread).map Prod.fst).Sublist clockNames := by
  rw [threadClocks, List.map_append, List.map_append, List.map_append]
  exact (((List.Sublist.refl _).append (map_ite_sublist _ _ _)).append
    (map_ite_sublist _ _ _)).append (map_ite_sublist _ _ _)

/-- The fields of the clocks of a caliper are some of papiex's own, in order. -/
theorem caliperClocks_sublist (cfg : Config) (record : CaliperData) :
    ((caliperClocks cfg record).map Prod.fst).Sublist ownNames := by
  rw [caliperClocks, List.map_append]
  refine (List.Sublist.refl _).append ((map_ite_sublist _ _ _).trans ?_)
  rw [List.map_append, List.map_append, List.map_append]
  exact (((List.Sublist.refl _).append (map_ite_sublist _ _ _)).append
    (map_ite_sublist _ _ _)).append (map_ite_sublist _ _ _)

/-- What is printed for a thread is named by `print_counters` or is an event. -/
theorem mem_threadCounts {cfg : Config} {count : Text × ℤ} (h : count ∈ threadCounts cfg thread) :
    count.1 ∈ ownNames ∨ count ∈ eventCounts cfg (thread.data 0) := by
  have hown : clockNames ⊆ ownNames := by decide
  rcases List.mem_append.mp h with hclock | hevent
  · exact .inl (hown ((threadClocks_sublist cfg thread).subset (List.mem_map_of_mem hclock)))
  · exact .inr hevent

/-- What is printed for a caliper is named by `print_counters` or is an event. -/
theorem mem_caliperCounts {cfg : Config} {record : CaliperData} {count : Text × ℤ}
    (h : count ∈ caliperCounts cfg record) :
    count.1 ∈ ownNames ∨ count ∈ eventCounts cfg record := by
  rcases List.mem_append.mp h with hclock | hevent
  · exact .inl ((caliperClocks_sublist cfg record).subset (List.mem_map_of_mem hclock))
  · exact .inr hevent

theorem mem_eventnames_of_mem_eventCounts {cfg : Config} {record : CaliperData} {count : Text × ℤ}
    (h : count ∈ eventCounts cfg record) : count.1 ∈ cfg.eventnames := by
  rw [← map_fst_eventCounts cfg record]
  exact List.mem_map_of_mem h

section

variable (hevents : settings.cfg.EventsNamed)

include hevents

/-- What is printed of a caliper can be a quantity. -/
theorem quantity_of_mem_caliperCounts {record : CaliperData} {count : Text × ℤ}
    (h : count ∈ caliperCounts settings.cfg record) : Quantity count.1 := by
  rcases mem_caliperCounts h with hown | hevent
  · exact quantity_of_mem_ownNames hown
  · exact (hevents.word _ (mem_eventnames_of_mem_eventCounts hevent)).quantity

theorem legible_of_mem_threadCounts {count : Text × ℤ}
    (h : count ∈ threadCounts settings.cfg thread) : Legible count.1 := by
  rcases mem_threadCounts h with hown | hevent
  · exact (quantity_of_mem_ownNames hown).legible
  · exact (hevents.word _ (mem_eventnames_of_mem_eventCounts hevent)).quantity.legible

/-- What is printed of the thread is not taken for a caliper. -/
theorem not_bracketed_of_mem_threadCounts {count : Text × ℤ}
    (h : count ∈ threadCounts settings.cfg thread) : ¬ Bracketed count.1 := by
  rcases mem_threadCounts h with hown | hevent
  · exact not_bracketed_of_mem_ownNames hown
  · exact (hevents.word _ (mem_eventnames_of_mem_eventCounts hevent)).not_bracketed

end

/-- **The text is made of printed lines.** -/
theorem printedLine_of_mem (h : line ∈ counterOutputs settings thread) :
    PrintedLine settings thread line := by
  rw [counterOutputs, List.mem_append, List.mem_append] at h
  rcases h with (hwarning | hcount) | hcaliper
  · obtain ⟨hhead, hcolon, -⟩ := mem_mpxWarning hwarning
    exact .silent (matchHeader_of_not_mem hcolon) (matchNumber_of_not_isNumberChar hhead)
  · rcases List.mem_cons.mp hcount with rfl | hcount
    · exact .wallclock
    · obtain ⟨count, hmem, rfl⟩ := List.mem_map.mp hcount
      exact .whole hmem
  · obtain ⟨j, hj, hline⟩ := List.mem_flatMap.mp hcaliper
    simp only [caliperLines, List.mem_cons] at hline
    rcases hline with rfl | rfl | hline
    · exact .silent (matchHeader_of_not_mem (by simp))
        (matchNumber_of_not_isNumberChar (by simp))
    · exact .label hj
    · obtain ⟨count, hmem, rfl⟩ := List.mem_map.mp hline
      exact .caliper hj hmem

theorem mem_counterOutputs_whole {count : Text × ℤ}
    (hcount : count ∈ threadCounts settings.cfg thread) :
    countLine count.2 count.1 ∈ counterOutputs settings thread := by
  have hmem := List.mem_map_of_mem (f := fun count : Text × ℤ => countLine count.2 count.1) hcount
  rw [counterOutputs]
  exact List.mem_append_left _ (List.mem_append_right _ (List.mem_cons_of_mem _ hmem))

/-- The label of each caliper that was used is printed. -/
theorem mem_counterOutputs_label {j : ℕ} (hj : j ∈ usedCalipers thread) :
    countLine j (labelMarker ++ (thread.data j).label) ∈ counterOutputs settings thread := by
  rw [counterOutputs]
  refine List.mem_append_right _ (List.mem_flatMap.mpr ⟨j, hj, ?_⟩)
  exact List.mem_cons_of_mem _ List.mem_cons_self

/-- The counts of each caliper that was used are printed. -/
theorem mem_counterOutputs_caliper {j : ℕ} {count : Text × ℤ} (hj : j ∈ usedCalipers thread)
    (hcount : count ∈ caliperCounts settings.cfg (thread.data j)) :
    caliperLine (printedLabel j (thread.data j)) count ∈ counterOutputs settings thread := by
  rw [counterOutputs]
  refine List.mem_append_right _ (List.mem_flatMap.mpr ⟨j, hj, ?_⟩)
  exact List.mem_cons_of_mem _ (List.mem_cons_of_mem _ (List.mem_map_of_mem hcount))

/-- No line of `print_counters` is taken for a header line. -/
theorem PrintedLine.matchHeader_eq_none (h : PrintedLine settings thread line) :
    matchHeader line = none := by
  cases h with
  | silent hheader _ => exact hheader
  | wallclock => exact matchHeader_countLine _ _
  | whole _ => exact matchHeader_countLine _ _
  | label _ => exact matchHeader_countLine _ _
  | caliper _ _ => exact matchHeader_countLine _ _

/-- **Where a count comes from that has been read.**  A caliper whose label is taken
for the marker of the process loses its count to another key. -/
inductive Origin (settings : PrintSettings) (thread : PerthreadData) (tid : Option Text) :
    Option Text → Text → ℚ → Prop
  | wallclock (hsign : 0 ≤ settings.wallclockUsecs) :
      Origin settings thread tid none "Wallclock usecs".toList settings.wallclockUsecs
  | whole {count : Text × ℤ} (hcount : count ∈ threadCounts settings.cfg thread)
      (hsign : 0 ≤ count.2) (hlong : 2 ≤ count.1.length) :
      Origin settings thread tid tid count.1 count.2
  | caliper {j : ℕ} {count : Text × ℤ} (hj : j ∈ usedCalipers thread)
      (hcount : count ∈ caliperCounts settings.cfg (thread.data j)) (hsign : 0 ≤ count.2)
      (hlabel : ¬ LabelReserved (printedLabel j (thread.data j)))
      (hprocess : ¬ ProcessReserved (printedLabel j (thread.data j))) :
      Origin settings thread tid tid (caliperField (printedLabel j (thread.data j)) count.1)
        count.2
  | marked {j : ℕ} {count : Text × ℤ} {field : Text} (hj : j ∈ usedCalipers thread)
      (hcount : count ∈ caliperCounts settings.cfg (thread.data j)) (hsign : 0 ≤ count.2)
      (hprocess : ProcessReserved (printedLabel j (thread.data j)))
      (hfield : dropPrefixNoCase processMarker
        (caliperField (printedLabel j (thread.data j)) count.1) = some field) :
      Origin settings thread tid none field count.2

theorem legible_wallclock : Legible (processMarker ++ "Wallclock usecs".toList) :=
  ⟨by decide, by decide⟩

/-- The wall clock time is stored for the process. -/
theorem markedCount_wallclock (val : ℚ) :
    markedCount tid (processMarker ++ "Wallclock usecs".toList) val =
      (none, "Wallclock usecs".toList, val) := by
  unfold markedCount
  rw [dropPrefixNoCase_append]

theorem two_le_length_caliperField (label : Text) {quantity : Text} :
    2 ≤ (caliperField label quantity).length := by
  simp [caliperField]
  omega

/-- The label of a caliper is read back, with its index. -/
theorem matchLabel_labelLine (j : ℕ) (label : Text) :
    matchLabel (countLine j (labelMarker ++ label)) = some (decimal j, label) := by
  have hhead : ∀ c ∈ (labelMarker ++ label).head?, isSpace c = false := by
    intro c hc
    obtain rfl : '[' = c := Option.some.inj hc
    decide
  rw [matchLabel_countLine (Int.natCast_nonneg j) hhead, dropPrefix_append]
  rfl

/-- What the report stores of the line of the wall clock time. -/
theorem countWritten_wallclock (hsign : 0 ≤ settings.wallclockUsecs) :
    countWritten tid (wallclockLine settings) =
      some (none, "Wallclock usecs".toList, (settings.wallclockUsecs : ℚ)) := by
  rw [wallclockLine, countWritten_countLine hsign tid legible_wallclock, if_pos (by decide),
    markedCount_wallclock]

section

variable (hevents : settings.cfg.EventsNamed)

include hevents

/-- What the report stores of a count of the thread: all but fields of one character. -/
theorem countWritten_whole {count : Text × ℤ} (hcount : count ∈ threadCounts settings.cfg thread)
    (hsign : 0 ≤ count.2) :
    countWritten tid (countLine count.2 count.1) =
      if 2 ≤ count.1.length then some (tid, count.1, (count.2 : ℚ)) else none := by
  have hplain := not_bracketed_of_mem_threadCounts hevents hcount
  rw [countWritten_countLine hsign tid (legible_of_mem_threadCounts hevents hcount),
    markedCount_of_not_bracketed hplain,
    dropPrefix_eq_none_iff.mpr (mt bracketed_of_labelMarker hplain)]
  simp

/-- What the report stores of a count of a caliper, unless it is taken for a label. -/
theorem countWritten_caliper {j : ℕ} {count : Text × ℤ}
    (hcount : count ∈ caliperCounts settings.cfg (thread.data j)) (hsign : 0 ≤ count.2)
    (label : Text) :
    countWritten tid (caliperLine label count) =
      if dropPrefix labelMarker (caliperField label count.1) = none then
        some (markedCount tid (caliperField label count.1) count.2)
      else none := by
  have hlegible := legible_caliperField label (quantity_of_mem_caliperCounts hevents hcount)
  rw [caliperLine, countWritten_countLine hsign tid hlegible]
  simp [two_le_length_caliperField]

/-- The labels that are read: the ones that are printed as such, and the ones that
reserved labels fake. -/
theorem PrintedLine.label_cases (h : PrintedLine settings thread line) {number label : Text}
    (hread : matchLabel line = some (number, label)) :
    ∃ j ∈ usedCalipers thread,
      (number = decimal j ∧ label = (thread.data j).label) ∨
        LabelReserved (printedLabel j (thread.data j)) := by
  cases h with
  | silent _ hnumber =>
      unfold matchLabel at hread
      rw [hnumber] at hread
      cases hread
  | wallclock =>
      by_cases hsign : 0 ≤ settings.wallclockUsecs
      · rw [wallclockLine, matchLabel_countLine hsign legible_wallclock.head,
          show dropPrefix labelMarker (processMarker ++ "Wallclock usecs".toList) = none by decide]
          at hread
        cases hread
      · rw [wallclockLine, matchLabel_countLine_of_neg (not_le.mp hsign)] at hread
        cases hread
  | @whole count hcount =>
      by_cases hsign : 0 ≤ count.2
      · have hplain := not_bracketed_of_mem_threadCounts hevents hcount
        rw [matchLabel_countLine hsign (legible_of_mem_threadCounts hevents hcount).head,
          dropPrefix_eq_none_iff.mpr (mt bracketed_of_labelMarker hplain)] at hread
        cases hread
      · rw [matchLabel_countLine_of_neg (not_le.mp hsign)] at hread
        cases hread
  | @label j hj =>
      rw [matchLabel_labelLine, Option.some.injEq, Prod.mk.injEq] at hread
      exact ⟨j, hj, .inl ⟨hread.1.symm, hread.2.symm⟩⟩
  | @caliper j count hj hcount =>
      refine ⟨j, hj, .inr ?_⟩
      by_contra hnot
      by_cases hsign : 0 ≤ count.2
      · have hlegible := legible_caliperField (printedLabel j (thread.data j))
          (quantity_of_mem_caliperCounts hevents hcount)
        rw [caliperLine, matchLabel_countLine hsign hlegible.head,
          dropPrefix_caliperField.mpr hnot] at hread
        cases hread
      · rw [caliperLine, matchLabel_countLine_of_neg (not_le.mp hsign)] at hread
        cases hread

/-- **A count that has been read was printed.** -/
theorem PrintedLine.origin (h : PrintedLine settings thread line) {level : Option Text}
    {field : Text} {val : ℚ} (hwritten : countWritten tid line = some (level, field, val)) :
    Origin settings thread tid level field val := by
  cases h with
  | silent _ hnumber =>
      have hnone : matchCount line = none := by
        unfold matchCount
        rw [hnumber]
      simp only [countWritten, hnone, Option.map_none, ite_self] at hwritten
      cases hwritten
  | wallclock =>
      by_cases hsign : 0 ≤ settings.wallclockUsecs
      · rw [countWritten_wallclock hsign] at hwritten
        cases hwritten
        exact .wallclock hsign
      · rw [wallclockLine, countWritten_countLine_of_neg (not_le.mp hsign)] at hwritten
        cases hwritten
  | @whole count hcount =>
      by_cases hsign : 0 ≤ count.2
      · rw [countWritten_whole hevents hcount hsign] at hwritten
        -- a name of one character is printed and not read
        split at hwritten
        · cases hwritten
          exact .whole hcount hsign ‹_›
        · cases hwritten
      · rw [countWritten_countLine_of_neg (not_le.mp hsign)] at hwritten
        cases hwritten
  | @label j hj =>
      rw [countWritten_of_label tid (matchLabel_labelLine j _)] at hwritten
      cases hwritten
  | @caliper j count hj hcount =>
      by_cases hsign : 0 ≤ count.2
      · rw [countWritten_caliper hevents hcount hsign] at hwritten
        split at hwritten
        · rename_i hnone
          have hlabel := dropPrefix_caliperField.mp hnone
          rw [Option.some.injEq, markedCount] at hwritten
          cases hmarked : dropPrefixNoCase processMarker
              (caliperField (printedLabel j (thread.data j)) count.1) with
          | none =>
              rw [hmarked] at hwritten
              cases hwritten
              exact .caliper hj hcount hsign hlabel (dropPrefixNoCase_caliperField.mp hmarked)
          | some stripped =>
              -- the label fakes the marker, so the count goes to the process
              have hprocess : ProcessReserved (printedLabel j (thread.data j)) := by
                by_contra hnot
                rw [dropPrefixNoCase_caliperField.mpr hnot] at hmarked
                cases hmarked
              rw [hmarked] at hwritten
              cases hwritten
              exact .marked hj hcount hsign hprocess hmarked
        · cases hwritten
      · rw [caliperLine, countWritten_countLine_of_neg (not_le.mp hsign)] at hwritten
        cases hwritten

end

/-! ## Newlines -/

theorem newline_not_mem_countLine {value : ℤ} {field : Text} (h : '\n' ∉ field) :
    '\n' ∉ countLine value field := by
  intro hmem
  rcases List.mem_append.mp hmem with hvalue | hfield
  · rcases mem_padRight hvalue with hsigned | hblank
    · exact not_mem_signed (by decide) (by decide) hsigned
    · exact absurd hblank (by decide)
  · rcases List.mem_cons.mp hfield with hblank | hfield
    · exact absurd hblank (by decide)
    · exact h hfield

theorem newline_not_mem_printedLabel {j : ℕ} {record : CaliperData} (h : '\n' ∉ record.label) :
    '\n' ∉ printedLabel j record := by
  unfold printedLabel
  split
  · exact not_mem_decimal (by decide)
  · exact h

theorem newline_not_mem_caliperField {label quantity : Text} (hlabel : '\n' ∉ label)
    (hquantity : '\n' ∉ quantity) : '\n' ∉ caliperField label quantity := by
  simp [caliperField, hlabel, hquantity]

/-- Names and labels without newlines make the outputs lines. -/
theorem newline_not_mem_counterOutputs
    (hnames : ∀ name ∈ settings.cfg.eventnames, '\n' ∉ name)
    (hlabels : ∀ j ∈ usedCalipers thread, '\n' ∉ (thread.data j).label)
    (h : line ∈ counterOutputs settings thread) : '\n' ∉ line := by
  have hown : ∀ name ∈ ownNames, '\n' ∉ name := by decide
  rw [counterOutputs, List.mem_append, List.mem_append] at h
  rcases h with (hwarning | hcount) | hcaliper
  · exact (mem_mpxWarning hwarning).2.2
  · rcases List.mem_cons.mp hcount with rfl | hcount
    · exact newline_not_mem_countLine (by decide)
    · obtain ⟨count, hmem, rfl⟩ := List.mem_map.mp hcount
      apply newline_not_mem_countLine
      rcases mem_threadCounts hmem with hname | hevent
      · exact hown _ hname
      · exact hnames _ (mem_eventnames_of_mem_eventCounts hevent)
  · obtain ⟨j, hj, hline⟩ := List.mem_flatMap.mp hcaliper
    simp only [caliperLines, List.mem_cons] at hline
    rcases hline with rfl | rfl | hline
    · simp
    · apply newline_not_mem_countLine
      rw [List.mem_append, not_or]
      exact ⟨by decide, hlabels j hj⟩
    · obtain ⟨count, hmem, rfl⟩ := List.mem_map.mp hline
      apply newline_not_mem_countLine
      apply newline_not_mem_caliperField (newline_not_mem_printedLabel (hlabels j hj))
      rcases mem_caliperCounts hmem with hname | hevent
      · exact hown _ hname
      · exact hnames _ (mem_eventnames_of_mem_eventCounts hevent)

/-- Reading the text back is reading the outputs one by one. -/
theorem lines_printCounters (hnames : ∀ name ∈ settings.cfg.eventnames, '\n' ∉ name)
    (hlabels : ∀ j ∈ usedCalipers thread, '\n' ∉ (thread.data j).label) :
    lines (printCounters settings thread) = counterOutputs settings thread :=
  lines_unlines fun _ h => newline_not_mem_counterOutputs hnames hlabels h

end Papiex
