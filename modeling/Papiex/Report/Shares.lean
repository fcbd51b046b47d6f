import Papiex.Report.Variation
import Papiex.Report.RoundTrip

/-!
# The percentages of calipers

`print_single_level` prints behind the count of a caliper what percentage it is of the
count of the whole run at the same level.  It knows a caliper by the number in the
brackets of its field, but `print_counters` puts the label there if there is one.

## Main results

* `printedShare_eq`: the percentage on the line of a field.
* `caliper_percentage_iff`: when it is the share of the caliper in the whole.

## Design notes

Printing a line may cut a percentage in the hash that later lines are compared with, so what
is found for the whole run depends on which line comes first; the lines come in the order of
their names.  A label that is a number is taken for the index of a caliper.  With any other
label there is something to compare with only if it begins like the field of another caliper.
-/

namespace Papiex

open Chars

/-- The percentage that is printed on the line of a field. -/
def printedShare (ntasks : ℕ) (totals : Totals) (field : Text) : Option ℚ := do
  let line ← (printCounts ntasks totals).find? fun line => line.field = field
  line.share

/-! ## The hash while the lines are printed -/

/-- What the printing of one line changes in the hash. -/
def cutCount (counts : Hash ℚ) (field : Text) : Hash ℚ :=
  if isText field then counts
  else
    match counts.lookup field with
    | none => counts
    | some count => counts.insert field (cappedValue field count)

theorem cappedValue_cappedValue (field : Text) (val : ℚ) :
    cappedValue field (cappedValue field val) = cappedValue field val := by
  unfold cappedValue
  by_cases h : (isPercent field && decide (100 < val)) = true
  · rw [if_pos h]
    exact ite_self _
  · rw [if_neg h, if_neg h]

theorem cappedValue_pos {field : Text} {val : ℚ} (h : 0 < val) : 0 < cappedValue field val := by
  unfold cappedValue
  split
  · norm_num
  · exact h

/-- Printing a field cuts its own count, in the hash. -/
theorem lookup_cutCount (counts : Hash ℚ) (field other : Text) :
    (cutCount counts field).lookup other =
      if other = field ∧ isText other = false then (counts.lookup other).map (cappedValue other)
      else counts.lookup other := by
  unfold cutCount
  by_cases htext : isText field = true
  · rw [if_pos htext, if_neg]
    rintro ⟨rfl, hnot⟩
    rw [htext] at hnot
    cases hnot
  · rw [if_neg htext]
    by_cases hother : other = field
    · subst hother
      rw [if_pos ⟨rfl, Bool.eq_false_iff.mpr htext⟩]
      cases hcount : counts.lookup other with
      | none => exact hcount
      | some count => exact AList.lookup_insert _
    · rw [if_neg fun h => hother h.1]
      cases counts.lookup field with
      | none => rfl
      | some count => exact AList.lookup_insert_ne hother

/-- The fields whose lines are printed are cut. -/
theorem lookup_foldl_cutCount (counts : Hash ℚ) (front : List Text) (other : Text) :
    (front.foldl cutCount counts).lookup other =
      if other ∈ front ∧ isText other = false then (counts.lookup other).map (cappedValue other)
      else counts.lookup other := by
  induction front generalizing counts with
  | nil => simp
  | cons field front ih =>
      have htwice : ∀ count : Option ℚ, (count.map (cappedValue other)).map (cappedValue other) =
          count.map (cappedValue other) := by
        intro count
        cases count with
        | none => rfl
        | some count => exact congrArg some (cappedValue_cappedValue other count)
      rw [List.foldl_cons, ih, lookup_cutCount]
      by_cases htext : isText other = false
      · by_cases hother : other = field <;> by_cases hmem : other ∈ front
        · rw [if_pos ⟨hmem, htext⟩, if_pos ⟨hother, htext⟩, htwice,
            if_pos ⟨List.mem_cons.mpr (.inl hother), htext⟩]
        · rw [if_neg fun h => hmem h.1, if_pos ⟨hother, htext⟩,
            if_pos ⟨List.mem_cons.mpr (.inl hother), htext⟩]
        · rw [if_pos ⟨hmem, htext⟩, if_neg fun h => hother h.1,
            if_pos ⟨List.mem_cons.mpr (.inr hmem), htext⟩]
        · rw [if_neg fun h => hmem h.1, if_neg fun h => hother h.1,
            if_neg fun h => (List.mem_cons.mp h.1).elim hother hmem]
      · rw [if_neg fun h => htext h.2, if_neg fun h => htext h.2, if_neg fun h => htext h.2]

/-- The later fields are printed with the counts that were cut. -/
theorem countLines_append (ntasks : ℕ) (stats : Hash FieldStats) (counts : Hash ℚ)
    (front rest : List Text) :
    countLines ntasks stats counts (front ++ rest) =
      countLines ntasks stats counts front ++
        countLines ntasks stats (front.foldl cutCount counts) rest := by
  induction front generalizing counts with
  | nil => rfl
  | cons field front ih =>
      rw [List.cons_append, List.foldl_cons, countLines, countLines, cutCount]
      by_cases htext : isText field = true
      · simp only [htext, if_true]
        exact ih counts
      · simp only [htext, if_false, Bool.false_eq_true]
        cases counts.lookup field with
        | none => exact ih counts
        | some count =>
            dsimp only
            rw [ih]
            rfl

/-- The count that the hash holds for a field when the line of another one is printed: if
its own line has come before, a percentage is cut already. -/
def heldCount (counts : Hash ℚ) (line field : Text) : Option ℚ :=
  if field ≤ line ∧ isText field = false then (counts.lookup field).map (cappedValue field)
  else counts.lookup field

/-! ## The percentage of a field -/

/-- The field of a caliper is longer than its event. -/
theorem length_lt_of_caliperBase {field base : Text} (h : caliperBase field = some base) :
    base.length < field.length := by
  unfold caliperBase at h
  split at h
  · split_ifs at h
    rename_i rest hdigits
    have hrest := dropPrefix_eq_some_iff.mp h
    have hlength := congrArg List.length hrest
    have hdrop := (List.dropWhile_suffix (l := rest) Char.isDigit).length_le
    simp only [List.length_append] at hlength
    rw [List.length_cons]
    omega
  · cases h

theorem isText_of_caliperBase {field base : Text} (h : caliperBase field = some base) :
    isText field = false := by
  unfold caliperBase at h
  split at h
  · rfl
  · cases h

/-- The fields of a level in the order of their lines. -/
def shownFields (counts : Hash ℚ) : List Text :=
  counts.keys.mergeSort fun field other => decide (field ≤ other)

theorem shownFields_nodup (counts : Hash ℚ) : (shownFields counts).Nodup :=
  (List.mergeSort_perm _ _).nodup_iff.mpr (AList.keys_nodup counts)

/-- The fields that come before a field are those that are less. -/
theorem mem_front_iff {counts : Hash ℚ} {front rest : List Text} {field other : Text}
    (hsplit : shownFields counts = front ++ field :: rest) (hother : other ∈ counts.keys)
    (hne : other ≠ field) : other ∈ front ↔ other ≤ field := by
  have htrans : ∀ a b c : Text, decide (a ≤ b) = true → decide (b ≤ c) = true →
      decide (a ≤ c) = true := fun a b c hab hbc =>
    decide_eq_true (le_trans (of_decide_eq_true hab) (of_decide_eq_true hbc))
  have htotal : ∀ a b : Text, (decide (a ≤ b) || decide (b ≤ a)) = true := fun a b => by
    simpa using le_total a b
  have hsorted : (shownFields counts).Pairwise fun a b => decide (a ≤ b) = true :=
    List.pairwise_mergeSort htrans htotal _
  rw [hsplit, List.pairwise_append] at hsorted
  have hmem : other ∈ front ++ field :: rest := by
    rw [← hsplit, shownFields, List.mem_mergeSort]
    exact hother
  constructor
  · intro hfront
    exact of_decide_eq_true (p := other ≤ field)
      (hsorted.2.2 other hfront field List.mem_cons_self)
  · intro hle
    rcases List.mem_append.mp hmem with hfront | hlast
    · exact hfront
    · have hrest := (List.mem_cons.mp hlast).resolve_left hne
      have hge := of_decide_eq_true (p := field ≤ other)
        ((List.pairwise_cons.mp hsorted.2.1).1 other hrest)
      exact absurd (le_antisymm hle hge) hne

/-- **The percentage on the line of a field.** -/
theorem printedShare_eq (ntasks : ℕ) (totals : Totals) {field base : Text} {count : ℚ}
    (hcount : totals.counts.lookup field = some count) (hbase : caliperBase field = some base) :
    printedShare ntasks totals field =
      (heldCount totals.counts field base).bind fun whole =>
        if 0 < cappedValue field count ∧ 0 < whole then
          some (100 * cappedValue field count / whole)
        else none := by
  have hfield : field ∈ shownFields totals.counts := by
    rw [shownFields, List.mem_mergeSort]
    exact AList.lookup_isSome.mp (by rw [hcount]; rfl)
  obtain ⟨front, rest, hsplit⟩ := List.append_of_mem hfield
  have hnodup := shownFields_nodup totals.counts
  rw [hsplit] at hnodup
  have hnew : field ∉ front := fun h =>
    (List.nodup_append.mp hnodup).2.2 field h field List.mem_cons_self rfl
  have hne : base ≠ field := by
    rintro rfl
    exact lt_irrefl _ (length_lt_of_caliperBase hbase)
  -- the line of the field is the first one after those of the fields before it
  have hbefore : (countLines ntasks totals.stats totals.counts front).find?
      (fun line => line.field = field) = none := by
    rw [List.find?_eq_none]
    intro line hline
    rw [decide_eq_true_eq]
    rintro rfl
    exact hnew (field_of_mem_countLines hline).1
  have hheld : (front.foldl cutCount totals.counts).lookup field = some count := by
    rw [lookup_foldl_cutCount, if_neg fun h => hnew h.1, hcount]
  have hlookup : ((front.foldl cutCount totals.counts).insert field
      (cappedValue field count)).lookup base = heldCount totals.counts field base := by
    rw [AList.lookup_insert_ne hne, lookup_foldl_cutCount, heldCount]
    by_cases hmem : base ∈ totals.counts.keys
    · exact if_congr (and_congr_left' (mem_front_iff hsplit hmem hne)) rfl rfl
    · have hnone : totals.counts.lookup base = none := AList.lookup_eq_none.mpr hmem
      simp [hnone]
  have hprinted : printCounts ntasks totals =
      countLines ntasks totals.stats totals.counts (shownFields totals.counts) := rfl
  rw [printedShare, hprinted, hsplit, countLines_append, List.find?_append, hbefore,
    Option.none_or, countLines, if_neg (by rw [isText_of_caliperBase hbase]; decide), hheld]
  dsimp only
  rw [List.find?_cons_of_pos (by simp)]
  simp only [Option.bind_eq_bind, Option.bind_some, caliperShare, hbase, hlookup]

/-- The percentage is taken of the counts at that moment. -/
theorem share_of_mem_countLines {ntasks : ℕ} {stats : Hash FieldStats} {counts : Hash ℚ}
    {fields : List Text} {line : CountLine} (h : line ∈ countLines ntasks stats counts fields) :
    ∃ held, line.share = caliperShare held line.field line.val := by
  induction fields generalizing counts with
  | nil => cases h
  | cons field fields ih =>
      rw [countLines] at h
      split at h
      · exact ih h
      · split at h
        · exact ih h
        · rcases List.mem_cons.mp h with rfl | hrest
          · exact ⟨_, rfl⟩
          · exact ih hrest

/-- A field that is not taken for one of a caliper has no percentage. -/
theorem printedShare_eq_none (ntasks : ℕ) (totals : Totals) {field : Text}
    (hbase : caliperBase field = none) : printedShare ntasks totals field = none := by
  unfold printedShare
  cases hfind : (printCounts ntasks totals).find? fun line => line.field = field with
  | none => rfl
  | some line =>
      obtain ⟨held, hshare⟩ := share_of_mem_countLines (List.mem_of_find?_eq_some hfind)
      have hfield : line.field = field := by simpa using List.find?_some hfind
      simp only [Option.bind_eq_bind, Option.bind_some, hshare, hfield, caliperShare, hbase,
        Option.bind_none]

/-! ## The fields of calipers -/

/-- A field is one of a caliper if there is a number in its brackets. -/
theorem caliperBase_eq_some_iff {rest base : Text} :
    caliperBase ('[' :: rest) = some base ↔
      ∃ digits, isNumeric digits = true ∧ rest = digits ++ "] ".toList ++ base := by
  have hmatch : caliperBase ('[' :: rest) =
      if rest.takeWhile Char.isDigit = [] then none
      else dropPrefix "] ".toList (rest.dropWhile Char.isDigit) := rfl
  rw [hmatch]
  constructor
  · intro h
    split_ifs at h with hdigits
    refine ⟨rest.takeWhile Char.isDigit, ?_, ?_⟩
    · rw [isNumeric, Bool.and_eq_true, List.all_takeWhile]
      simpa using hdigits
    · have hrest := dropPrefix_eq_some_iff.mp h
      rw [List.append_assoc, ← hrest, List.takeWhile_append_dropWhile]
  · rintro ⟨digits, hnumeric, rfl⟩
    rw [isNumeric, Bool.and_eq_true, List.all_eq_true] at hnumeric
    obtain ⟨hne, hall⟩ := hnumeric
    have htake : (digits ++ "] ".toList ++ base).takeWhile Char.isDigit = digits := by
      rw [List.append_assoc, List.takeWhile_append_of_pos hall]
      exact List.append_nil _
    have hdrop : (digits ++ "] ".toList ++ base).dropWhile Char.isDigit = "] ".toList ++ base := by
      rw [List.append_assoc, List.dropWhile_append_of_pos hall]
      rfl
    rw [htake, hdrop, if_neg (by simpa using hne), dropPrefix_append]

/-- **When the reader knows a caliper.**  The label in the brackets is a number, or it
begins with a number and goes on like the end of one. -/
theorem caliperBase_caliperField_iff {label quantity base : Text} :
    caliperBase (caliperField label quantity) = some base ↔
      isNumeric label = true ∧ base = quantity ∨
        ∃ digits more, isNumeric digits = true ∧ label = digits ++ "] ".toList ++ more ∧
          base = more ++ "] ".toList ++ quantity := by
  have hfield : caliperField label quantity = '[' :: (label ++ "] ".toList ++ quantity) := rfl
  have hclose : "] ".toList = [']', ' '] := rfl
  rw [hfield, caliperBase_eq_some_iff, hclose]
  constructor
  · rintro ⟨digits, hnumeric, heq⟩
    rw [List.append_assoc, List.append_assoc, List.append_eq_append_iff] at heq
    rcases heq with ⟨more, hdigits, hrest⟩ | ⟨more, hlabel, hrest⟩
    · -- the closing bracket of the field is not in the number
      cases more with
      | nil =>
          rw [List.append_nil] at hdigits
          exact .inl ⟨hdigits ▸ hnumeric, (List.append_cancel_left hrest).symm⟩
      | cons c more =>
          have hc : c = ']' := (List.cons.inj hrest).1.symm
          rw [isNumeric, Bool.and_eq_true, List.all_eq_true] at hnumeric
          have hdigit := hnumeric.2 c (by rw [hdigits]; simp)
          rw [hc] at hdigit
          cases hdigit
    · rcases more with _ | ⟨c, _ | ⟨d, more⟩⟩
      · rw [List.append_nil] at hlabel
        exact .inl ⟨hlabel ▸ hnumeric, List.append_cancel_left hrest⟩
      · cases hrest
      · simp only [List.cons_append, List.nil_append, List.cons.injEq] at hrest
        obtain ⟨rfl, rfl, rfl⟩ := hrest
        exact .inr ⟨digits, more, hnumeric, by simp [hlabel], by simp⟩
  · rintro (⟨hnumeric, rfl⟩ | ⟨digits, more, hnumeric, rfl, rfl⟩)
    · exact ⟨label, hnumeric, rfl⟩
    · exact ⟨digits, hnumeric, by simp only [List.append_assoc]⟩

/-! ## The percentages that are printed -/

/-- At a level with these counts, what is printed behind the count of a caliper is its
ratio to the count of this field: both are cut alike, or not at all. -/
def KeepsRatio (counts : Hash ℚ) (line field : Text) (count whole : ℚ) : Prop :=
  ∃ held, heldCount counts line field = some held ∧ whole * cappedValue line count = count * held

/-- The field of the whole run that the line of a caliper is compared with: that of the
event if the label is a number; a label may also begin like the field of another caliper,
and be compared with that. -/
def ComparedWith (label event base : Text) : Prop :=
  isNumeric label = true ∧ base = event ∨
    ∃ digits more, isNumeric digits = true ∧ label = digits ++ "] ".toList ++ more ∧
      base = more ++ "] ".toList ++ event

/-- The caliper and the whole run have counts of the event at this level, both positive. -/
structure BothCounted (counts : Hash ℚ) (label event : Text) (count whole : ℚ) : Prop where
  count_eq : counts.lookup (caliperField label event) = some count
  whole_eq : counts.lookup event = some whole
  count_pos : 0 < count
  whole_pos : 0 < whole

/-- The line of a caliper shows its percentage of the whole run. -/
def PercentageRight (ntasks : ℕ) (totals : Totals) (label event : Text) : Prop :=
  ∀ count whole, BothCounted totals.counts label event count whole →
    printedShare ntasks totals (caliperField label event) = some (100 * count / whole)

/-- The line of a caliper is compared with a field that keeps the ratio to the whole run. -/
def FindsWhole (counts : Hash ℚ) (label event : Text) : Prop :=
  ∀ count whole, BothCounted counts label event count whole →
    ∃ base, ComparedWith label event base ∧
      KeepsRatio counts (caliperField label event) base count whole

/-- **Caliper percentages.**  At any level of a report, the line of a caliper shows the
percentage of its count of an event in that of the whole run if and only if its label lets
it be compared with the whole run. -/
theorem caliper_percentage_iff (ntasks : ℕ) (totals : Totals) (thread : PerthreadData) (j : ℕ)
    (event : Text) :
    PercentageRight ntasks totals (printedLabel j (thread.data j)) event ↔
      FindsWhole totals.counts (printedLabel j (thread.data j)) event := by
  refine forall₃_congr fun count whole hboth => ?_
  obtain ⟨hcount, -, hpos, hpos'⟩ := hboth
  simp only [ComparedWith, ← caliperBase_caliperField_iff]
  generalize caliperField (printedLabel j (thread.data j)) event = field at *
  have hcut : 0 < cappedValue field count := cappedValue_pos hpos
  cases hbase : caliperBase field with
  | none => simp [printedShare_eq_none ntasks totals hbase]
  | some base =>
      rw [printedShare_eq ntasks totals hcount hbase]
      simp only [Option.some.injEq, exists_eq_left', KeepsRatio]
      cases hheld : heldCount totals.counts field base with
      | none => simp
      | some held =>
          simp only [Option.bind_some, Option.some.injEq, exists_eq_left', hcut, true_and]
          by_cases hpos'' : 0 < held
          · rw [if_pos hpos'', Option.some.injEq, div_eq_div_iff hpos''.ne' hpos'.ne']
            constructor
            · intro h
              linarith
            · intro h
              linarith
          · rw [if_neg hpos'']
            refine iff_of_false nofun fun h => hpos'' ?_
            have hprod : 0 < count * held := h ▸ mul_pos hpos' hcut
            exact (mul_pos_iff_of_pos_left hpos).mp hprod

/-! ### The file of one thread -/

/-- A caliper with a label has no percentage. -/
theorem caliper_percentage_labelled :
    ∃ report, Report.readLines { pid := some ['4', '2'] }
        (lines (printCounters labelledSettings (labelledThread "solve".toList))) = .ok report ∧
      ¬ PercentageRight 1 { counts := (report.processOf ['4', '2']).counts }
        (printedLabel 1 ((labelledThread "solve".toList).data 1)) "PAPI_TOT_CYC".toList := by
  have hat : AtThread { pid := some ['4', '2'] } ['4', '2'] none :=
    ⟨rfl, rfl, fun _ => rfl, fun _ _ h => by cases h⟩
  obtain ⟨report, hread, hrecovers⟩ := roundTrips_of_readable eventsNamed_labelledSettings
    readable_labelledThread hat
  refine ⟨report, hread, fun hright => ?_⟩
  have hcount := hrecovers.caliper 1 (by decide) ("PAPI_TOT_CYC".toList, 700) (by decide)
  have hwhole := hrecovers.whole ("PAPI_TOT_CYC".toList, 5000) (by decide)
  have hshown := hright 700 5000 ⟨hcount, hwhole, by norm_num, by norm_num⟩
  rw [printedShare_eq_none _ _ (by decide)] at hshown
  cases hshown

end Papiex
