import Papiex.Report.RoundTrip

/-!
# The count file as a comma-separated table

`input2dict` of `papiex-output2csv.py` reads the same count files as
`process_input`, with two regular expressions of its own.  It takes signed
values and fields of any length, strips them and replaces their commas, and it
keeps the marker of the process in the key.

Both readers are compared on the lines of `print_counters`.  They agree on a
line exactly if the field and the value are `Alike` to both.

## Main results

* `lookup_input2dict`, `map_perlPair`: what both readers store, line by line.
* `countLine_agree_iff`: when they agree on a line.
* `readers_agree_iff`: when they agree on a file.

## Design notes

Each reader is described by the pair that it takes from a line, and a pair by the printed
field and value.  The lines of labels and those without a count are left out by both.  That
two lists of pairs agree one by one is `List.Forall₂`, and the equivalence for a file follows
from the one for a line; as sets they agree where no two lines are stored under one name.
-/

namespace Papiex

open Chars Report LastWrite

/-! ## `input2dict` -/

/-- The lines of a text as a Python file gives them, with their newlines. -/
def keepLines : Text → List Text
  | [] => []
  | c :: text =>
      if c = '\n' then ['\n'] :: keepLines text
      else
        match keepLines text with
        | [] => [[c]]
        | line :: rest => (c :: line) :: rest

/-- `\w`. -/
def isWordChar (c : Char) : Bool := c.isAlphanum || c = '_'

/-- `re.match(r'^Event descriptions:$', line)`. -/
def isEventDescriptions (line : Text) : Bool :=
  line = "Event descriptions:".toList || line = "Event descriptions:\n".toList

/-- `re.match(r'[+-]?\d+\s+.*', line)`. -/
def csvNumber (line : Text) : Bool :=
  let digits := match line with
    | '+' :: rest => rest
    | '-' :: rest => rest
    | _ => line
  digits.head?.any Char.isDigit && (digits.dropWhile Char.isDigit).head?.any isSpace

/-- `re.match(r'\w.*\s+ : .*', line)`; a line has no newline but at its end. -/
def csvInfo : Text → Bool
  | [] => false
  | c :: rest =>
      isWordChar c && rest.tails.any fun tail =>
        match tail with
        | [] => false
        | blank :: more => isSpace blank && (dropPrefix " : ".toList more).isSome

/-- The text before and after the first separator. -/
def cut (separator : Text) : Text → Option (Text × Text)
  | [] => (dropPrefix separator []).map fun rest => ([], rest)
  | c :: text =>
      match dropPrefix separator (c :: text) with
      | some rest => some ([], rest)
      | none => (cut separator text).map fun split => (c :: split.1, split.2)

/-- `line.split(separator, 1)`: the first and the last element of the list. -/
def splitOnce (separator line : Text) : Text × Text := (cut separator line).getD (line, line)

/-- `rstrip()`. -/
def rstrip (text : Text) : Text := text.rdropWhile isSpace

/-- `lstrip().rstrip()`. -/
def strip (text : Text) : Text := rstrip (text.dropWhile isSpace)

/-- `replace(',','_')`. -/
def commas (text : Text) : Text := text.map fun c => if c = ',' then '_' else c

/-- The key and the value a line is taken for. -/
def csvExtract (line : Text) : Option (Text × Text) :=
  if csvNumber line then
    let l := splitOnce " ".toList line
    some (commas (strip l.2), commas l.1)
  else if csvInfo line then
    let l := splitOnce " : ".toList line
    some (commas (rstrip l.1), commas (strip l.2))
  else none

/-- The tuples with empty value fields are skipped. -/
def csvTuple (line : Text) : Option (Text × Text) :=
  (csvExtract line).filter fun tuple => tuple.2 ≠ []

/-- The dictionary `d` and the global `quiet`. -/
structure CsvState where
  d : Hash Text := ∅
  quiet : Bool := false

/-- The loop over the lines, which the descriptions of the events end. -/
def csvLoop (state : CsvState) : List Text → CsvState
  | [] => state
  | line :: rest =>
      let quieted := { state with quiet := state.quiet || (afterMatch "QUIET".toList line).isSome }
      if isEventDescriptions line then quieted
      else
        match csvTuple line with
        | some (k, v) => csvLoop { quieted with d := quieted.d.insert k v } rest
        | none => csvLoop quieted rest

/-- `input2dict`, with the value of `quiet` before and after it. -/
def input2dict (quiet : Bool) (text : Text) : Hash Text × Bool :=
  let final := csvLoop { quiet } (keepLines text)
  (final.d, final.quiet)

/-- The lines the loop gets to. -/
def csvLines (text : Text) : List Text :=
  (keepLines text).takeWhile fun line => !isEventDescriptions line

/-- What a line stores under a key. -/
def csvStored (key line : Text) : Option Text :=
  (csvTuple line).bind fun tuple => if key = tuple.1 then some tuple.2 else none

/-- The dictionary has under a key what the last line before the descriptions stored there. -/
theorem lookup_csvLoop (key : Text) (all : List Text) (state : CsvState) :
    (csvLoop state all).d.lookup key =
      after (csvStored key) (state.d.lookup key)
        (all.takeWhile fun line => !isEventDescriptions line) := by
  induction all generalizing state with
  | nil => rfl
  | cons line rest ih =>
      rw [csvLoop]
      by_cases hend : isEventDescriptions line = true
      · simp [hend]
      · rw [List.takeWhile_cons_of_pos (by simpa using hend), after_cons]
        simp only [hend, Bool.false_eq_true, if_false]
        cases htuple : csvTuple line with
        | none => rw [ih, csvStored, htuple]; rfl
        | some tuple =>
            obtain ⟨k, v⟩ := tuple
            rw [ih, lookup_insert_eq_ite, csvStored, htuple, Option.bind_some]
            split <;> rfl

/-- **The dictionary holds the last tuple of every key** among the lines before the
descriptions of the events. -/
theorem lookup_input2dict (quiet : Bool) (text key : Text) :
    (input2dict quiet text).1.lookup key = after (csvStored key) none (csvLines text) :=
  lookup_csvLoop key (keepLines text) { quiet }

/-! ## The pairs of a line -/

/-- The field of a line, as it was printed. -/
def csvField (line : Text) : Text := (splitOnce " ".toList line).2.dropWhile isSpace

/-- What `input2dict` takes from a line, the lines of labels and the marker of the process
left out. -/
def csvPair (line : Text) : Option (Text × Text) :=
  if labelMarker <+: csvField line then none
  else
    (csvTuple line).map fun tuple =>
      ((dropPrefix processMarker tuple.1).getD tuple.1, tuple.2)

/-- What `process_input` takes from a line that is not one of the header. -/
def perlPair (line : Text) : Option (Text × Text) :=
  if (matchLabel line).isSome then none
  else
    (matchCount line).map fun count =>
      ((dropPrefixNoCase processMarker count.2).getD count.2, count.1)

/-- **`perlPair` is what `process_input` stores** of a line, with the number for the text of
the value, so what is shown of the pairs is about the report. -/
theorem map_perlPair (tid : Option Text) (line : Text) :
    (countWritten tid line).map Prod.snd =
      (perlPair line).map fun pair => (pair.1, perlNum pair.2) := by
  unfold countWritten perlPair
  split
  · rfl
  · rw [Option.map_map, Option.map_map]
    refine congrArg (Option.map · _) (funext fun count => ?_)
    show Prod.snd (match dropPrefixNoCase processMarker count.2 with
      | some stripped => (none, stripped, perlNum count.1)
      | none => (tid, count.2, perlNum count.1)) = _
    simp only [Function.comp]
    cases dropPrefixNoCase processMarker count.2 <;> rfl

/-! ### Strings -/

/-- The first line is cut off behind its newline. -/
theorem keepLines_append {line : Text} (h : '\n' ∉ line) (text : Text) :
    keepLines (line ++ '\n' :: text) = (line ++ ['\n']) :: keepLines text := by
  induction line with
  | nil => rw [List.nil_append, keepLines, if_pos rfl, List.nil_append]
  | cons c line ih =>
      obtain ⟨hc, hline⟩ := not_or.mp (mt List.mem_cons.mpr h)
      rw [List.cons_append, keepLines, if_neg (Ne.symm hc), ih hline]
      rfl

theorem keepLines_unlines {all : List Text} (h : ∀ line ∈ all, '\n' ∉ line) :
    keepLines (unlines all) = all.map (· ++ ['\n']) := by
  induction all with
  | nil => rfl
  | cons line all ih =>
      rw [List.forall_mem_cons] at h
      rw [unlines_cons, keepLines_append h.1, ih h.2, List.map_cons]

theorem cut_of_not_mem {c : Char} {front : Text} (h : c ∉ front) (back : Text) :
    cut [c] (front ++ c :: back) = some (front, back) := by
  induction front with
  | nil => simp [cut, dropPrefix]
  | cons d front ih =>
      obtain ⟨hd, hfront⟩ := not_or.mp (mt List.mem_cons.mpr h)
      simp [cut, dropPrefix, hd, ih hfront]

/-- The replacement changes a text exactly if it has a comma. -/
theorem commas_eq_self_iff {text : Text} : commas text = text ↔ ',' ∉ text := by
  unfold commas
  constructor
  · intro h hmem
    have hcomma : ',' ∈ text.map fun c => if c = ',' then '_' else c := by rwa [h]
    obtain ⟨c, -, hc⟩ := List.mem_map.mp hcomma
    split at hc
    · cases hc
    · rename_i hne
      exact hne hc
  · intro h
    refine (List.map_congr_left fun c hc => ?_).trans (List.map_id text)
    have hne : c ≠ ',' := by
      rintro rfl
      exact h hc
    exact if_neg hne

theorem commas_append (front back : Text) : commas (front ++ back) = commas front ++ commas back :=
  List.map_append

theorem not_mem_commas (text : Text) : ',' ∉ commas text := by
  intro hmem
  obtain ⟨c, -, hc⟩ := List.mem_map.mp hmem
  split at hc
  · cases hc
  · rename_i hne
    exact hne hc

/-- Replacing commas makes no marker. -/
theorem processMarker_prefix_commas_iff {text : Text} :
    processMarker <+: commas text ↔ processMarker <+: text := by
  have hplain : commas processMarker = processMarker := by decide
  constructor
  · intro h
    obtain ⟨rest, hrest⟩ := h
    obtain ⟨front, back, rfl, hfront, -⟩ := List.map_eq_append_iff.mp hrest.symm
    have hnone : '_' ∉ processMarker := by decide
    have hself : commas front = front := by
      refine commas_eq_self_iff.mpr fun hcomma => hnone ?_
      rw [← hfront]
      exact List.mem_map.mpr ⟨',', hcomma, rfl⟩
    rw [show processMarker = front from hfront.symm.trans hself]
    exact List.prefix_append _ _
  · rintro ⟨rest, rfl⟩
    rw [commas_append, hplain]
    exact List.prefix_append _ _

/-- Stripping what follows a value leaves the field without its blanks. -/
theorem strip_append_newline {blank field : Text} (hblank : ∀ c ∈ blank, isSpace c = true) :
    strip (blank ++ (field ++ ['\n'])) = rstrip (field.dropWhile isSpace) := by
  rw [strip, List.dropWhile_append_of_pos hblank]
  by_cases hfield : ∀ c ∈ field, isSpace c = true
  · have hall : ∀ c ∈ field ++ ['\n'], isSpace c = true := by
      intro c hc
      rcases List.mem_append.mp hc with hin | hlast
      · exact hfield c hin
      · rw [List.mem_singleton.mp hlast]
        decide
    rw [List.dropWhile_eq_nil_iff.mpr hall, List.dropWhile_eq_nil_iff.mpr hfield]
  · have hne : field.dropWhile isSpace ≠ [] := fun h => hfield (List.dropWhile_eq_nil_iff.mp h)
    rw [List.dropWhile_append, if_neg (by simpa [List.isEmpty_iff] using hne), rstrip,
      List.rdropWhile_concat_pos _ _ _ (by decide)]
    rfl

/-! ### Count lines -/

/-- The value, the padding, the field and the newline of a printed count. -/
theorem countLine_newline (value : ℤ) (field : Text) :
    countLine value field ++ ['\n'] = signed value ++
      ' ' :: (List.replicate (16 - (signed value).length) ' ' ++ (field ++ ['\n'])) := by
  have hblank : ∀ (n : ℕ) (rest : Text),
      List.replicate n ' ' ++ ' ' :: rest = ' ' :: (List.replicate n ' ' ++ rest) := by
    intro n rest
    rw [← List.cons_append, ← List.replicate_succ, List.replicate_succ', List.append_assoc]
    rfl
  rw [countLine, padRight, List.append_assoc, List.append_assoc, List.cons_append, hblank]

theorem isSpace_replicate {n : ℕ} {c : Char} (h : c ∈ List.replicate n ' ') : isSpace c = true := by
  rw [List.eq_of_mem_replicate h]
  decide

theorem splitOnce_countLine (value : ℤ) (field : Text) :
    splitOnce " ".toList (countLine value field ++ ['\n']) = (signed value,
      List.replicate (16 - (signed value).length) ' ' ++ (field ++ ['\n'])) := by
  have hblank : ' ' ∉ signed value := not_mem_signed (by decide) (by decide)
  rw [countLine_newline, splitOnce]
  exact congrArg (Option.getD · _) (cut_of_not_mem hblank _)

theorem exists_isDigit_head (n : ℕ) (rest : Text) :
    ∃ d, (decimal n ++ rest).head? = some d ∧ d.isDigit = true := by
  obtain ⟨d, digits, hdecimal⟩ := List.exists_cons_of_ne_nil (decimal_ne_nil n)
  refine ⟨d, by rw [hdecimal]; rfl, ?_⟩
  exact isDigit_of_mem_decimal (n := n) (by rw [hdecimal]; exact List.mem_cons_self)

/-- A decimal numeral and a blank. -/
theorem csvNumber_digits (n : ℕ) (rest : Text) :
    ((decimal n ++ ' ' :: rest).head?.any Char.isDigit &&
      ((decimal n ++ ' ' :: rest).dropWhile Char.isDigit).head?.any isSpace) = true := by
  obtain ⟨d, hhead, hd⟩ := exists_isDigit_head n (' ' :: rest)
  have hall : ∀ c ∈ decimal n, c.isDigit = true := fun _ => isDigit_of_mem_decimal
  rw [List.dropWhile_append_of_pos hall, List.dropWhile_cons_of_neg (by decide), hhead,
    Option.any_some, hd]
  rfl

/-- Each printed count begins with a number for `input2dict`, whatever its sign. -/
theorem csvNumber_countLine (value : ℤ) (field : Text) :
    csvNumber (countLine value field ++ ['\n']) = true := by
  rw [countLine_newline]
  by_cases hneg : value < 0
  · rw [signed_of_neg hneg, List.cons_append]
    exact csvNumber_digits _ _
  · rw [signed_of_nonneg (not_lt.mp hneg)]
    generalize (List.replicate _ ' ' ++ (field ++ ['\n'])) = rest
    obtain ⟨d, hhead, hd⟩ := exists_isDigit_head value.toNat (' ' :: rest)
    unfold csvNumber
    -- a digit is not a sign
    split
    · rename_i heq
      rw [heq, List.head?_cons, Option.some.injEq] at hhead
      subst hhead
      exact absurd hd (by decide)
    · rename_i heq
      rw [heq, List.head?_cons, Option.some.injEq] at hhead
      subst hhead
      exact absurd hd (by decide)
    · exact csvNumber_digits _ _

theorem signed_ne_nil (value : ℤ) : signed value ≠ [] := by
  by_cases hneg : value < 0
  · rw [signed_of_neg hneg]
    exact List.cons_ne_nil _ _
  · rw [signed_of_nonneg (not_lt.mp hneg)]
    exact decimal_ne_nil _

/-- The table takes every count, whatever its sign and its field. -/
theorem csvTuple_countLine (value : ℤ) (field : Text) :
    csvTuple (countLine value field ++ ['\n']) =
      some (commas (rstrip (field.dropWhile isSpace)), signed value) := by
  have hcommas : commas (signed value) = signed value :=
    commas_eq_self_iff.mpr (not_mem_signed (by decide) (by decide))
  rw [csvTuple, csvExtract, if_pos (csvNumber_countLine value field)]
  simp only [splitOnce_countLine, hcommas, strip_append_newline fun _ => isSpace_replicate]
  exact Option.filter_some_pos (by simpa using signed_ne_nil value)

/-- A newline at the end of a line hides no marker. -/
theorem labelMarker_prefix_csvField_iff (value : ℤ) (field : Text) :
    labelMarker <+: csvField (countLine value field ++ ['\n']) ↔
      labelMarker <+: field.dropWhile isSpace := by
  rw [csvField, splitOnce_countLine]
  simp only [List.dropWhile_append_of_pos fun _ => isSpace_replicate]
  by_cases hfield : field.dropWhile isSpace = []
  · have hall := List.dropWhile_eq_nil_iff.mp hfield
    rw [List.dropWhile_append_of_pos hall, hfield]
    decide
  · rw [List.dropWhile_append, if_neg (by simpa [List.isEmpty_iff] using hfield)]
    constructor
    · intro h
      rcases List.prefix_concat_iff.mp h with heq | hprefix
      · have hlast := congrArg List.getLast? heq
        rw [List.getLast?_concat] at hlast
        exact absurd hlast (by decide)
      · exact hprefix
    · intro h
      exact h.trans (List.prefix_append _ _)

/-- What the table takes from a count line. -/
theorem csvPair_countLine (value : ℤ) (field : Text) :
    csvPair (countLine value field ++ ['\n']) =
      if labelMarker <+: field.dropWhile isSpace then none
      else
        let name := commas (rstrip (field.dropWhile isSpace))
        some ((dropPrefix processMarker name).getD name, signed value) := by
  rw [csvPair, csvTuple_countLine]
  simp only [labelMarker_prefix_csvField_iff, Option.map_some]

/-- Without its leading blanks a field does not begin with one. -/
theorem head_dropWhile_isSpace (field : Text) :
    ∀ c ∈ (field.dropWhile isSpace).head?, isSpace c = false := by
  intro c hc
  have hnot := List.head?_dropWhile_not isSpace field
  rw [Option.mem_def.mp hc] at hnot
  exact hnot

/-- The number and the field the report finds in a count line. -/
theorem matchNumber_countLine_strip {value : ℤ} (h : 0 ≤ value) (field : Text) :
    matchNumber (countLine value field) =
      some (decimal value.toNat, field.dropWhile isSpace) := by
  obtain ⟨blank, hline⟩ := countLine_eq_of_nonneg h field
  have hdigits : ∀ c, isSpace c = true → isNumberChar c = false := by
    intro c hc
    simp only [isSpace, Bool.or_eq_true, decide_eq_true_eq] at hc
    rcases hc with ((((rfl | rfl) | rfl) | rfl) | rfl) | rfl <;> decide
  have hline' : countLine value field = decimal value.toNat ++
      ((List.replicate (blank + 1) ' ' ++ field.takeWhile isSpace) ++
        field.dropWhile isSpace) := by
    rw [hline, List.append_assoc (List.replicate _ _), List.takeWhile_append_dropWhile]
  rw [hline']
  refine matchNumber_append (decimal_ne_nil _) ?_ (by simp) ?_ (head_dropWhile_isSpace field)
  · intro c hc
    exact isNumberChar_of_isDigit (isDigit_of_mem_decimal hc)
  · intro c hc
    have hspace : isSpace c = true := by
      rcases List.mem_append.mp hc with hblank | hlead
      · exact isSpace_replicate hblank
      · exact List.mem_takeWhile_imp hlead
    exact ⟨hspace, hdigits c hspace⟩

theorem matchLabel_countLine_strip {value : ℤ} (h : 0 ≤ value) (field : Text) :
    matchLabel (countLine value field) =
      (dropPrefix labelMarker (field.dropWhile isSpace)).map fun label =>
        (decimal value.toNat, label) := by
  rw [matchLabel, matchNumber_countLine_strip h]
  rfl

/-- What the report takes from a count line. -/
theorem perlPair_countLine {value : ℤ} (h : 0 ≤ value) (field : Text) :
    perlPair (countLine value field) =
      let name := field.dropWhile isSpace
      if labelMarker <+: name then none
      else if 2 ≤ name.length ∧ name.getLast?.all (fun c => !isSpace c) then
        some ((dropPrefixNoCase processMarker name).getD name, decimal value.toNat)
      else none := by
  simp only [perlPair, matchLabel_countLine_strip h, matchCount, matchNumber_countLine_strip h]
  by_cases hlabel : labelMarker <+: field.dropWhile isSpace
  · obtain ⟨label, hrest⟩ := hlabel
    rw [← hrest, dropPrefix_append, if_pos (List.prefix_append _ _)]
    rfl
  · rw [dropPrefix_eq_none_iff.mpr hlabel, if_neg hlabel]
    simp only [Option.map_none, Option.isSome_none, Bool.false_eq_true, if_false]
    split <;> rfl

theorem perlPair_countLine_of_neg {value : ℤ} (h : value < 0) (field : Text) :
    perlPair (countLine value field) = none := by
  rw [perlPair, matchCount, matchLabel, matchNumber_countLine_of_neg h]
  rfl

/-! ## When they agree -/

/-- A name both readers take as it is: at least two characters, no blank at the end, no
comma, and the marker of the process in capitals if it is there. -/
structure PlainName (name : Text) : Prop where
  long : 2 ≤ name.length
  last : name.getLast?.all (fun c => !isSpace c) = true
  unseparated : ',' ∉ name
  marker : processMarker.map Char.toLower <+: name.map Char.toLower → processMarker <+: name

instance : DecidablePred PlainName := fun name =>
  decidable_of_iff (2 ≤ name.length ∧ name.getLast?.all (fun c => !isSpace c) = true ∧
      ',' ∉ name ∧ (processMarker.map Char.toLower <+: name.map Char.toLower →
        processMarker <+: name))
    ⟨fun h => ⟨h.1, h.2.1, h.2.2.1, h.2.2.2⟩,
      fun h => ⟨h.long, h.last, h.unseparated, h.marker⟩⟩

/-- A count both readers take for the same.  One whose field reads as a label is left
out by both, but the report does not survive it if it is zero. -/
def Alike (field : Text) (value : ℤ) : Prop :=
  if labelMarker <+: field.dropWhile isSpace then value ≠ 0
  else 0 ≤ value ∧ PlainName (field.dropWhile isSpace)

/-- What the two readers make of the marker of the process: both drop it, or the report
alone does, or there is none. -/
inductive MarkerCase (name : Text) : Prop
  | exact (rest : Text) (hname : name = processMarker ++ rest)
      (hperl : dropPrefixNoCase processMarker name = some rest)
      (hcsv : dropPrefix processMarker (commas name) = some (commas rest))
  | loose (rest : Text) (hexact : ¬ processMarker <+: name)
      (hloose : processMarker.map Char.toLower <+: name.map Char.toLower)
      (hperl : dropPrefixNoCase processMarker name = some rest)
      (hshorter : rest.length < name.length)
      (hcsv : dropPrefix processMarker (commas name) = none)
  | absent (hloose : ¬ processMarker.map Char.toLower <+: name.map Char.toLower)
      (hperl : dropPrefixNoCase processMarker name = none)
      (hcsv : dropPrefix processMarker (commas name) = none)

theorem markerCase (name : Text) : MarkerCase name := by
  by_cases hexact : processMarker <+: name
  · obtain ⟨rest, rfl⟩ := hexact
    have hplain : commas processMarker = processMarker := by decide
    refine .exact rest rfl (dropPrefixNoCase_append _ _) ?_
    rw [commas_append, hplain, dropPrefix_append]
  · have hcsv := dropPrefix_eq_none_iff.mpr (mt processMarker_prefix_commas_iff.mp hexact)
    by_cases hloose : processMarker.map Char.toLower <+: name.map Char.toLower
    · obtain ⟨rest, hrest⟩ := Option.ne_none_iff_exists'.mp
        (mt dropPrefixNoCase_eq_none_iff.mp (not_not.mpr hloose))
      refine .loose rest hexact hloose hrest ?_ hcsv
      obtain ⟨front, rfl, hfront⟩ := dropPrefixNoCase_eq_some hrest
      have hlength := congrArg List.length hfront
      have hmarker : processMarker.length = 10 := by decide
      simp only [List.length_map] at hlength
      rw [List.length_append]
      omega
    · exact .absent hloose (dropPrefixNoCase_eq_none_iff.mpr hloose) hcsv

@[simp] theorem length_commas (text : Text) : (commas text).length = text.length :=
  List.length_map _

instance (field : Text) (value : ℤ) : Decidable (Alike field value) :=
  inferInstanceAs (Decidable (if labelMarker <+: field.dropWhile isSpace then value ≠ 0
    else 0 ≤ value ∧ PlainName (field.dropWhile isSpace)))

/-- The marker of the process is dropped alike from plain names only. -/
theorem dropProcess_eq_iff {name : Text} :
    (dropPrefix processMarker (commas name)).getD (commas name) =
        (dropPrefixNoCase processMarker name).getD name ↔
      ',' ∉ name ∧
        (processMarker.map Char.toLower <+: name.map Char.toLower →
          processMarker <+: name) := by
  cases markerCase name with
  | exact rest hname hperl hcsv =>
      have hmarker : ',' ∉ processMarker := by decide
      rw [hperl, hcsv, Option.getD_some, Option.getD_some, commas_eq_self_iff, hname,
        List.mem_append, not_or]
      simp [hmarker]
  | loose rest hexact hloose hperl hshorter hcsv =>
      -- the report cuts the marker off, the table does not
      rw [hperl, hcsv, Option.getD_some, Option.getD_none]
      refine iff_of_false (fun heq => ?_) fun hboth => hexact (hboth.2 hloose)
      have hlength := congrArg List.length heq
      rw [length_commas] at hlength
      omega
  | absent hloose hperl hcsv =>
      rw [hperl, hcsv, Option.getD_none, Option.getD_none, commas_eq_self_iff]
      simp [hloose]

/-- A text that does not end in a blank is kept by `rstrip`. -/
theorem rstrip_of_last {name : Text}
    (h : name.getLast?.all (fun c => !isSpace c) = true) : rstrip name = name := by
  refine List.rdropWhile_eq_self_iff.mpr fun hne => ?_
  rw [List.getLast?_eq_some_getLast hne] at h
  simpa using h

/-- **One count line.**  Both readers take the same pair from it, and the report survives
it, exactly if the count is alike to both. -/
theorem countLine_agree_iff (value : ℤ) (field : Text) :
    (csvPair (countLine value field ++ ['\n']) = perlPair (countLine value field) ∧
        ∀ number label, matchLabel (countLine value field) = some (number, label) →
          1 ≤ perlNum number) ↔ Alike field value := by
  rw [csvPair_countLine, Alike]
  by_cases hneg : value < 0
  · -- the report reads no sign, so the readers agree on the lines of labels only
    rw [perlPair_countLine_of_neg hneg, matchLabel_countLine_of_neg hneg]
    by_cases hlabel : labelMarker <+: field.dropWhile isSpace
    · rw [if_pos hlabel, if_pos hlabel]
      refine iff_of_true ⟨rfl, ?_⟩ hneg.ne
      rintro _ _ ⟨⟩
    · rw [if_neg hlabel, if_neg hlabel]
      refine iff_of_false ?_ fun halike => not_le.mpr hneg halike.1
      rintro ⟨⟨⟩, -⟩
  · have hsign := not_lt.mp hneg
    rw [perlPair_countLine hsign, matchLabel_countLine_strip hsign]
    by_cases hlabel : labelMarker <+: field.dropWhile isSpace
    · -- both leave the line out; as the index of a label 0 is fatal
      simp only [if_pos hlabel, true_and]
      obtain ⟨label, hrest⟩ := hlabel
      rw [← hrest, dropPrefix_append, Option.map_some]
      constructor
      · intro hindex
        have hone := hindex _ _ rfl
        rw [perlNum_decimal, Nat.one_le_cast] at hone
        omega
      · rintro hne _ _ ⟨⟩
        rw [perlNum_decimal, Nat.one_le_cast]
        omega
    · simp only [if_neg hlabel, dropPrefix_eq_none_iff.mpr hlabel, Option.map_none, reduceCtorEq,
        false_implies, implies_true, and_true, signed_of_nonneg hsign]
      -- the pattern of the report takes the field as a whole or not at all
      by_cases hwhole : 2 ≤ (field.dropWhile isSpace).length ∧
          (field.dropWhile isSpace).getLast?.all (fun c => !isSpace c) = true
      · rw [if_pos hwhole, rstrip_of_last hwhole.2, Option.some.injEq, Prod.mk.injEq,
          and_iff_left rfl, dropProcess_eq_iff]
        constructor
        · rintro ⟨hcomma, hmarker⟩
          exact ⟨hsign, hwhole.1, hwhole.2, hcomma, hmarker⟩
        · rintro ⟨-, hplain⟩
          exact ⟨hplain.unseparated, hplain.marker⟩
      · rw [if_neg hwhole]
        refine iff_of_false (by simp) ?_
        rintro ⟨-, hplain⟩
        exact hwhole ⟨hplain.long, hplain.last⟩

/-! ### The silent lines -/

variable {settings : PrintSettings} {thread : PerthreadData} {line : Text}

/-- The lines of `print_counters` that carry no count. -/
def silentOutputs (settings : PrintSettings) (thread : PerthreadData) : List Text :=
  mpxWarning settings thread ++ (usedCalipers thread).map fun _ => []

/-- The fields and values of `print_counters`, the labels with their indices among them. -/
def printedFields (settings : PrintSettings) (thread : PerthreadData) : List (Text × ℤ) :=
  (processMarker ++ "Wallclock usecs".toList, settings.wallclockUsecs) ::
    threadCounts settings.cfg thread ++
    (usedCalipers thread).flatMap fun j =>
      (labelMarker ++ (thread.data j).label, (j : ℤ)) ::
        (caliperCounts settings.cfg (thread.data j)).map fun count =>
          (caliperField (printedLabel j (thread.data j)) count.1, count.2)

/-- **What `print_counters` prints** is counts, and lines that hold none. -/
theorem mem_counterOutputs_iff :
    line ∈ counterOutputs settings thread ↔ line ∈ silentOutputs settings thread ∨
      ∃ count ∈ printedFields settings thread, countLine count.2 count.1 = line := by
  simp only [counterOutputs, silentOutputs, printedFields, caliperLines, caliperLine,
    wallclockLine, List.mem_append, List.mem_cons, List.mem_map, List.mem_flatMap]
  constructor
  · rintro ((hwarning | rfl | ⟨count, hcount, rfl⟩) | ⟨j, hj, rfl | rfl | ⟨count, hcount, rfl⟩⟩)
    · exact .inl (.inl hwarning)
    · exact .inr ⟨_, .inl (.inl rfl), rfl⟩
    · exact .inr ⟨_, .inl (.inr hcount), rfl⟩
    · exact .inl (.inr ⟨j, hj, rfl⟩)
    · exact .inr ⟨_, .inr ⟨j, hj, .inl rfl⟩, rfl⟩
    · exact .inr ⟨_, .inr ⟨j, hj, .inr ⟨count, hcount, rfl⟩⟩, rfl⟩
  · rintro ((hwarning | ⟨j, hj, rfl⟩) |
      ⟨_, (rfl | hcount) | ⟨j, hj, rfl | ⟨count, hcount, rfl⟩⟩, rfl⟩)
    · exact .inl (.inl hwarning)
    · exact .inr ⟨j, hj, .inl rfl⟩
    · exact .inl (.inr (.inl rfl))
    · exact .inl (.inr (.inr ⟨_, hcount, rfl⟩))
    · exact .inr ⟨j, hj, .inr (.inl rfl)⟩
    · exact .inr ⟨j, hj, .inr (.inr ⟨count, hcount, rfl⟩)⟩

/-- Only a line with a colon is taken for information. -/
theorem csvInfo_of_not_mem (h : ':' ∉ line) : csvInfo line = false := by
  cases line with
  | nil => rfl
  | cons c rest =>
      rw [csvInfo, Bool.and_eq_false_iff]
      refine .inr (List.any_eq_false.mpr fun tail htail hmatch => ?_)
      have hsuffix := (List.mem_tails _ _).mp htail
      cases tail with
      | nil => cases hmatch
      | cons blank more =>
          simp only [Bool.and_eq_true] at hmatch
          obtain ⟨after, hafter⟩ := Option.isSome_iff_exists.mp hmatch.2
          rw [dropPrefix_eq_some_iff.mp hafter] at hsuffix
          exact h (List.mem_cons_of_mem _ (hsuffix.subset (by simp)))

/-- The warning about multiplexing does not begin with a number. -/
theorem csvNumber_mpxWarning (h : line ∈ mpxWarning settings thread) :
    csvNumber (line ++ ['\n']) = false := by
  unfold mpxWarning at h
  split at h
  · simp only [List.mem_cons, List.not_mem_nil, or_false] at h
    rcases h with rfl | rfl | rfl | rfl | rfl | rfl | rfl | rfl <;> rfl
  · cases h

/-- Neither reader takes anything from a silent line. -/
theorem silent_of_mem (h : line ∈ silentOutputs settings thread) :
    csvPair (line ++ ['\n']) = none ∧ perlPair line = none ∧ matchLabel line = none ∧
      isEventDescriptions (line ++ ['\n']) = false := by
  have hsilent : csvNumber (line ++ ['\n']) = false ∧ ':' ∉ line ∧
      ∀ c ∈ line.head?, isNumberChar c = false := by
    rcases List.mem_append.mp h with hwarning | hblank
    · obtain ⟨hhead, hcolon, -⟩ := mem_mpxWarning hwarning
      exact ⟨csvNumber_mpxWarning hwarning, hcolon, hhead⟩
    · obtain ⟨j, -, rfl⟩ := List.mem_map.mp hblank
      exact ⟨rfl, by simp, by simp⟩
  obtain ⟨hnumber, hcolon, hhead⟩ := hsilent
  have hcolon' : ':' ∉ line ++ ['\n'] := by simpa using hcolon
  have hmatch := matchNumber_of_not_isNumberChar hhead
  refine ⟨?_, ?_, ?_, ?_⟩
  · have htuple : csvTuple (line ++ ['\n']) = none := by
      simp [csvTuple, csvExtract, hnumber, csvInfo_of_not_mem hcolon']
    rw [csvPair, htuple, Option.map_none, ite_self]
  · rw [perlPair, matchCount, hmatch, Option.map_none, ite_self]
  · rw [matchLabel, hmatch]
  · by_contra hdescr
    rw [Bool.not_eq_false, isEventDescriptions, Bool.or_eq_true, decide_eq_true_eq,
      decide_eq_true_eq] at hdescr
    rcases hdescr with heq | heq <;> exact hcolon' (by rw [heq]; decide)

/-- No count line ends the loop. -/
theorem isEventDescriptions_countLine (value : ℤ) (field : Text) :
    isEventDescriptions (countLine value field ++ ['\n']) = false := by
  by_contra hdescr
  rw [Bool.not_eq_false, isEventDescriptions, Bool.or_eq_true, decide_eq_true_eq,
    decide_eq_true_eq] at hdescr
  have hnumber := csvNumber_countLine value field
  rcases hdescr with heq | heq <;> rw [heq] at hnumber <;> exact absurd hnumber (by decide)

/-! ## The file of a thread -/

/-- The report survives the lines, and line by line both readers take the same pair. -/
def ReadersAgree (start : Report) (text : Text) : Prop :=
  (∃ final, readLines start (lines text) = .ok final) ∧
    (csvLines text).map csvPair = (lines text).map perlPair

/-- The report survives the lines, and both readers end up with the same set of pairs. -/
def SamePairs (start : Report) (text : Text) : Prop :=
  (∃ final, readLines start (lines text) = .ok final) ∧
    ∀ pair, pair ∈ (csvLines text).filterMap csvPair ↔ pair ∈ (lines text).filterMap perlPair

/-- No two lines give the table a value under one name. -/
def NamesDistinct (text : Text) : Prop := (((csvLines text).filterMap csvPair).map Prod.fst).Nodup

/-- Every count that is printed is alike to both readers. -/
def CountsAlike (settings : PrintSettings) (thread : PerthreadData) : Prop :=
  ∀ count ∈ printedFields settings thread, Alike count.1 count.2

/-- Readers that agree line by line end up with the same pairs. -/
theorem ReadersAgree.samePairs {start : Report} {text : Text} (h : ReadersAgree start text) :
    SamePairs start text := by
  refine ⟨h.1, fun pair => ?_⟩
  have hmaps : (csvLines text).filterMap csvPair = (lines text).filterMap perlPair := by
    have hids := congrArg (List.filterMap id) h.2
    rwa [List.filterMap_map, List.filterMap_map] at hids
  rw [hmaps]

section

variable (hnames : ∀ name ∈ settings.cfg.eventnames, '\n' ∉ name)
variable (hlabels : ∀ j ∈ usedCalipers thread, '\n' ∉ (thread.data j).label)

include hnames hlabels

/-- The loop of the table gets to every line of `print_counters`. -/
theorem csvLines_printCounters :
    csvLines (printCounters settings thread) =
      (counterOutputs settings thread).map (· ++ ['\n']) := by
  rw [csvLines, printCounters,
    keepLines_unlines fun _ h => newline_not_mem_counterOutputs hnames hlabels h,
    List.takeWhile_eq_self_iff]
  intro line hline
  obtain ⟨output, houtput, rfl⟩ := List.mem_map.mp hline
  rcases mem_counterOutputs_iff.mp houtput with hsilent | ⟨count, -, rfl⟩
  · simp [(silent_of_mem hsilent).2.2.2]
  · simp [isEventDescriptions_countLine]

/-- Agreement is a matter of the lines one by one. -/
theorem readersAgree_iff_forall {start : Report} {pid : Text} (hpid : start.pid = some pid) :
    ReadersAgree start (printCounters settings thread) ↔
      ∀ line ∈ counterOutputs settings thread,
        csvPair (line ++ ['\n']) = perlPair line ∧
          ∀ number label, matchLabel line = some (number, label) → 1 ≤ perlNum number := by
  rw [ReadersAgree, lines_printCounters hnames hlabels, csvLines_printCounters hnames hlabels,
    readLines_eq_ok_iff (fun line h => (printedLine_of_mem h).matchHeader_eq_none) hpid,
    List.map_map, List.map_inj_left]
  constructor
  · rintro ⟨hindex, hpairs⟩ line hline
    exact ⟨hpairs line hline, hindex line hline⟩
  · intro hall
    exact ⟨fun line hline => (hall line hline).2, fun line hline => (hall line hline).1⟩

/-- **The readers agree line by line exactly if every count is alike to both.** -/
theorem readersAgree_iff_countsAlike {start : Report} {pid : Text}
    (hpid : start.pid = some pid) :
    ReadersAgree start (printCounters settings thread) ↔ CountsAlike settings thread := by
  rw [readersAgree_iff_forall hnames hlabels hpid]
  constructor
  · intro hall count hcount
    exact (countLine_agree_iff count.2 count.1).mp
      (hall _ (mem_counterOutputs_iff.mpr (.inr ⟨count, hcount, rfl⟩)))
  · intro halike line hline
    rcases mem_counterOutputs_iff.mp hline with hsilent | ⟨count, hcount, rfl⟩
    · obtain ⟨hcsv, hperl, hlabel, -⟩ := silent_of_mem hsilent
      rw [hcsv, hperl, hlabel]
      exact ⟨rfl, by rintro _ _ ⟨⟩⟩
    · exact (countLine_agree_iff count.2 count.1).mpr (halike count hcount)

end

/-! ### Sets of pairs -/

section Readings

variable {α V : Type} {p q : α → Option (Text × V)} {all : List α}

/-- With distinct names a pair comes from one place only. -/
theorem eq_of_fst_eq (hdistinct : ((all.filterMap p).map Prod.fst).Nodup) {a b : α}
    (ha : a ∈ all) (hb : b ∈ all) {name : Text} {v v' : V} (hpa : p a = some (name, v))
    (hpb : p b = some (name, v')) : a = b := by
  by_contra hne
  rw [List.Nodup, List.pairwise_map, List.pairwise_filterMap] at hdistinct
  have hsymm : Std.Symm fun a b : α =>
      ∀ x, p a = some x → ∀ y, p b = some y → x.1 ≠ y.1 :=
    ⟨fun a b h x hx y hy heq => h y hy x hx heq.symm⟩
  exact hdistinct.forall ha hb hne _ hpa _ hpb rfl

/-- Let the names of the first reading be distinct, and let it find whatever the second
one finds, under the same name or a longer one.  If both end up with the same pairs,
they find the same everywhere. -/
theorem eq_of_same_pairs (hdistinct : ((all.filterMap p).map Prod.fst).Nodup)
    (hfinds : ∀ a ∈ all, ∀ name v, q a = some (name, v) →
      ∃ name', p a = some (name', v) ∧ (name' = name ∨ name.length < name'.length))
    (hsame : ∀ pair, pair ∈ all.filterMap p ↔ pair ∈ all.filterMap q) :
    ∀ a ∈ all, p a = q a := by
  -- a place where the first reading has the longer name leads to another one
  have hgrows : (∃ a ∈ all, ∃ name name' v, q a = some (name, v) ∧ p a = some (name', v) ∧
      name.length < name'.length) →
        ∀ k : ℕ, ∃ a ∈ all, ∃ name name' v, q a = some (name, v) ∧ p a = some (name', v) ∧
          name.length < name'.length ∧ k ≤ name'.length := by
    rintro ⟨a, ha, name, name', v, hqa, hpa, hlonger⟩ k
    induction k with
    | zero => exact ⟨a, ha, name, name', v, hqa, hpa, hlonger, Nat.zero_le _⟩
    | succ k ih =>
        obtain ⟨a, ha, name, name', v, hqa, hpa, hlonger, hk⟩ := ih
        obtain ⟨b, hb, hqb⟩ := List.mem_filterMap.mp
          ((hsame _).mp (List.mem_filterMap.mpr ⟨a, ha, hpa⟩))
        obtain ⟨name'', hpb, rfl | hlonger'⟩ := hfinds b hb name' v hqb
        · obtain rfl := eq_of_fst_eq hdistinct ha hb hpa hpb
          rw [hqa] at hqb
          cases hqb
          omega
        · exact ⟨b, hb, name', name'', v, hqb, hpb, hlonger', by omega⟩
  -- but the names are bounded
  have hsame_name : ∀ a ∈ all, ∀ name v, q a = some (name, v) → p a = some (name, v) := by
    intro a ha name v hqa
    obtain ⟨name', hpa, rfl | hlonger⟩ := hfinds a ha name v hqa
    · exact hpa
    · let lengths := (all.filterMap p).map fun pair => pair.1.length
      obtain ⟨b, hb, -, name', v', -, hpb, -, hk⟩ :=
        hgrows ⟨a, ha, name, name', v, hqa, hpa, hlonger⟩ (lengths.toFinset.sup id + 1)
      have hmem : name'.length ∈ lengths.toFinset :=
        List.mem_toFinset.mpr
          (List.mem_map.mpr ⟨(name', v'), List.mem_filterMap.mpr ⟨b, hb, hpb⟩, rfl⟩)
      have hle : name'.length ≤ lengths.toFinset.sup id := Finset.le_sup (f := id) hmem
      omega
  intro a ha
  cases hpa : p a with
  | none =>
      cases hqa : q a with
      | none => rfl
      | some pair =>
          rw [hsame_name a ha pair.1 pair.2 hqa] at hpa
          cases hpa
  | some pair =>
      obtain ⟨b, hb, hqb⟩ := List.mem_filterMap.mp
        ((hsame _).mp (List.mem_filterMap.mpr ⟨a, ha, hpa⟩))
      obtain rfl := eq_of_fst_eq hdistinct ha hb hpa (hsame_name b hb pair.1 pair.2 hqb)
      exact hqb.symm

end Readings

/-- The table finds what the report finds in a count line. -/
theorem csvPair_of_perlPair {value : ℤ} {field name : Text} {v : Text}
    (h : perlPair (countLine value field) = some (name, v)) :
    ∃ name', csvPair (countLine value field ++ ['\n']) = some (name', v) ∧
      (name' = commas name ∨ name.length < name'.length) := by
  by_cases hneg : value < 0
  · rw [perlPair_countLine_of_neg hneg] at h
    cases h
  · have hsign := not_lt.mp hneg
    rw [perlPair_countLine hsign] at h
    rw [csvPair_countLine]
    by_cases hlabel : labelMarker <+: field.dropWhile isSpace
    · rw [if_pos hlabel] at h
      cases h
    · rw [if_neg hlabel] at h ⊢
      split at h
      · rename_i hwhole
        cases h
        rw [rstrip_of_last hwhole.2, signed_of_nonneg hsign]
        refine ⟨_, rfl, ?_⟩
        cases markerCase (field.dropWhile isSpace) with
        | exact rest _ hperl hcsv => exact .inl (by simp only [hperl, hcsv, Option.getD_some])
        | loose rest _ _ hperl hshorter hcsv =>
            refine .inr ?_
            simp only [hperl, hcsv, Option.getD_some, Option.getD_none, length_commas]
            exact hshorter
        | absent _ hperl hcsv => exact .inl (by simp only [hperl, hcsv, Option.getD_none])
      · cases h

/-- There is no comma in the names of the table. -/
theorem not_mem_csvPair {line name v : Text} (h : csvPair line = some (name, v)) : ',' ∉ name := by
  rw [csvPair] at h
  split at h
  · cases h
  · obtain ⟨tuple, htuple, hpair⟩ := Option.map_eq_some_iff.mp h
    have hkey : ',' ∉ tuple.1 := by
      have hextract := (Option.filter_eq_some_iff.mp htuple).1
      unfold csvExtract at hextract
      split at hextract
      · cases hextract
        exact not_mem_commas _
      · split at hextract
        · cases hextract
          exact not_mem_commas _
        · cases hextract
    cases hpair
    cases hdrop : dropPrefix processMarker tuple.1 with
    | none => exact hkey
    | some rest =>
        rw [dropPrefix_eq_some_iff.mp hdrop, List.mem_append, not_or] at hkey
        exact hkey.2

section

variable (hnames : ∀ name ∈ settings.cfg.eventnames, '\n' ∉ name)
variable (hlabels : ∀ j ∈ usedCalipers thread, '\n' ∉ (thread.data j).label)

include hnames hlabels

/-- With distinct names, the same pairs come from the same lines. -/
theorem readersAgree_of_samePairs {start : Report}
    (hdistinct : NamesDistinct (printCounters settings thread))
    (hsame : SamePairs start (printCounters settings thread)) :
    ReadersAgree start (printCounters settings thread) := by
  obtain ⟨hrun, hpairs⟩ := hsame
  refine ⟨hrun, ?_⟩
  rw [NamesDistinct, csvLines_printCounters hnames hlabels, List.filterMap_map] at hdistinct
  rw [csvLines_printCounters hnames hlabels, lines_printCounters hnames hlabels,
    List.filterMap_map] at hpairs
  rw [csvLines_printCounters hnames hlabels, lines_printCounters hnames hlabels, List.map_map]
  refine List.map_inj_left.mpr (eq_of_same_pairs hdistinct ?_ hpairs)
  intro line hline name v hperl
  -- the table has the pair as well, so there is no comma in the name
  have hcomma : ',' ∉ name := by
    obtain ⟨other, -, hother⟩ := List.mem_filterMap.mp
      ((hpairs (name, v)).mpr (List.mem_filterMap.mpr ⟨line, hline, hperl⟩))
    exact not_mem_csvPair hother
  rcases mem_counterOutputs_iff.mp hline with hsilent | ⟨count, -, rfl⟩
  · rw [(silent_of_mem hsilent).2.1] at hperl
    cases hperl
  · obtain ⟨name', hcsv, hname⟩ := csvPair_of_perlPair hperl
    rw [commas_eq_self_iff.mpr hcomma] at hname
    exact ⟨name', hcsv, hname⟩

end

/-! ## The exact condition -/

/-- **When the two readers of the count file agree.**  The header has been read, and the
names and labels have no newlines.  Line by line the readers take the same pairs exactly if
every printed count is alike to both; then they end up with the same set of pairs; and
where no name is printed twice, they end up with the same set in no other case. -/
theorem readers_agree_iff (settings : PrintSettings) (thread : PerthreadData)
    (hnames : ∀ name ∈ settings.cfg.eventnames, '\n' ∉ name)
    (hlabels : ∀ j ∈ usedCalipers thread, '\n' ∉ (thread.data j).label)
    (start : Report) (pid : Text) (hpid : start.pid = some pid) :
    (ReadersAgree start (printCounters settings thread) ↔ CountsAlike settings thread) ∧
      (CountsAlike settings thread → SamePairs start (printCounters settings thread)) ∧
      (NamesDistinct (printCounters settings thread) →
        (SamePairs start (printCounters settings thread) ↔ CountsAlike settings thread)) := by
  have hiff := readersAgree_iff_countsAlike hnames hlabels hpid
  refine ⟨hiff, fun halike => (hiff.mpr halike).samePairs, fun hdistinct => ?_⟩
  constructor
  · intro hsame
    exact hiff.mp (readersAgree_of_samePairs hnames hlabels hdistinct hsame)
  · intro halike
    exact (hiff.mpr halike).samePairs

/-- A thread with a caliper that has a plain label. -/
theorem readers_agree_labelled :
    (∀ name ∈ labelledSettings.cfg.eventnames, '\n' ∉ name) ∧
      (∀ j ∈ usedCalipers (labelledThread "solve".toList),
        '\n' ∉ ((labelledThread "solve".toList).data j).label) ∧
      ReadersAgree atThreadZero
        (printCounters labelledSettings (labelledThread "solve".toList)) := by
  have hnames : ∀ name ∈ labelledSettings.cfg.eventnames, '\n' ∉ name := by decide
  have hlabels : ∀ j ∈ usedCalipers (labelledThread "solve".toList),
      '\n' ∉ ((labelledThread "solve".toList).data j).label := by decide
  have halike : CountsAlike labelledSettings (labelledThread "solve".toList) := by
    unfold CountsAlike
    decide
  exact ⟨hnames, hlabels,
    (readers_agree_iff _ _ hnames hlabels atThreadZero ['4', '2'] rfl).1.mpr halike⟩

/-! ### A negative count -/

/-- `process_input` takes no text with a sign for a value. -/
theorem not_minus_mem_perlPair {line name v : Text} (h : perlPair line = some (name, v)) :
    '-' ∉ v := by
  unfold perlPair at h
  split at h
  · cases h
  · obtain ⟨count, hcount, hpair⟩ := Option.map_eq_some_iff.mp h
    cases hpair
    intro hmem
    have hnumber := (matchCount_eq_some_iff.mp hcount).1
    unfold matchNumber at hnumber
    simp only [Option.ite_none_right_eq_some, Option.some.injEq, Prod.mk.injEq] at hnumber
    rw [← hnumber.2.1] at hmem
    exact absurd (List.mem_takeWhile_imp hmem) (by decide)

/-- **A negative count sets the readers apart**, whatever else is printed. -/
theorem not_samePairs_of_neg (hnames : ∀ name ∈ settings.cfg.eventnames, '\n' ∉ name)
    (hlabels : ∀ j ∈ usedCalipers thread, '\n' ∉ (thread.data j).label) {start : Report}
    {count : Text × ℤ} (hcount : count ∈ printedFields settings thread)
    (hlabel : ¬ labelMarker <+: count.1.dropWhile isSpace) (hneg : count.2 < 0) :
    ¬ SamePairs start (printCounters settings thread) := by
  rintro ⟨-, hpairs⟩
  rw [csvLines_printCounters hnames hlabels, List.filterMap_map] at hpairs
  have hcsv := csvPair_countLine count.2 count.1
  rw [if_neg hlabel, signed_of_neg hneg] at hcsv
  have hmem := mem_counterOutputs_iff.mpr (.inr ⟨count, hcount, rfl⟩)
  obtain ⟨line, -, hline⟩ := List.mem_filterMap.mp
    ((hpairs _).mp (List.mem_filterMap.mpr ⟨_, hmem, hcsv⟩))
  exact not_minus_mem_perlPair hline List.mem_cons_self

/-- A thread one of whose counters ended below where it started. -/
def negativeThread : PerthreadData where
  data := fun _ => { counters := fun _ => -5 }

/-- The table has the count `-5` and the report does not. -/
theorem readers_agree_negative :
    (∀ name ∈ labelledSettings.cfg.eventnames, '\n' ∉ name) ∧
      (∀ j ∈ usedCalipers negativeThread, '\n' ∉ (negativeThread.data j).label) ∧
      ¬ SamePairs atThreadZero (printCounters labelledSettings negativeThread) := by
  have hnames : ∀ name ∈ labelledSettings.cfg.eventnames, '\n' ∉ name := by decide
  have hlabels : ∀ j ∈ usedCalipers negativeThread, '\n' ∉ (negativeThread.data j).label := by
    decide
  have hcount : ("PAPI_TOT_CYC".toList, -5) ∈ printedFields labelledSettings negativeThread := by
    decide
  exact ⟨hnames, hlabels,
    not_samePairs_of_neg hnames hlabels hcount (by decide) (by decide)⟩

end Papiex
