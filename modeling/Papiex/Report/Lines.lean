import Papiex.Lib.LastWrite
import Papiex.Report.Input

/-!
# What one line does

The input loop decides line by line.  For a line that is not part of the header
the decision is summed up in two functions of the line: the count it writes, with
its level and key, and the label it gives to an index.  A run over such lines is
then described by the writes of its lines alone, and the proofs about whole files
never look into the regular expressions again.

## Main results

* `Reads.of_silent`, `Reads.of_label`, `Reads.of_count`: the three kinds of lines.
* `readsAll_of_readLines`: a run over lines.

## Design notes

A count goes to the key that its line says, and later lines write over earlier ones, so the
state after some lines is that of the last write to each key (`Papiex.Lib.LastWrite`).  The
relation `ReadsAll` is this for a run; it composes, and the run lemma is an induction on the
lines.
-/

namespace Papiex

open Chars

/-! ## Header lines -/

/-- The line is split at each of its colons. -/
theorem mem_colonSplits_iff {line before after : Text} :
    (before, after) ∈ colonSplits line ↔ line = before ++ ':' :: after := by
  induction line generalizing before with
  | nil => simp [colonSplits]
  | cons c rest ih =>
      rw [colonSplits, List.mem_append, List.mem_map]
      constructor
      · rintro (⟨⟨front, back⟩, hsplit, heq⟩ | hhere)
        · cases heq
          rw [List.cons_append, ← ih.mp hsplit]
        · split at hhere
          · obtain ⟨rfl, rfl⟩ := Prod.mk.inj (List.mem_singleton.mp hhere)
            simp [*]
          · cases hhere
      · intro hline
        cases before with
        | nil =>
            obtain ⟨rfl, rfl⟩ := List.cons.inj hline
            exact .inr (by simp)
        | cons d front =>
            obtain ⟨rfl, hrest⟩ := List.cons.inj hline
            exact .inl ⟨(front, after), ih.mpr hrest, rfl⟩

/-- A header field is what stands before the colon, less the blanks at its end. -/
theorem headerField_eq_some {before field : Text} (h : headerField before = some field) :
    field <+: before ∧ ∃ first second rest,
      field = first :: second :: rest ∧ first.isAlpha = true ∧ 2 ≤ rest.length := by
  have hbegins : before.rdropWhile isSpace <+: before := List.rdropWhile_prefix isSpace before
  unfold headerField at h
  revert hbegins h
  rcases before.rdropWhile isSpace with
    _ | ⟨first, _ | ⟨second, _ | ⟨third, _ | ⟨fourth, rest⟩⟩⟩⟩ <;> intro h hbegins
  any_goals contradiction
  simp only [Option.ite_none_right_eq_some, Option.some.injEq, Bool.and_eq_true] at h
  obtain ⟨⟨⟨hfirst, -⟩, -⟩, rfl⟩ := h
  exact ⟨hbegins, first, second, third :: fourth :: rest, rfl, hfirst, by simp⟩

/-- A header line is a field, a colon and a value that is not empty. -/
theorem matchHeader_eq_some {line field val : Text} (h : matchHeader line = some (field, val)) :
    ∃ before after, line = before ++ ':' :: after ∧ headerField before = some field ∧
      after.dropWhile isSpace = val ∧ val ≠ [] := by
  obtain ⟨⟨before, after⟩, hsplit, hmatch⟩ := List.exists_of_findSome?_eq_some h
  refine ⟨before, after, mem_colonSplits_iff.mp hsplit, ?_⟩
  revert hmatch
  cases hfield : headerField before <;> cases hval : after.dropWhile isSpace <;>
    simp +contextual [eq_comm]

/-- A line that does not start with a letter is not a header line. -/
theorem matchHeader_of_not_isAlpha {line : Text}
    (h : ∀ c ∈ line.head?, c.isAlpha = false) : matchHeader line = none := by
  cases hmatch : matchHeader line with
  | none => rfl
  | some pair =>
      obtain ⟨before, after, rfl, hfield, -, -⟩ := matchHeader_eq_some hmatch
      obtain ⟨⟨blank, rfl⟩, first, second, rest, hcons, hfirst, -⟩ := headerField_eq_some hfield
      rw [hcons] at h
      have hnot := h first (by simp)
      rw [hfirst] at hnot
      cases hnot

/-- A line without a colon is not a header line. -/
theorem matchHeader_of_not_mem {line : Text} (h : ':' ∉ line) : matchHeader line = none := by
  cases hmatch : matchHeader line with
  | none => rfl
  | some pair =>
      obtain ⟨before, after, rfl, -⟩ := matchHeader_eq_some hmatch
      simp at h

/-! ## Number lines -/

/-- A line that does not begin with a number has no count. -/
theorem matchNumber_of_not_isNumberChar {line : Text}
    (h : ∀ c ∈ line.head?, isNumberChar c = false) : matchNumber line = none := by
  unfold matchNumber
  cases line with
  | nil => simp
  | cons c rest => simp [h c rfl]

/-- A number, blanks, and a field that does not start with a blank. -/
theorem matchNumber_append {number blank field : Text} (hne : number ≠ [])
    (hnumber : ∀ c ∈ number, isNumberChar c = true) (hblank : blank ≠ [])
    (hspace : ∀ c ∈ blank, isSpace c = true ∧ isNumberChar c = false)
    (hfield : ∀ c ∈ field.head?, isSpace c = false) :
    matchNumber (number ++ (blank ++ field)) = some (number, field) := by
  obtain ⟨b, blank, rfl⟩ := List.exists_cons_of_ne_nil hblank
  have hb := hspace b List.mem_cons_self
  have htake : (number ++ (b :: blank ++ field)).takeWhile isNumberChar = number := by
    rw [List.takeWhile_append_of_pos hnumber, List.cons_append,
      List.takeWhile_cons_of_neg (by simp [hb.2]), List.append_nil]
  have hdrop : (number ++ (b :: blank ++ field)).dropWhile isNumberChar =
      b :: blank ++ field := by
    rw [List.dropWhile_append_of_pos hnumber, List.cons_append,
      List.dropWhile_cons_of_neg (by simp [hb.2])]
  have hrest : (b :: blank ++ field).dropWhile isSpace = field := by
    rw [List.dropWhile_append_of_pos fun c hc => (hspace c hc).1]
    cases field with
    | nil => rfl
    | cons c rest => rw [List.dropWhile_cons_of_neg (by simp [hfield c rfl])]
  unfold matchNumber
  simp only [htake, hdrop, hrest]
  have hlonger : b :: blank ++ field ≠ field := by
    intro heq
    have hlength := congrArg List.length heq
    simp at hlength
    omega
  rw [if_pos ⟨hne, hlonger⟩]

/-- A label is a count whose field begins with the marker. -/
theorem matchLabel_eq_some_iff {line number label : Text} :
    matchLabel line = some (number, label) ↔
      ∃ field, matchNumber line = some (number, field) ∧ field = "[LABEL] ".toList ++ label := by
  unfold matchLabel
  cases hnumber : matchNumber line with
  | none => simp
  | some pair =>
      obtain ⟨found, field⟩ := pair
      simp only [Option.map_eq_some_iff, dropPrefix_eq_some_iff, Prod.mk.injEq, Option.some.injEq]
      constructor
      · rintro ⟨rest, rfl, rfl, rfl⟩
        exact ⟨_, ⟨rfl, rfl⟩, rfl⟩
      · rintro ⟨rest, ⟨rfl, rfl⟩, rfl⟩
        exact ⟨label, rfl, rfl, rfl⟩

/-- The label of a line is the end of the line. -/
theorem suffix_of_matchLabel {line number label : Text}
    (h : matchLabel line = some (number, label)) : label <:+ line := by
  obtain ⟨field, hnumber, rfl⟩ := matchLabel_eq_some_iff.mp h
  have hfield : "[LABEL] ".toList ++ label <:+ line := by
    unfold matchNumber at hnumber
    simp only [Option.ite_none_right_eq_some, Option.some.injEq, Prod.mk.injEq] at hnumber
    rw [← hnumber.2.2]
    exact (List.dropWhile_suffix _).trans (List.dropWhile_suffix _)
  exact (List.suffix_append _ _).trans hfield

/-- A count has a field of two characters at least, which does not end in a blank. -/
theorem matchCount_eq_some_iff {line number field : Text} :
    matchCount line = some (number, field) ↔
      matchNumber line = some (number, field) ∧ 2 ≤ field.length ∧
        field.getLast?.all (fun c => !isSpace c) = true := by
  unfold matchCount
  cases hnumber : matchNumber line with
  | none => simp
  | some pair =>
      obtain ⟨found, rest⟩ := pair
      simp only [Option.ite_none_right_eq_some, Option.some.injEq, Prod.mk.injEq]
      constructor
      · rintro ⟨hrest, rfl, rfl⟩
        exact ⟨⟨rfl, rfl⟩, hrest⟩
      · rintro ⟨⟨rfl, rfl⟩, hrest⟩
        exact ⟨hrest, rfl, rfl⟩

/-- A decimal numeral is read as its number. -/
@[simp] theorem perlNum_decimal (n : ℕ) : perlNum (decimal n) = n := by
  have hdigit : ∀ c ∈ decimal n, c.isDigit = true := fun _ => isDigit_of_mem_decimal
  unfold perlNum
  simp [List.takeWhile_eq_self_iff.mpr hdigit, List.dropWhile_eq_nil_iff.mpr hdigit]

/-! ## Levels -/

theorem lookup_insert_eq_ite {V : Type} (hash : Hash V) (field key : Text) (val : V) :
    (hash.insert field val).lookup key = if key = field then some val else hash.lookup key := by
  by_cases hkey : key = field
  · subst hkey
    rw [AList.lookup_insert, if_pos rfl]
  · rw [AList.lookup_insert_ne hkey, if_neg hkey]

/-- A hash that is not there has no keys. -/
theorem lookup_getD_empty {V : Type} (hash : Option (Hash V)) (key : Text) :
    (hash.getD ∅).lookup key = hash.bind (·.lookup key) := by
  cases hash <;> rfl

namespace ProcessData

/-- The count of a field at a level: of the process, or of one of its threads. -/
def countAt (data : ProcessData) : Option Text → Text → Option ℚ
  | none, field => data.counts.lookup field
  | some tid, field => (data.threads.lookup tid).bind (·.lookup field)

/-- Write a count at a level. -/
def writeCount (level : Option Text) (field : Text) (val : ℚ) (data : ProcessData) :
    ProcessData :=
  match level with
  | none => data.setCount field val
  | some tid => data.setThreadCount tid field val

/-- **A count that is written is there, and nothing else changes.** -/
theorem countAt_writeCount (data : ProcessData) (level other : Option Text) (field key : Text)
    (val : ℚ) :
    (data.writeCount level field val).countAt other key =
      if other = level ∧ key = field then some val else data.countAt other key := by
  rcases level with _ | tid <;> rcases other with _ | otherTid
  · simp [writeCount, countAt, setCount, lookup_insert_eq_ite]
  · simp [writeCount, countAt, setCount]
  · simp [writeCount, countAt, setThreadCount]
  · simp only [countAt, writeCount, setThreadCount]
    by_cases htid : otherTid = tid
    · subst htid
      rw [AList.lookup_insert, Option.bind_some, lookup_insert_eq_ite, lookup_getD_empty]
      simp
    · rw [AList.lookup_insert_ne htid, if_neg (by simp [htid])]

end ProcessData

namespace Report

/-- The count of a field at a level of a process. -/
def countAt (report : Report) (pid : Text) (level : Option Text) (field : Text) : Option ℚ :=
  (report.processOf pid).countAt level field

variable (report : Report) (pid : Text) (change : ProcessData → ProcessData)

@[simp] theorem processOf_modifyProcess_self :
    (report.modifyProcess pid change).processOf pid = change (report.processOf pid) := by
  simp [modifyProcess, processOf]

theorem lookup_modifyProcess_of_ne {other : Text} (h : other ≠ pid) :
    (report.modifyProcess pid change).processData.lookup other =
      report.processData.lookup other := by
  simp [modifyProcess, AList.lookup_insert_ne h]

/-- The report has the process it writes to, and those it had. -/
theorem mem_modifyProcess_iff {other : Text} :
    other ∈ (report.modifyProcess pid change).processData ↔
      other = pid ∨ other ∈ report.processData :=
  AList.mem_insert _

/-! ## Lines after the header -/

/-- The count a line writes, with its level and its key: `[PROCESS]` sends it to the
process. -/
def countWritten (tid : Option Text) (line : Text) : Option (Option Text × Text × ℚ) :=
  if (matchLabel line).isSome then none
  else
    (matchCount line).map fun count =>
      match dropPrefixNoCase "[PROCESS] ".toList count.2 with
      | some stripped => (none, stripped, perlNum count.1)
      | none => (tid, count.2, perlNum count.1)

/-- What a line writes under this key at this level. -/
def written (tid level : Option Text) (field line : Text) : Option ℚ :=
  (countWritten tid line).bind fun count =>
    if level = count.1 ∧ field = count.2.1 then some count.2.2 else none

/-- The entry of the process after a line. -/
def applyLine (tid : Option Text) (line : Text) (data : ProcessData) : ProcessData :=
  match countWritten tid line with
  | none => data
  | some (level, field, val) => data.writeCount level field val

/-- What a line leaves at a place: what it writes there, or what was there. -/
theorem countAt_applyLine (tid level : Option Text) (field line : Text) (data : ProcessData) :
    (applyLine tid line data).countAt level field =
      (written tid level field line).or (data.countAt level field) := by
  unfold applyLine written
  cases hcount : countWritten tid line with
  | none => rfl
  | some count =>
      obtain ⟨otherLevel, key, val⟩ := count
      rw [Option.bind_some, ProcessData.countAt_writeCount]
      by_cases h : level = otherLevel ∧ field = key <;> simp [h]

/-- The label a line gives to this index. -/
def labelWritten (labelIndex line : Text) : Option Text :=
  (matchLabel line).bind fun label => if labelIndex = label.1 then some label.2 else none

variable {report next : Report} {pid : Text} {line : Text}

/-- **One line after the header.**  The current process and thread stay, and the
counts and labels change by what the line writes. -/
structure Reads (line : Text) (report next : Report) : Prop where
  pid_eq : next.pid = report.pid
  tid_eq : next.tid = report.tid
  processOf_eq : ∀ pid, report.pid = some pid →
    next.processOf pid = applyLine report.tid line (report.processOf pid)
  mem_of_mem : ∀ pid ∈ report.processData, pid ∈ next.processData
  lookup_of_ne : ∀ other, report.pid ≠ some other →
    next.processData.lookup other = report.processData.lookup other
  labelmap_eq : ∀ labelIndex, next.labelmap.lookup labelIndex =
    (labelWritten labelIndex line).or (report.labelmap.lookup labelIndex)

theorem countWritten_of_label {number label : Text} (tid : Option Text)
    (h : matchLabel line = some (number, label)) : countWritten tid line = none := by
  simp [countWritten, h]

theorem applyLine_of_countWritten {tid : Option Text} {data : ProcessData}
    (h : countWritten tid line = none) : applyLine tid line data = data := by
  simp [applyLine, h]

/-- A line writes at the one place of its count. -/
theorem written_eq_some_iff {tid level : Option Text} {field : Text} {val : ℚ} :
    written tid level field line = some val ↔ countWritten tid line = some (level, field, val) := by
  unfold written
  cases hcount : countWritten tid line with
  | none => simp
  | some count =>
      obtain ⟨otherLevel, key, other⟩ := count
      by_cases h : level = otherLevel ∧ field = key
      · simp [h]
      · simp only [Option.bind_some, if_neg h, Option.some.injEq, Prod.mk.injEq]
        constructor
        · rintro ⟨⟩
        · rintro ⟨rfl, rfl, -⟩
          exact absurd ⟨rfl, rfl⟩ h

/-- A line writes a label at the number before it. -/
theorem labelWritten_eq_some_iff {labelIndex label : Text} :
    labelWritten labelIndex line = some label ↔ matchLabel line = some (labelIndex, label) := by
  unfold labelWritten
  cases hlabel : matchLabel line with
  | none => simp
  | some pair =>
      obtain ⟨number, other⟩ := pair
      by_cases h : labelIndex = number
      · simp [h]
      · simp [h, Ne.symm h]

theorem labelWritten_of_no_label {labelIndex : Text} (h : matchLabel line = none) :
    labelWritten labelIndex line = none := by
  simp [labelWritten, h]

/-- A line that writes nothing leaves everything as it is, but for descriptions. -/
theorem Reads.of_silent (hlabel : matchLabel line = none) (hcount : matchCount line = none)
    (hpid : next.pid = report.pid) (htid : next.tid = report.tid)
    (hdata : next.processData = report.processData) (hmap : next.labelmap = report.labelmap) :
    Reads line report next := by
  have hsilent : ∀ tid, countWritten tid line = none := by
    intro tid
    unfold countWritten
    rw [hcount, Option.map_none, ite_self]
  refine ⟨hpid, htid, ?_, ?_, ?_, ?_⟩
  · intro pid _
    rw [applyLine_of_countWritten (hsilent _), processOf, processOf, hdata]
  · intro pid hmem
    rwa [hdata]
  · intro other _
    rw [hdata]
  · intro labelIndex
    rw [labelWritten_of_no_label hlabel, Option.none_or, hmap]

theorem Reads.of_label {number label : Text} (hlabel : matchLabel line = some (number, label)) :
    Reads line report
      { report with labelIndex := number, labelmap := report.labelmap.insert number label } := by
  refine ⟨rfl, rfl, ?_, fun _ => id, fun _ _ => rfl, ?_⟩
  · intro pid _
    rw [applyLine_of_countWritten (countWritten_of_label _ hlabel)]
    rfl
  · intro labelIndex
    rw [lookup_insert_eq_ite]
    by_cases hindex : labelIndex = number <;> simp [labelWritten, hlabel, hindex]

/-- A count goes to the process that is being read. -/
theorem Reads.of_count {level : Option Text} {field : Text} {val : ℚ}
    (hpid : report.pid = some pid) (hlabel : matchLabel line = none)
    (hcount : countWritten report.tid line = some (level, field, val)) :
    Reads line report (report.modifyProcess pid (.writeCount level field val)) := by
  refine ⟨rfl, rfl, ?_, ?_, ?_, ?_⟩
  · intro other hother
    obtain rfl : pid = other := Option.some.inj (hpid.symm.trans hother)
    rw [processOf_modifyProcess_self, applyLine, hcount]
  · intro other hmem
    exact (mem_modifyProcess_iff _ _ _).mpr (.inr hmem)
  · intro other hother
    exact lookup_modifyProcess_of_ne _ _ _ fun heq => hother (heq ▸ hpid)
  · intro labelIndex
    rw [labelWritten_of_no_label hlabel, Option.none_or]
    rfl

/-- A line that matches as a count is stored as what it writes. -/
theorem readCount_eq {number field : Text} (hpid : report.pid = some pid)
    (hlabel : matchLabel line = none) (hcount : matchCount line = some (number, field)) :
    ∃ level key val, countWritten report.tid line = some (level, key, val) ∧
      report.readCount line number field =
        .ok (report.modifyProcess pid (.writeCount level key val)) := by
  have hnot : (matchLabel line).isSome = false := by rw [hlabel]; rfl
  cases hmarked : dropPrefixNoCase "[PROCESS] ".toList field with
  | some stripped =>
      refine ⟨none, stripped, perlNum number, ?_, ?_⟩
      · simp only [countWritten, hnot, hcount, Option.map_some, hmarked]
        rfl
      · simp only [readCount, hpid, hmarked]
        rfl
  | none =>
      refine ⟨report.tid, field, perlNum number, ?_, ?_⟩
      · simp only [countWritten, hnot, hcount, Option.map_some, hmarked]
        rfl
      · simp only [readCount, hpid, hmarked]
        cases report.tid <;> rfl

/-- **A line after the header is read as it says**, if the label index it gives is
not below 1. -/
theorem readLine_of_not_header (hheader : matchHeader line = none) (hpid : report.pid = some pid) :
    (∃ number label, matchLabel line = some (number, label) ∧ perlNum number < 1 ∧
      readLine report line = .error (.invalidLabelIndex number label)) ∨
    (∀ number label, matchLabel line = some (number, label) → 1 ≤ perlNum number) ∧
      ∃ next, readLine report line = .ok next ∧ Reads line report next := by
  unfold readLine
  rw [hheader]
  cases hlabel : matchLabel line with
  | some pair =>
      obtain ⟨number, label⟩ := pair
      -- the one way to die: the count is taken for the index of a label
      by_cases hindex : perlNum number < 1
      · refine .inl ⟨number, label, rfl, hindex, ?_⟩
        simp only [readLabel, if_pos hindex]
      · refine .inr ⟨?_, _, ?_, Reads.of_label hlabel⟩
        · rintro _ _ ⟨⟩
          exact not_lt.mp hindex
        · simp only [readLabel, if_neg hindex, hpid]
  | none =>
      refine .inr ⟨by simp, ?_⟩
      cases hcount : matchCount line with
      | some pair =>
          obtain ⟨number, field⟩ := pair
          obtain ⟨level, key, val, hwritten, hread⟩ := readCount_eq hpid hlabel hcount
          exact ⟨_, hread, Reads.of_count hpid hlabel hwritten⟩
      | none =>
          cases hdescription : matchDescription line with
          | none => exact ⟨report, rfl, Reads.of_silent hlabel hcount rfl rfl rfl rfl⟩
          | some pair =>
              refine ⟨report.readDescription pair.1 pair.2, rfl, ?_⟩
              unfold readDescription
              split
              · exact Reads.of_silent hlabel hcount rfl rfl rfl rfl
              · exact Reads.of_silent hlabel hcount rfl rfl rfl rfl

/-! ## The label map over any lines -/

theorem labelmap_readHeader (report : Report) (field val : Text) :
    (report.readHeader field val).labelmap = report.labelmap := by
  have hidentity : (report.readIdentity field val).labelmap = report.labelmap := by
    unfold readIdentity
    dsimp only
    split <;> split <;> rfl
  have hexe : ∀ report : Report, (report.readExeInfo field val).labelmap = report.labelmap := by
    intro report
    unfold readExeInfo addExeField
    dsimp only
    split <;> split <;> split <;> (try split) <;> rfl
  unfold readHeader
  dsimp only
  split
  · exact hidentity
  · split
    · exact hidentity
    · rw [hexe, hidentity]

/-- Any line changes the label map at most by a label that ends the line. -/
theorem labelmap_readLine (h : readLine report line = .ok next) {labelIndex label : Text}
    (hlookup : next.labelmap.lookup labelIndex = some label) :
    report.labelmap.lookup labelIndex = some label ∨ label <:+ line := by
  unfold readLine at h
  split at h
  · cases h
    rw [labelmap_readHeader] at hlookup
    exact .inl hlookup
  · split at h
    · rename_i number text hlabel
      unfold readLabel at h
      split at h
      · cases h
      · split at h
        · cases h
        · cases h
          rw [lookup_insert_eq_ite] at hlookup
          split at hlookup
          · cases hlookup
            exact .inr (suffix_of_matchLabel hlabel)
          · exact .inl hlookup
    · split at h
      · unfold readCount at h
        split at h
        · cases h
        · split at h <;> cases h <;> exact .inl hlookup
      · split at h
        · cases h
          unfold readDescription at hlookup
          split at hlookup <;> exact .inl hlookup
        · cases h
          exact .inl hlookup

/-- Over lines, the labels in the map stay free of newlines. -/
theorem newline_not_mem_labelmap {all : List Text} {start final : Report}
    (hall : ∀ line ∈ all, '\n' ∉ line)
    (hstart : ∀ labelIndex label, start.labelmap.lookup labelIndex = some label → '\n' ∉ label)
    (hrun : readLines start all = .ok final) {labelIndex label : Text}
    (hlookup : final.labelmap.lookup labelIndex = some label) : '\n' ∉ label := by
  refine FallibleRun.run_invariant (fun report : Report =>
    ∀ labelIndex label, report.labelmap.lookup labelIndex = some label → '\n' ∉ label)
    ?_ hstart hrun labelIndex label hlookup
  intro line hline before after hbefore hread labelIndex label hlookup
  rcases labelmap_readLine hread hlookup with hold | hsuffix
  · exact hbefore labelIndex label hold
  · exact fun hmem => hall line hline (hsuffix.subset hmem)

/-! ## Runs over lines after the header -/

open FallibleRun LastWrite

variable {all : List Text} {start final : Report}

/-- What a run over lines after the header leaves: the current process and thread,
and for every key the last write. -/
structure ReadsAll (all : List Text) (start final : Report) : Prop where
  pid_eq : final.pid = start.pid
  tid_eq : final.tid = start.tid
  processOf_eq : ∀ pid, start.pid = some pid →
    final.processOf pid =
      all.foldl (fun data line => applyLine start.tid line data) (start.processOf pid)
  mem_of_mem : ∀ pid ∈ start.processData, pid ∈ final.processData
  lookup_of_ne : ∀ other, start.pid ≠ some other →
    final.processData.lookup other = start.processData.lookup other
  labelmap_eq : ∀ labelIndex, final.labelmap.lookup labelIndex =
    after (labelWritten labelIndex) (start.labelmap.lookup labelIndex) all

theorem ReadsAll.nil : ReadsAll [] start start :=
  ⟨rfl, rfl, fun _ _ => rfl, fun _ => id, fun _ _ => rfl, fun _ => rfl⟩

theorem ReadsAll.cons (hline : Reads line start next) (hrest : ReadsAll all next final) :
    ReadsAll (line :: all) start final where
  pid_eq := hrest.pid_eq.trans hline.pid_eq
  tid_eq := hrest.tid_eq.trans hline.tid_eq
  processOf_eq := by
    intro pid hpid
    rw [hrest.processOf_eq pid (hline.pid_eq.trans hpid), hline.tid_eq,
      hline.processOf_eq pid hpid]
    rfl
  mem_of_mem := by
    intro pid hmem
    exact hrest.mem_of_mem pid (hline.mem_of_mem pid hmem)
  lookup_of_ne := by
    intro other hother
    rw [hrest.lookup_of_ne other (hline.pid_eq ▸ hother), hline.lookup_of_ne other hother]
  labelmap_eq := by
    intro labelIndex
    rw [hrest.labelmap_eq, after_cons, hline.labelmap_eq]

/-- After some lines a place has what the last of them wrote there. -/
theorem countAt_foldl_applyLine (tid level : Option Text) (field : Text) (all : List Text)
    (data : ProcessData) :
    (all.foldl (fun data line => applyLine tid line data) data).countAt level field =
      after (written tid level field) (data.countAt level field) all := by
  induction all generalizing data with
  | nil => rfl
  | cons line all ih => rw [List.foldl_cons, ih, countAt_applyLine, after_cons]

/-- **After a run of `process_input` over count lines a place has what the last line wrote
there.** -/
theorem ReadsAll.countAt_eq (h : ReadsAll all start final) (hpid : start.pid = some pid)
    (level : Option Text) (field : Text) :
    final.countAt pid level field =
      after (written start.tid level field) (start.countAt pid level field) all := by
  rw [countAt, h.processOf_eq pid hpid, countAt_foldl_applyLine]
  rfl

/-- **A run over lines after the header succeeds exactly if no label index is below
1**, and then every key holds the last write. -/
theorem readLines_eq_ok_iff (hheader : ∀ line ∈ all, matchHeader line = none)
    (hpid : start.pid = some pid) :
    (∃ final, readLines start all = .ok final) ↔
      ∀ line ∈ all, ∀ number label, matchLabel line = some (number, label) →
        1 ≤ perlNum number := by
  unfold readLines
  induction all generalizing start with
  | nil => simp
  | cons line all ih =>
      rw [List.forall_mem_cons] at hheader
      rcases readLine_of_not_header hheader.1 hpid with
        ⟨number, label, hlabel, hlow, hdie⟩ | ⟨hindex, next, hnext, hreads⟩
      · constructor
        · rintro ⟨final, hrun⟩
          rw [run_cons_error hdie] at hrun
          cases hrun
        · intro hall
          exact absurd (hall line List.mem_cons_self number label hlabel) (not_le.mpr hlow)
      · rw [run_cons_ok hnext, ih hheader.2 (hreads.pid_eq.trans hpid), List.forall_mem_cons]
        exact ⟨fun h => ⟨hindex, h⟩, fun h => h.2⟩

/-- A run without header lines is one of labels and counts. -/
theorem readsAll_of_readLines (hheader : ∀ line ∈ all, matchHeader line = none)
    (hpid : start.pid = some pid) (hrun : readLines start all = .ok final) :
    ReadsAll all start final := by
  unfold readLines at hrun
  induction all generalizing start with
  | nil =>
      cases hrun
      exact ReadsAll.nil
  | cons line all ih =>
      rw [List.forall_mem_cons] at hheader
      rcases readLine_of_not_header hheader.1 hpid with
        ⟨number, label, -, -, hdie⟩ | ⟨-, next, hnext, hreads⟩
      · rw [run_cons_error hdie] at hrun
        cases hrun
      · rw [run_cons_ok hnext] at hrun
        exact ReadsAll.cons hreads (ih hheader.2 (hreads.pid_eq.trans hpid) hrun)

end Report

end Papiex
