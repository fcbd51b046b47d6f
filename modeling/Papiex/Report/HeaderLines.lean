import Papiex.Report.Files

/-!
# Header lines read back

`print_executable_info` writes a name, padded to 30 columns, a colon, a blank and
the value.  `process_input` looks for the *last* colon that has a blank in front of
it and something to read behind it.  So the value decides: one that has such a colon
itself moves the split into the value, and the field is stored under a name that
nobody asks for.

Such a stray name has a colon in it, and the names of the header have none.  This is
what keeps the other fields of the header safe from it.

## Main results

* `matchHeader_infoLine_iff`: when a header line is read as it was written.
* `header_lines_read_back_iff`: when the fields of a whole header are.

## Design notes

The expression splits at the last colon where the rest of it matches, so all splits are
listed with the last one first, and the split that was written is the last one exactly if the
value has none of its own.  Keys with a colon are set apart from those without, which is the
invariant of the loop over the header.
-/

namespace Papiex

open Chars Report FallibleRun

/-! ## The fields of the header -/

/-- The fields `print_executable_info` prints, in this order. -/
def headerFields (info : ExecutableInfo) : List (Text × Text) :=
  [("papiex version".toList, info.version), ("papiex build".toList, info.build),
    ("Executable".toList, info.executable), ("Arguments".toList, info.arguments),
    ("Processor".toList, info.processor), ("Clockrate (MHz)".toList, info.clockrate),
    ("Hostname".toList, info.hostname), ("Options".toList, info.options),
    ("Domain".toList, info.domain), ("Parent process id".toList, decimal info.parentPid),
    ("Process id".toList, decimal info.pid)]

theorem executableInfoLines_eq (info : ExecutableInfo) :
    executableInfoLines info = (headerFields info).map fun field => infoLine field.1 field.2 :=
  rfl

/-- The value starts with a character that is not a blank. -/
def StartsWritten (value : Text) : Prop := ∃ c rest, value = c :: rest ∧ isSpace c = false

/-- Somewhere in the value is a colon at the front or after a blank, and not only blanks
behind it. -/
def splitsLater (value : Text) : Bool :=
  (colonSplits value).any fun split =>
    split.1.getLast?.all isSpace && split.2.any fun c => !isSpace c

/-- A name of a header line: without a colon, and found in front of the writer's. -/
structure HeaderName (name : Text) : Prop where
  colon_not_mem : ':' ∉ padRight 30 name
  headerField_eq : headerField (padRight 30 name) = some name

/-! ## Where a header line is split -/

/-- The splits of a line whose first part has no colon. -/
theorem colonSplits_append_of_not_mem {before : Text} (hbefore : ':' ∉ before) (after : Text) :
    colonSplits (before ++ ':' :: after) =
      (colonSplits after).map (fun split => (before ++ ':' :: split.1, split.2)) ++
        [(before, after)] := by
  induction before with
  | nil => simp [colonSplits]
  | cons c before ih =>
      rw [List.mem_cons, not_or] at hbefore
      rw [List.cons_append, colonSplits, ih hbefore.2, if_neg (Ne.symm hbefore.1)]
      simp

/-- What the expression makes of one split. -/
def matchSplit (split : Text × Text) : Option (Text × Text) :=
  match headerField split.1, split.2.dropWhile isSpace with
  | some field, c :: val => some (field, c :: val)
  | _, _ => none

theorem matchHeader_eq_findSome? (line : Text) :
    matchHeader line = (colonSplits line).findSome? matchSplit := rfl

/-- A split is a header line if a field and a value are left of it. -/
theorem matchSplit_eq_some_iff {split : Text × Text} {field val : Text} :
    matchSplit split = some (field, val) ↔
      headerField split.1 = some field ∧ split.2.dropWhile isSpace = val ∧ val ≠ [] := by
  unfold matchSplit
  cases headerField split.1 <;> cases split.2.dropWhile isSpace <;> simp +contextual [eq_comm]

/-- `[A-Za-z][a-z].+\S` of a text without a blank at its end. -/
def startsLikeName : Text → Bool
  | first :: second :: _ :: _ :: _ => first.isAlpha && second.isLower
  | _ => false

theorem startsLikeName_append {name : Text} (h : startsLikeName name = true) (rest : Text) :
    startsLikeName (name ++ rest) = true := by
  rcases name with _ | ⟨first, _ | ⟨second, _ | ⟨third, _ | ⟨fourth, name⟩⟩⟩⟩
  any_goals cases h
  exact h

/-- The field is what stands before the blanks, if there are any and it begins like a name. -/
theorem headerField_eq_some_iff {before field : Text} :
    headerField before = some field ↔
      before.rdropWhile isSpace = field ∧ startsLikeName field = true ∧ field ≠ before := by
  unfold headerField
  generalize before.rdropWhile isSpace = front
  constructor
  · intro h
    rcases front with _ | ⟨first, _ | ⟨second, _ | ⟨third, _ | ⟨fourth, rest⟩⟩⟩⟩
    any_goals cases h
    simp only [Option.ite_none_right_eq_some, Option.some.injEq, Bool.and_eq_true,
      decide_eq_true_eq] at h
    obtain ⟨⟨hname, hne⟩, rfl⟩ := h
    exact ⟨rfl, by simpa [startsLikeName] using hname, hne⟩
  · rintro ⟨rfl, hname, hne⟩
    rcases front with _ | ⟨first, _ | ⟨second, _ | ⟨third, _ | ⟨fourth, rest⟩⟩⟩⟩
    any_goals cases hname
    simp only [startsLikeName, Bool.and_eq_true] at hname
    simp [hname, hne]

variable {name value : Text}

/-- **A colon of the value takes the split** when a blank stands before it: the field then
reaches into the value. -/
theorem headerField_later (hname : HeaderName name) (front : Text) :
    headerField (padRight 30 name ++ ':' :: ' ' :: front) =
      if front.getLast?.all isSpace then
        some (padRight 30 name ++ ':' :: (' ' :: front).rdropWhile isSpace) else none := by
  have hdrop := rdropWhile_append_cons (p := isSpace) (c := ':') (by decide) (padRight 30 name)
    (' ' :: front)
  -- the blank before the colon is the one that the field loses
  have hblank : padRight 30 name ++ ':' :: (' ' :: front).rdropWhile isSpace ≠
      padRight 30 name ++ ':' :: ' ' :: front ↔ front.getLast?.all isSpace = true := by
    rw [Ne, List.append_cancel_left_eq, List.cons.injEq, and_iff_right rfl,
      List.rdropWhile_eq_self_iff]
    cases front using List.reverseRecOn with
    | nil => simp [isSpace]
    | append_singleton front c => simp [List.getLast_cons]
  obtain ⟨hname', hlike, -⟩ := headerField_eq_some_iff.mp hname.headerField_eq
  have hlike' : startsLikeName
      (padRight 30 name ++ ':' :: (' ' :: front).rdropWhile isSpace) = true := by
    rw [padRight, List.append_assoc]
    exact startsLikeName_append hlike _
  split
  · rename_i hlast
    rw [headerField_eq_some_iff]
    exact ⟨hdrop, hlike', hblank.mpr hlast⟩
  · rename_i hlast
    rw [Option.eq_none_iff_forall_ne_some]
    intro field hfield
    obtain ⟨rfl, -, hne⟩ := headerField_eq_some_iff.mp hfield
    rw [hdrop] at hne
    exact hlast (hblank.mp hne)

/-- The splits of a header line: first those in the value, then the writer's. -/
theorem colonSplits_infoLine (hname : HeaderName name) (value : Text) :
    colonSplits (infoLine name value) =
      (colonSplits value).map (fun split => (padRight 30 name ++ ':' :: ' ' :: split.1, split.2)) ++
        [(padRight 30 name, ' ' :: value)] := by
  have hline : infoLine name value = padRight 30 name ++ ':' :: ' ' :: value := by
    simp [infoLine]
  rw [hline, colonSplits_append_of_not_mem hname.colon_not_mem, colonSplits, if_neg (by decide)]
  simp

/-- Whether a later colon splits the line as well. -/
theorem matchSplit_later (hname : HeaderName name) (split : Text × Text) :
    (matchSplit (padRight 30 name ++ ':' :: ' ' :: split.1, split.2)).isSome =
      (split.1.getLast?.all isSpace && split.2.any fun c => !isSpace c) := by
  unfold matchSplit
  rw [headerField_later hname]
  cases hlast : split.1.getLast?.all isSpace with
  | false => simp
  | true =>
      rw [if_pos rfl, Bool.true_and]
      cases hval : split.2.dropWhile isSpace with
      | nil =>
          rw [List.dropWhile_eq_nil_iff] at hval
          have hany : (split.2.any fun c => !isSpace c) = false := by
            rw [List.any_eq_false]
            intro c hc
            simp [hval c hc]
          rw [hany]
          rfl
      | cons c val =>
          have hne : split.2.dropWhile isSpace ≠ [] := by simp [hval]
          rw [Ne, List.dropWhile_eq_nil_iff] at hne
          have hany : (split.2.any fun c => !isSpace c) = true := by
            rw [List.any_eq_true]
            push Not at hne
            obtain ⟨d, hd, hblank⟩ := hne
            exact ⟨d, hd, by simp [hblank]⟩
          rw [hany]
          rfl

/-- A field found at a later colon has a colon in it. -/
theorem colon_mem_of_matchSplit_later (hname : HeaderName name) {split : Text × Text}
    {field val : Text}
    (h : matchSplit (padRight 30 name ++ ':' :: ' ' :: split.1, split.2) = some (field, val)) :
    ':' ∈ field := by
  obtain ⟨hfield, -, -⟩ := matchSplit_eq_some_iff.mp h
  rw [headerField_later hname, Option.ite_none_right_eq_some, Option.some.injEq] at hfield
  rw [← hfield.2]
  simp

/-- No name of a header line has a colon. -/
theorem colon_not_mem_name (hname : HeaderName name) : ':' ∉ name := fun hmem =>
  hname.colon_not_mem (List.mem_append_left _ hmem)

/-- A header line is read under its name, or under a field with a colon in it. -/
theorem field_of_matchHeader (hname : HeaderName name) {field val : Text}
    (h : matchHeader (infoLine name value) = some (field, val)) : field = name ∨ ':' ∈ field := by
  rw [matchHeader_eq_findSome?, colonSplits_infoLine hname] at h
  obtain ⟨split, hsplit, hmatch⟩ := List.exists_of_findSome?_eq_some h
  rcases List.mem_append.mp hsplit with hlater | hhere
  · obtain ⟨later, -, rfl⟩ := List.mem_map.mp hlater
    exact .inr (colon_mem_of_matchSplit_later hname hmatch)
  · rw [List.mem_singleton] at hhere
    subst hhere
    obtain ⟨hfield, -, -⟩ := matchSplit_eq_some_iff.mp hmatch
    rw [hname.headerField_eq, Option.some.injEq] at hfield
    exact .inl hfield.symm

/-- **A header line is read as it was written if and only if no later colon takes the
split.** -/
theorem matchHeader_infoLine_iff (hname : HeaderName name) (hvalue : StartsWritten value) :
    matchHeader (infoLine name value) = some (name, value) ↔ splitsLater value = false := by
  have hhere : matchSplit (padRight 30 name, ' ' :: value) = some (name, value) := by
    obtain ⟨c, rest, rfl, hc⟩ := hvalue
    rw [matchSplit_eq_some_iff]
    refine ⟨hname.headerField_eq, ?_, by simp⟩
    rw [List.dropWhile_cons_of_pos (by decide), List.dropWhile_cons_of_neg (by simp [hc])]
  rw [matchHeader_eq_findSome?, colonSplits_infoLine hname, List.findSome?_append,
    List.findSome?_singleton, hhere]
  cases hlater : ((colonSplits value).map fun split =>
      (padRight 30 name ++ ':' :: ' ' :: split.1, split.2)).findSome? matchSplit with
  | none =>
      refine iff_of_true rfl ?_
      rw [List.findSome?_eq_none_iff, List.forall_mem_map] at hlater
      rw [splitsLater, List.any_eq_false]
      intro split hsplit
      rw [← matchSplit_later hname, hlater split hsplit]
      decide
  | some pair =>
      obtain ⟨split, hsplit, hmatch⟩ := List.exists_of_findSome?_eq_some hlater
      obtain ⟨later, hmem, rfl⟩ := List.mem_map.mp hsplit
      refine iff_of_false ?_ ?_
      · -- the field found there has a colon, the name has none
        intro heq
        cases heq
        exact colon_not_mem_name hname (colon_mem_of_matchSplit_later hname hmatch)
      · rw [Bool.not_eq_false, splitsLater, List.any_eq_true]
        refine ⟨later, hmem, ?_⟩
        rw [← matchSplit_later hname, hmatch, Option.isSome_some]

/-! ## What a line stores -/

theorem colon_ne_of_isSpace {c : Char} (h : isSpace c = true) : ':' ≠ c := by
  rintro rfl
  cases h

theorem colon_mem_spacesToUnderscore_iff {field : Text} :
    ':' ∈ spacesToUnderscore field ↔ ':' ∈ field := by
  fun_induction spacesToUnderscore field with
  | case1 => rfl
  | case2 c hspace => simp [colon_ne_of_isSpace hspace]
  | case3 c hspace d rest hnext ih => simp [ih, colon_ne_of_isSpace hspace]
  | case4 c hspace d rest hnext ih => simp [ih, colon_ne_of_isSpace hspace]
  | case5 c rest hspace ih => rw [List.mem_cons, List.mem_cons, ih]

namespace Report

variable {report next final : Report} {field val : Text}

/-- **What `process_input` makes of a line about the executable.** A value that differs from the
one under the name with underscores becomes `NOT_UNIQUE` there. -/
theorem globalData_readExeInfo (report : Report) (field val : Text) :
    (report.readExeInfo field val).globalData =
      match report.globalData.lookup (spacesToUnderscore field) with
      | some old =>
          if old ≠ val then
            report.globalData.insert (spacesToUnderscore field) "NOT_UNIQUE".toList
          else report.globalData.insert field val
      | none => report.globalData.insert field val := by
  unfold readExeInfo addExeField
  dsimp only
  generalize startsWith "Options" field = options
  generalize (startsWith "Clockrate" field ||
    field.tails.any fun tail => startsWith "Processor" tail) = clock
  cases options <;> cases clock <;> simp only [Bool.false_eq_true, if_false, if_true]
  all_goals
    cases report.globalData.lookup (spacesToUnderscore field) with
    | none => rfl
    | some old =>
        dsimp only
        split <;> rfl

theorem lookup_readExeInfo_of_ne {key : Text} (hne : key ≠ field)
    (hne' : key ≠ spacesToUnderscore field) :
    (report.readExeInfo field val).globalData.lookup key = report.globalData.lookup key := by
  rw [globalData_readExeInfo]
  split
  · split
    · exact AList.lookup_insert_ne hne'
    · exact AList.lookup_insert_ne hne
  · exact AList.lookup_insert_ne hne

/-- A field is stored under its name unless there is another value under its name with
underscores. -/
theorem lookup_readExeInfo_of_fresh
    (hfresh : report.globalData.lookup (spacesToUnderscore field) = none) (key : Text) :
    (report.readExeInfo field val).globalData.lookup key =
      if key = field then some val else report.globalData.lookup key := by
  rw [globalData_readExeInfo, hfresh, lookup_insert_eq_ite]

/-- The lines about the process leave the global data alone. -/
theorem globalData_readIdentity (report : Report) (field val : Text) :
    (report.readIdentity field val).globalData = report.globalData := by
  unfold readIdentity
  dsimp only
  split <;> split <;> rfl

/-- A line that is not part of the header stores no field. -/
theorem globalData_readLine {line : Text} (hheader : matchHeader line = none)
    (h : readLine report line = .ok next) : next.globalData = report.globalData := by
  unfold readLine at h
  rw [hheader] at h
  cases hlabel : matchLabel line with
  | some pair =>
      simp only [hlabel, readLabel] at h
      split at h
      · cases h
      · split at h <;> cases h
        rfl
  | none =>
      cases hcount : matchCount line with
      | some pair =>
          simp only [hlabel, hcount, readCount] at h
          split at h
          · cases h
          · split at h <;> cases h <;> rfl
      | none =>
          cases hdescription : matchDescription line with
          | none =>
              simp only [hlabel, hcount, hdescription] at h
              cases h
              rfl
          | some pair =>
              simp only [hlabel, hcount, hdescription, readDescription] at h
              split at h <;> cases h <;> rfl

/-- Lines that are not part of the header store none. -/
theorem globalData_readLines {rest : List Text} (hheader : ∀ line ∈ rest, matchHeader line = none)
    (h : readLines report rest = .ok final) : final.globalData = report.globalData := by
  refine run_invariant (fun middle : Report => middle.globalData = report.globalData)
    (fun line hline before after hbefore hafter => ?_) rfl h
  exact (globalData_readLine (hheader line hline) hafter).trans hbefore

/-- The names of the fields `process_input` stores. -/
def ExeName (name : Text) : Prop :=
  startsWith "Mpi Rank" name = false ∧ startsWith "Thread id" name = false

/-- **One header line stores at most its own field**, as far as names without a colon go;
and it stores it if it is read as it was written. -/
theorem readLine_infoLine (hname : HeaderName name)
    (hfresh : report.globalData.lookup (spacesToUnderscore name) = none)
    (h : readLine report (infoLine name value) = .ok next) :
    (∀ key, ':' ∉ key → key ≠ name →
      next.globalData.lookup key = report.globalData.lookup key) ∧
    (ExeName name → matchHeader (infoLine name value) = some (name, value) →
      next.globalData.lookup name = some value) := by
  cases hmatch : matchHeader (infoLine name value) with
  | none =>
      rw [globalData_readLine hmatch h]
      exact ⟨fun _ _ _ => rfl, fun _ hnone => by cases hnone⟩
  | some pair =>
      obtain ⟨field, val⟩ := pair
      have hread : readLine report (infoLine name value) = .ok (report.readHeader field val) := by
        unfold readLine
        rw [hmatch]
      rw [hread, Except.ok.injEq] at h
      subst h
      have hfield := field_of_matchHeader hname hmatch
      have hdata := globalData_readIdentity report field val
      unfold readHeader
      dsimp only
      constructor
      · intro key hkey hne
        split
        · exact congrArg (AList.lookup key) hdata
        · split
          · exact congrArg (AList.lookup key) hdata
          · rcases hfield with rfl | hcolon
            · rw [lookup_readExeInfo_of_fresh (by rw [hdata, hfresh]), if_neg hne, hdata]
            · -- a stray field has a colon, with blanks or with underscores
              rw [lookup_readExeInfo_of_ne, hdata]
              · rintro rfl
                exact hkey hcolon
              · rintro rfl
                exact hkey (colon_mem_spacesToUnderscore_iff.mpr hcolon)
      · rintro ⟨hrank, hthread⟩ hsame
        cases hsame
        rw [hrank, hthread]
        simp only [Bool.false_eq_true, if_false]
        rw [lookup_readExeInfo_of_fresh (by rw [hdata, hfresh]), if_pos rfl]

/-- **Header lines one after the other.**  Names that differ, also with underscores for
blanks, keep out of each other's way. -/
theorem readLines_infoLines {fields : List (Text × Text)}
    (hnames : ∀ field ∈ fields, HeaderName field.1)
    (hfresh : ∀ field ∈ fields,
      report.globalData.lookup (spacesToUnderscore field.1) = none)
    (hapart : fields.Pairwise fun early late =>
      early.1 ≠ late.1 ∧ early.1 ≠ spacesToUnderscore late.1)
    (h : readLines report (fields.map fun field => infoLine field.1 field.2) = .ok final) :
    (∀ key, ':' ∉ key → key ∉ fields.map Prod.fst →
      final.globalData.lookup key = report.globalData.lookup key) ∧
    ∀ field ∈ fields, ExeName field.1 → matchHeader (infoLine field.1 field.2) = some field →
      final.globalData.lookup field.1 = some field.2 := by
  induction fields generalizing report with
  | nil =>
      cases h
      exact ⟨fun _ _ _ => rfl, by simp⟩
  | cons field fields ih =>
      rw [List.forall_mem_cons] at hnames hfresh
      rw [List.pairwise_cons] at hapart
      obtain ⟨middle, hmiddle, hrest⟩ := run_cons_eq_ok_iff.mp h
      obtain ⟨hothers, hstored⟩ := readLine_infoLine hnames.1 hfresh.1 hmiddle
      have hcolon := colon_not_mem_name hnames.1
      have hfresh' : ∀ late ∈ fields,
          middle.globalData.lookup (spacesToUnderscore late.1) = none := by
        intro late hlate
        have hplain := mt colon_mem_spacesToUnderscore_iff.mp
          (colon_not_mem_name (hnames.2 late hlate))
        rw [hothers _ hplain (hapart.1 late hlate).2.symm, hfresh.2 late hlate]
      obtain ⟨hothers', hstored'⟩ := ih hnames.2 hfresh' hapart.2 hrest
      constructor
      · intro key hkey hnot
        rw [List.map_cons, List.mem_cons, not_or] at hnot
        rw [hothers' key hkey hnot.2, hothers key hkey hnot.1]
      · rw [List.forall_mem_cons]
        refine ⟨fun hexe hmatch => ?_, hstored'⟩
        -- the lines after it have other names
        have hnot : field.1 ∉ fields.map Prod.fst := by
          rintro hmem
          obtain ⟨late, hlate, hsame⟩ := List.mem_map.mp hmem
          exact (hapart.1 late hlate).1 hsame.symm
        rw [hothers' field.1 hcolon hnot]
        exact hstored hexe hmatch

end Report

/-! ## The header -/

open Report

/-- The header lines of `print_thread_stats` that have a name. -/
def allFields (info : ExecutableInfo) (rank tid : Option ℕ) (start finish : Text) :
    List (Text × Text) :=
  headerFields info ++ (rank.map fun rank => ("Mpi Rank".toList, decimal rank)).toList ++
    (tid.map fun tid => ("Thread id".toList, decimal tid)).toList ++
    [("Start".toList, start), ("Finish".toList, finish)]

/-- The names of the fields about the executable. -/
def executableNames : List Text :=
  ["papiex version", "papiex build", "Executable", "Arguments", "Processor", "Clockrate (MHz)",
    "Hostname", "Options", "Domain", "Parent process id", "Process id"].map String.toList

/-- All names of header lines. -/
def headerNames : List Text :=
  executableNames ++ ["Mpi Rank".toList] ++ ["Thread id".toList] ++
    ["Start".toList, "Finish".toList]

/-- All names that are printed are names for the report. -/
theorem headerName_of_mem {name : Text} (h : name ∈ headerNames) : HeaderName name := by
  have hall : ∀ name ∈ headerNames,
      ':' ∉ padRight 30 name ∧ headerField (padRight 30 name) = some name := by decide
  exact ⟨(hall name h).1, (hall name h).2⟩

theorem headerNames_apart : headerNames.Pairwise fun early late =>
    early ≠ late ∧ early ≠ spacesToUnderscore late := by
  decide

variable {info : ExecutableInfo} {rank tid : Option ℕ} {start finish : Text}

/-- The header is the lines of the fields and an empty line. -/
theorem headerLines_eq : headerLines info rank tid start finish =
    (allFields info rank tid start finish).map (fun field => infoLine field.1 field.2) ++ [[]] := by
  cases rank <;> cases tid <;> rfl

theorem headerFields_names (info : ExecutableInfo) :
    (headerFields info).map Prod.fst = executableNames := rfl

/-- The fields of a header are some of these names, in order. -/
theorem allFields_names_sublist :
    ((allFields info rank tid start finish).map Prod.fst).Sublist headerNames := by
  rw [allFields, List.map_append, List.map_append, List.map_append, headerFields_names]
  refine ((List.Sublist.refl _).append ?_ |>.append ?_).append (List.Sublist.refl _)
  · cases rank <;> simp
  · cases tid <;> simp

/-- The fields of the executable are no fields of the process. -/
theorem exeName_of_mem_headerFields {field : Text × Text} (h : field ∈ headerFields info) :
    ExeName field.1 := by
  have hall : ∀ name ∈ executableNames, startsWith "Mpi Rank" name = false ∧
      startsWith "Thread id" name = false := by decide
  exact hall field.1 (headerFields_names info ▸ List.mem_map_of_mem h)

/-- The line of a field was read as it was written, and whatever is read after the header
leaves the value under the name. -/
def ReadBack (report : Report) (name value : Text) : Prop :=
  matchHeader (infoLine name value) = some (name, value) ∧
    ∀ rest final, (∀ line ∈ rest, matchHeader line = none) →
      readLines report rest = .ok final → final.globalData.lookup name = some value

/-- **Header lines come back as they were written** if and only if the value has no colon
at its front or after a blank with something behind it.  In the first file that is read,
the value is then stored under the name. -/
theorem header_lines_read_back_iff (info : ExecutableInfo) (rank tid : Option ℕ)
    (start finish : Text)
    (hnewline : ∀ line ∈ headerLines info rank tid start finish, '\n' ∉ line) :
    ∃ report, readLines {} (lines (unlines (headerLines info rank tid start finish))) =
        .ok report ∧
      ∀ field ∈ headerFields info, StartsWritten field.2 →
        (ReadBack report field.1 field.2 ↔ splitsLater field.2 = false) := by
  have hlines : (headerLines info rank tid start finish).flatMap linesOf =
      headerLines info rank tid start finish := by
    rw [List.flatMap_congr fun line hline => linesOf_of_not_mem (hnewline line hline)]
    simp
  obtain ⟨report, hread, -⟩ := CountFile.readLines_header info rank tid start finish
    (CountFile.keepsCounts_of_newline hnewline) {}
  rw [hlines] at hread
  refine ⟨report, by rw [lines_unlines hnewline]; exact hread, fun field hfield hvalue => ?_⟩
  have hsub : ((allFields info rank tid start finish).map Prod.fst).Sublist headerNames :=
    allFields_names_sublist
  have hnames : ∀ field ∈ allFields info rank tid start finish, HeaderName field.1 :=
    fun field hmem => headerName_of_mem (hsub.subset (List.mem_map_of_mem hmem))
  have hmem : field ∈ allFields info rank tid start finish := by
    simp only [allFields, List.mem_append]
    exact .inl (.inl (.inl hfield))
  have hiff := matchHeader_infoLine_iff (hnames field hmem) hvalue
  refine ⟨fun hback => hiff.mp hback.1, fun hlater => ⟨hiff.mpr hlater, ?_⟩⟩
  intro rest final hrest hfinal
  -- the fields are read one after the other, and nothing else stores one
  rw [globalData_readLines hrest hfinal]
  rw [headerLines_eq, readLines, run_append_eq_ok_iff] at hread
  obtain ⟨middle, hfields, hlast⟩ := hread
  have hstored := (readLines_infoLines hnames (fun _ _ => AList.lookup_empty _)
    (List.pairwise_map.mp (headerNames_apart.sublist hsub)) hfields).2
  have hblank : ∀ line ∈ [([] : Text)], matchHeader line = none := by
    simp [matchHeader, colonSplits]
  rw [globalData_readLines hblank hlast]
  exact hstored field hmem (exeName_of_mem_headerFields hfield) (hiff.mpr hlater)

/-! ### A colon between blanks -/

/-- The header fields of a program run with these arguments. -/
def infoWithArguments (arguments : Text) : ExecutableInfo :=
  { infoOn "node1".toList with arguments }

/-- Arguments that are read back, from a node of its own. -/
theorem header_lines_read_back_node1 :
    ∃ report, readLines {} (lines (unlines (headerLines (infoWithArguments "-n 4".toList) none
        none "now".toList "then".toList))) = .ok report ∧
      report.globalData.lookup "Arguments".toList = some "-n 4".toList := by
  obtain ⟨report, hread, hback⟩ := header_lines_read_back_iff (infoWithArguments "-n 4".toList)
    none none "now".toList "then".toList (by decide)
  have hfield := (hback ("Arguments".toList, "-n 4".toList) (by decide)
    ⟨'-', "n 4".toList, rfl, rfl⟩).mpr (by decide)
  exact ⟨report, hread, hfield.2 [] report (by simp) rfl⟩

/-- A colon with a blank before it and a word behind: the field of the line is a name
with half of the arguments in it, and nothing is stored under `Arguments`. -/
theorem header_line_split_in_value :
    StartsWritten "key : value".toList ∧
      matchHeader (infoLine "Arguments".toList "key : value".toList) =
        some (padRight 30 "Arguments".toList ++ ": key".toList, "value".toList) ∧
      ∃ report, readLines {} (lines (unlines (headerLines
          (infoWithArguments "key : value".toList) none none "now".toList "then".toList))) =
            .ok report ∧
        report.globalData.lookup "Arguments".toList = none := by
  refine ⟨⟨'k', "ey : value".toList, rfl, rfl⟩, by decide, ?_⟩
  exact ⟨_, rfl, rfl⟩

end Papiex
