import Papiex.Report.RoundTrip
import Papiex.Report.Totals

/-!
# Whole files

A file starts with the header of `print_thread_stats`.  Three of its lines tell the
reader where it is: the process, its rank and its thread.  All the others are
information about the executable, whatever their values are.  Reading a file
therefore changes one entry of the process hash only.

## Main results

* `CountFile`: what `print_thread_stats` writes, and what it takes for it to be read back.
* `readLines_file`, `readLines_files`: files change the entries of their processes.
* `totalsOf_files`: the totals of a job, from its files.

## Design notes

A file is given by what is printed into it, and its text is made from that.  A value may have
a newline in it, so a line of the header may come to several lines for the reader; that these
do no harm is a hypothesis (`CountFile.ReadsBack`).  Files of one process may come with files
of others in between, and the entry of a process is what its own files make of it.
-/

namespace Papiex

open Chars Report FallibleRun KeyedFold

/-! ## Lines about the executable -/

/-- The line leaves the counts, and where the reader is, alone. -/
def KeepsCounts (line : Text) : Prop :=
  ∀ report : Report, ∃ next, report.readLine line = .ok next ∧ next.pid = report.pid ∧
    next.tid = report.tid ∧ next.processData = report.processData ∧
    next.labelmap = report.labelmap

/-- The fields that tell the reader where it is. -/
def identityFields : List String := ["Process id", "Mpi Rank", "Thread id"]

/-- The name of a header line that starts like none of the identity fields, and not like
a number. -/
def NeutralName (name : Text) : Prop :=
  (∀ c ∈ (padRight 30 name).head?, isNumberChar c = false) ∧ 30 ≤ (padRight 30 name).length ∧
    ∀ pattern ∈ identityFields, pattern.toList.length ≤ 30 ∧
      ¬ pattern.toList.map Char.toLower <+: (padRight 30 name).map Char.toLower

instance : DecidablePred NeutralName := fun name => by
  unfold NeutralName
  infer_instance

/-- The pattern of a header is compared without case. -/
theorem startsWith_iff {pattern : String} {field : Text} :
    startsWith pattern field = true ↔
      pattern.toList.map Char.toLower <+: field.map Char.toLower := by
  rw [startsWith, ← not_iff_not, Bool.not_eq_true, Option.isSome_eq_false_iff,
    Option.isNone_iff_eq_none, dropPrefixNoCase_eq_none_iff]

/-- The field of a header line is a prefix of the line, so its padded name shows how the
field starts. -/
theorem not_startsWith_of_matchHeader {name value field val : Text} {pattern : String}
    (hname : NeutralName name) (hpattern : pattern ∈ identityFields)
    (hmatch : matchHeader (infoLine name value) = some (field, val)) :
    startsWith pattern field = false := by
  obtain ⟨-, hlength, hneutral⟩ := hname
  obtain ⟨hshort, hnot⟩ := hneutral pattern hpattern
  obtain ⟨before, after, hline, hfield, -, -⟩ := matchHeader_eq_some hmatch
  have hbegins : field <+: infoLine name value :=
    (headerField_eq_some hfield).1.trans ⟨_, hline.symm⟩
  rw [Bool.eq_false_iff, Ne, startsWith_iff]
  intro hstarts
  apply hnot
  have hline' : pattern.toList.map Char.toLower <+: (infoLine name value).map Char.toLower :=
    hstarts.trans (hbegins.map _)
  rw [infoLine, List.append_assoc, List.map_append] at hline'
  refine List.prefix_of_prefix_length_le hline' (List.prefix_append _ _) ?_
  rw [List.length_map, List.length_map]
  omega

/-- A line about the executable changes the global data alone. -/
theorem readExeInfo_keeps (report : Report) (field val : Text) :
    (report.readExeInfo field val).pid = report.pid ∧
      (report.readExeInfo field val).tid = report.tid ∧
      (report.readExeInfo field val).processData = report.processData ∧
      (report.readExeInfo field val).labelmap = report.labelmap := by
  unfold readExeInfo addExeField
  dsimp only
  split <;> split <;> split <;> (try split) <;> exact ⟨rfl, rfl, rfl, rfl⟩

/-- A line without a number in front and without a field of the header is silent. -/
theorem keepsCounts_of_silent {line : Text} (hheader : matchHeader line = none)
    (hnumber : matchNumber line = none) : KeepsCounts line := by
  intro report
  unfold readLine matchLabel matchCount
  rw [hheader, hnumber]
  cases matchDescription line with
  | none => exact ⟨report, rfl, rfl, rfl, rfl, rfl⟩
  | some description =>
      refine ⟨_, rfl, ?_⟩
      unfold readDescription
      split <;> exact ⟨rfl, rfl, rfl, rfl⟩

/-- **A line about the executable leaves the counts alone, whatever its value is.** -/
theorem keepsCounts_infoLine {name : Text} (hname : NeutralName name) (value : Text) :
    KeepsCounts (infoLine name value) := by
  cases hmatch : matchHeader (infoLine name value) with
  | none =>
      apply keepsCounts_of_silent hmatch
      apply matchNumber_of_not_isNumberChar
      obtain ⟨hhead, hlength, -⟩ := hname
      intro c hc
      rw [infoLine, List.append_assoc, List.head?_append_of_ne_nil] at hc
      · exact hhead c hc
      · intro hnil
        rw [hnil] at hlength
        simp at hlength
  | some pair =>
      obtain ⟨field, val⟩ := pair
      intro report
      -- the name starts with none of the fields that say where the counts belong
      have hnot : ∀ pattern ∈ identityFields, startsWith pattern field = false :=
        fun pattern hpattern => not_startsWith_of_matchHeader hname hpattern hmatch
      have hprocess := hnot "Process id" (by decide)
      have hrank := hnot "Mpi Rank" (by decide)
      have hthread := hnot "Thread id" (by decide)
      refine ⟨report.readHeader field val, ?_, ?_⟩
      · unfold readLine
        rw [hmatch]
      · obtain ⟨hpid, htid, hdata, hmap⟩ :=
          readExeInfo_keeps (report.readIdentity field val) field val
        have hkeep : (report.readIdentity field val).pid = report.pid ∧
            (report.readIdentity field val).tid = report.tid ∧
            (report.readIdentity field val).processData = report.processData ∧
            (report.readIdentity field val).labelmap = report.labelmap := by
          unfold readIdentity
          rw [hprocess]
          split <;> exact ⟨rfl, rfl, rfl, rfl⟩
        have hread : report.readHeader field val =
            (report.readIdentity field val).readExeInfo field val := by
          simp only [readHeader, hrank, hthread, Bool.false_eq_true, if_false]
        rw [hread, hpid, htid, hdata, hmap]
        exact hkeep

/-- Lines that leave the counts alone do so one after the other. -/
theorem readLines_keepsCounts {all : List Text} (hall : ∀ line ∈ all, KeepsCounts line)
    (report : Report) : ∃ next, readLines report all = .ok next ∧ next.pid = report.pid ∧
      next.tid = report.tid ∧ next.processData = report.processData ∧
      next.labelmap = report.labelmap := by
  unfold readLines
  induction all generalizing report with
  | nil => exact ⟨report, rfl, rfl, rfl, rfl, rfl⟩
  | cons line all ih =>
      rw [List.forall_mem_cons] at hall
      obtain ⟨middle, hmiddle, hpid, htid, hdata, hmap⟩ := hall.1 report
      obtain ⟨next, hnext, hpid', htid', hdata', hmap'⟩ := ih hall.2 middle
      refine ⟨next, ?_, hpid'.trans hpid, htid'.trans htid, hdata'.trans hdata,
        hmap'.trans hmap⟩
      rw [run_cons_ok hmiddle, hnext]

/-! ## The lines that tell where the reader is -/

theorem colonSplits_of_not_mem {text : Text} (h : ':' ∉ text) : colonSplits text = [] := by
  rw [List.eq_nil_iff_forall_not_mem]
  rintro ⟨before, after⟩ hmem
  rw [mem_colonSplits_iff.mp hmem] at h
  simp at h

theorem colonSplits_append {before after : Text} (hbefore : ':' ∉ before) (hafter : ':' ∉ after) :
    colonSplits (before ++ ':' :: after) = [(before, after)] := by
  induction before with
  | nil => simp [colonSplits, colonSplits_of_not_mem hafter]
  | cons c before ih =>
      rw [List.mem_cons, not_or] at hbefore
      rw [List.cons_append, colonSplits, ih hbefore.2]
      simp [Ne.symm hbefore.1]

theorem not_isSpace_of_isDigit {c : Char} (h : c.isDigit = true) : isSpace c = false := by
  rw [Bool.eq_false_iff]
  intro hspace
  simp only [isSpace, Bool.or_eq_true, decide_eq_true_eq] at hspace
  rcases hspace with ((((rfl | rfl) | rfl) | rfl) | rfl) | rfl <;> exact absurd h (by decide)

/-- A number behind one of these fields is read back. -/
theorem matchHeader_identity {pattern : String} (hpattern : pattern ∈ identityFields) (n : ℕ) :
    matchHeader (infoLine pattern.toList (decimal n)) = some (pattern.toList, decimal n) := by
  have hall : ∀ pattern ∈ identityFields, ':' ∉ padRight 30 pattern.toList ∧
      headerField (padRight 30 pattern.toList) = some pattern.toList := by decide
  obtain ⟨hcolon, hfield⟩ := hall pattern hpattern
  have hline : infoLine pattern.toList (decimal n) =
      padRight 30 pattern.toList ++ ':' :: ' ' :: decimal n := by
    simp [infoLine]
  have hafter : ':' ∉ ' ' :: decimal n := by
    rw [List.mem_cons, not_or]
    exact ⟨by decide, not_mem_decimal (by decide)⟩
  have hvalue : (' ' :: decimal n).dropWhile isSpace = decimal n := by
    rw [List.dropWhile_cons_of_pos (by decide)]
    obtain ⟨c, digits, hcons⟩ := List.exists_cons_of_ne_nil (decimal_ne_nil n)
    have hdigit : c.isDigit = true :=
      isDigit_of_mem_decimal (n := n) (by rw [hcons]; exact List.mem_cons_self)
    rw [hcons, List.dropWhile_cons_of_neg (by simp [not_isSpace_of_isDigit hdigit])]
  obtain ⟨c, digits, hcons⟩ := List.exists_cons_of_ne_nil (decimal_ne_nil n)
  unfold matchHeader
  rw [hline, colonSplits_append hcolon hafter, List.findSome?_singleton, hfield, hvalue, hcons]

theorem removeSpaces_decimal (n : ℕ) : removeSpaces (decimal n) = decimal n := by
  rw [removeSpaces, List.filter_eq_self]
  intro c hc
  simp [not_isSpace_of_isDigit (isDigit_of_mem_decimal hc)]

/-- The line of the process makes it the current one, with no thread. -/
theorem readLine_processId (report : Report) (n : ℕ) :
    ∃ next, report.readLine (infoLine "Process id".toList (decimal n)) = .ok next ∧
      next.pid = some (decimal n) ∧ next.tid = none ∧
      next.processData = report.processData ∧ next.labelmap = report.labelmap := by
  have hhost : startsWith "Hostname" "Process id".toList = false := by decide
  have hprocess : startsWith "Process id" "Process id".toList = true := by decide
  have hrank : startsWith "Mpi Rank" "Process id".toList = false := by decide
  have hthread : startsWith "Thread id" "Process id".toList = false := by decide
  refine ⟨_, by rw [readLine, matchHeader_identity (by decide)], ?_⟩
  simp only [readHeader, hrank, hthread, Bool.false_eq_true, if_false]
  obtain ⟨hpid, htid, hdata, hmap⟩ := readExeInfo_keeps
    (report.readIdentity "Process id".toList (decimal n)) "Process id".toList (decimal n)
  rw [hpid, htid, hdata, hmap]
  simp only [readIdentity, hhost, hprocess, Bool.false_eq_true, if_false, if_true,
    removeSpaces_decimal, and_self]

/-- The line of the rank is noted in the entry of the process. -/
theorem readLine_rank {report : Report} {pid : Text} (hpid : report.pid = some pid) (n : ℕ) :
    ∃ next, report.readLine (infoLine "Mpi Rank".toList (decimal n)) = .ok next ∧
      next.pid = some pid ∧ next.tid = report.tid ∧ next.labelmap = report.labelmap ∧
      next.processData = (report.modifyProcess pid fun data =>
        { data with rank := some (decimal n) }).processData := by
  have hhost : startsWith "Hostname" "Mpi Rank".toList = false := by decide
  have hprocess : startsWith "Process id" "Mpi Rank".toList = false := by decide
  have hrank : startsWith "Mpi Rank" "Mpi Rank".toList = true := by decide
  refine ⟨_, by rw [readLine, matchHeader_identity (by decide)], ?_⟩
  simp only [readHeader, readIdentity, hhost, hprocess, hrank, Bool.false_eq_true, if_false,
    if_true, readRank, removeSpaces_decimal, hpid, key, modifyProcess, Option.getD_some]
  exact ⟨trivial, trivial, trivial, trivial⟩

/-- The line of the thread makes it the current one and counts it. -/
theorem readLine_threadId {report : Report} {pid : Text} (hpid : report.pid = some pid) (n : ℕ) :
    ∃ next, report.readLine (infoLine "Thread id".toList (decimal n)) = .ok next ∧
      next.pid = some pid ∧ next.tid = some (decimal n) ∧ next.labelmap = report.labelmap ∧
      next.processData = (report.modifyProcess pid fun data =>
        { data with nthreads := some (data.nthreads.elim 1 (· + 1)) }).processData := by
  have hhost : startsWith "Hostname" "Thread id".toList = false := by decide
  have hprocess : startsWith "Process id" "Thread id".toList = false := by decide
  have hrank : startsWith "Mpi Rank" "Thread id".toList = false := by decide
  have hthread : startsWith "Thread id" "Thread id".toList = true := by decide
  refine ⟨_, by rw [readLine, matchHeader_identity (by decide)], ?_⟩
  simp only [readHeader, readIdentity, hhost, hprocess, hrank, hthread, Bool.false_eq_true,
    if_false, if_true, readThreadId, removeSpaces_decimal, hpid, key, modifyProcess,
    Option.getD_some]
  exact ⟨trivial, trivial, trivial, trivial⟩

/-! ## Count files -/

/-- What a header does to the entry of the process. -/
def applyHeader (rank tid : Option ℕ) (data : ProcessData) : ProcessData :=
  { data with
    rank := rank.elim data.rank fun rank => some (decimal rank)
    nthreads := tid.elim data.nthreads fun _ => some (data.nthreads.elim 1 (· + 1)) }

/-- **The count file of a thread**: what `print_thread_stats` writes into it, the rank in
an MPI program only and the thread id in a threaded one only. -/
structure CountFile where
  info : ExecutableInfo
  rank : Option ℕ
  tid : Option ℕ
  start : Text
  finish : Text
  settings : PrintSettings
  thread : PerthreadData

namespace CountFile

variable (file : CountFile)

/-- The lines of the header as they are printed. -/
def header : List Text := headerLines file.info file.rank file.tid file.start file.finish

/-- The lines of counts. -/
def body : List Text := counterOutputs file.settings file.thread

/-- `print_thread_stats`: the header and the counts. -/
def text : Text := unlines file.header ++ printCounters file.settings file.thread

/-- The process the file is about. -/
def pid : Text := decimal file.info.pid

/-- **A file that can be read back.**  Where a value of the header has a newline in it, as
a program argument may, the lines behind it are not taken for counts or for the place of
counts; and the record is readable. -/
structure ReadsBack : Prop where
  header : ∀ line ∈ file.header, ∀ more ∈ (linesOf line).tail, KeepsCounts more
  events : file.settings.cfg.EventsNamed
  readable : Readable file.settings.cfg file.thread

/-- The lines the reader finds in the file. -/
def allLines : List Text := file.header.flatMap linesOf ++ file.body

/-- What the file does to the entry of its process. -/
def apply (data : ProcessData) : ProcessData :=
  file.body.foldl (fun data line => applyLine (file.tid.map decimal) line data)
    (applyHeader file.rank file.tid data)

variable {file}

/-- No line of counts is taken for a line of a header. -/
theorem body_header : ∀ line ∈ file.body, matchHeader line = none :=
  fun _ hline => (printedLine_of_mem hline).matchHeader_eq_none

/-- The label lines of a file that can be read back are not fatal. -/
theorem ReadsBack.body_label (h : file.ReadsBack) : ∀ line ∈ file.body, ∀ number label,
    matchLabel line = some (number, label) → 1 ≤ perlNum number :=
  fun _ hline _ _ => one_le_perlNum_of_readable h.events h.readable hline

/-- **The lines of the file**: a newline in a value of the header makes more of them. -/
theorem ReadsBack.lines_text (h : file.ReadsBack) : lines file.text = file.allLines := by
  rw [text, lines_unlines_eq_flatMap,
    lines_printCounters h.events.newline_not_mem h.readable.newlines]
  rfl

/-- Lines without a newline start no others. -/
theorem keepsCounts_of_newline {all : List Text} (h : ∀ line ∈ all, '\n' ∉ line) :
    ∀ line ∈ all, ∀ more ∈ (linesOf line).tail, KeepsCounts more := by
  intro line hline more hmore
  rw [linesOf_of_not_mem (h line hline)] at hmore
  cases hmore

/-- The names of the header lines before the one of the process. -/
def exeNames : List String :=
  ["papiex version", "papiex build", "Executable", "Arguments", "Processor", "Clockrate (MHz)",
    "Hostname", "Options", "Domain", "Parent process id", "Start", "Finish"]

theorem neutralName_of_mem_exeNames {name : String} (h : name ∈ exeNames) :
    NeutralName name.toList := by
  have hall : ∀ name ∈ exeNames, NeutralName name.toList := by decide
  exact hall name h

theorem keepsCounts_of_mem_exeNames {name : String} (h : name ∈ exeNames) (value : Text) :
    KeepsCounts (infoLine name.toList value) :=
  keepsCounts_infoLine (neutralName_of_mem_exeNames h) value

end CountFile

/-! ## Reading a file -/

/-- The entry of one process changes, and no other. -/
structure Changes (pid : Text) (change : ProcessData → ProcessData) (report next : Report) :
    Prop where
  processOf_eq : next.processOf pid = change (report.processOf pid)
  mem_of_mem : ∀ other ∈ report.processData, other ∈ next.processData
  lookup_of_ne : ∀ other, other ≠ pid →
    next.processData.lookup other = report.processData.lookup other

variable {pid : Text} {change change' : ProcessData → ProcessData} {report middle next : Report}

theorem Changes.of_eq (h : next.processData = report.processData) : Changes pid id report next :=
  ⟨by rw [processOf, processOf, h, id], fun _ hmem => h ▸ hmem, fun _ _ => by rw [h]⟩

theorem Changes.of_modifyProcess
    (h : next.processData = (report.modifyProcess pid change).processData) :
    Changes pid change report next ∧ pid ∈ next.processData := by
  refine ⟨⟨?_, ?_, ?_⟩, ?_⟩
  · rw [processOf, h]
    exact processOf_modifyProcess_self _ _ _
  · intro other hmem
    rw [h, mem_modifyProcess_iff]
    exact .inr hmem
  · intro other hne
    rw [h, lookup_modifyProcess_of_ne _ _ _ hne]
  · rw [h, mem_modifyProcess_iff]
    exact .inl rfl

/-- Two changes of one process, one after the other. -/
theorem Changes.trans (h : Changes pid change report middle)
    (h' : Changes pid change' middle next) :
    Changes pid (change' ∘ change) report next where
  processOf_eq := by rw [h'.processOf_eq, h.processOf_eq, Function.comp_apply]
  mem_of_mem := fun other hmem => h'.mem_of_mem other (h.mem_of_mem other hmem)
  lookup_of_ne := fun other hne => (h'.lookup_of_ne other hne).trans (h.lookup_of_ne other hne)

namespace CountFile

/-- **A line about the executable keeps the counts with all the lines its value makes.** -/
theorem keepsCounts_linesOf_infoLine {name : String} (hname : name ∈ exeNames) {value : Text}
    (hmore : ∀ more ∈ (linesOf (infoLine name.toList value)).tail, KeepsCounts more) :
    ∀ line ∈ linesOf (infoLine name.toList value), KeepsCounts line := by
  have hnames : ∀ name ∈ exeNames, '\n' ∉ padRight 30 name.toList ++ ": ".toList := by decide
  have hsplit : linesOf (infoLine name.toList value) =
      infoLine name.toList ((linesOf value).headD []) :: (linesOf value).tail :=
    linesOf_append (hnames name hname) value
  rw [hsplit, List.tail_cons] at hmore
  rw [hsplit, List.forall_mem_cons]
  exact ⟨keepsCounts_of_mem_exeNames hname _, hmore⟩

/-- A numeral makes one line. -/
theorem linesOf_infoLine_decimal {pattern : String} (hpattern : pattern ∈ identityFields)
    (n : ℕ) : linesOf (infoLine pattern.toList (decimal n)) =
      [infoLine pattern.toList (decimal n)] := by
  have hnames : ∀ pattern ∈ identityFields,
      '\n' ∉ padRight 30 pattern.toList ++ ": ".toList := by decide
  apply linesOf_of_not_mem
  rw [infoLine, List.mem_append, not_or]
  exact ⟨hnames pattern hpattern, not_mem_decimal (by decide)⟩

/-- The lines about the executable name the process, and change nothing else that
matters for the counts. -/
theorem readLines_executableInfo (info : ExecutableInfo)
    (hkeep : ∀ line ∈ executableInfoLines info, ∀ more ∈ (linesOf line).tail, KeepsCounts more)
    (report : Report) :
    ∃ next, readLines report ((executableInfoLines info).flatMap linesOf) = .ok next ∧
      next.pid = some (decimal info.pid) ∧ next.tid = none ∧
      next.processData = report.processData ∧ next.labelmap = report.labelmap := by
  have hlines : (executableInfoLines info).flatMap linesOf =
      (executableInfoLines info).dropLast.flatMap linesOf ++
        [infoLine "Process id".toList (decimal info.pid)] := by
    have hlast : executableInfoLines info = (executableInfoLines info).dropLast ++
        [infoLine "Process id".toList (decimal info.pid)] := rfl
    conv_lhs => rw [hlast]
    rw [List.flatMap_append, List.flatMap_singleton, linesOf_infoLine_decimal (by decide)]
  have hall : ∀ line ∈ (executableInfoLines info).dropLast.flatMap linesOf,
      KeepsCounts line := by
    intro line hline
    obtain ⟨printed, hprinted, hline⟩ := List.mem_flatMap.mp hline
    have hmore := hkeep printed (List.dropLast_subset _ hprinted)
    simp only [executableInfoLines, List.dropLast, List.mem_cons, List.not_mem_nil,
      or_false] at hprinted
    rcases hprinted with rfl | rfl | rfl | rfl | rfl | rfl | rfl | rfl | rfl | rfl <;>
      exact keepsCounts_linesOf_infoLine (by decide) hmore line hline
  obtain ⟨middle, hmiddle, -, -, hdata, hmap⟩ := readLines_keepsCounts hall report
  obtain ⟨next, hnext, hpid, htid, hdata', hmap'⟩ := readLine_processId middle info.pid
  refine ⟨next, ?_, hpid, htid, hdata'.trans hdata, hmap'.trans hmap⟩
  rw [hlines, readLines, run_append_eq_ok_iff]
  exact ⟨middle, hmiddle, by rw [run_singleton, hnext]⟩

/-- The rank, where there is one, is noted in the entry of the process. -/
theorem readLines_rank (hpid : report.pid = some pid) (rank : Option ℕ) :
    ∃ next, readLines report ((rank.map fun rank =>
        infoLine "Mpi Rank".toList (decimal rank)).toList.flatMap linesOf) = .ok next ∧
      next.pid = some pid ∧ next.tid = report.tid ∧ next.labelmap = report.labelmap ∧
      Changes pid (fun data => { data with
        rank := rank.elim data.rank fun rank => some (decimal rank) }) report next ∧
      (rank ≠ none → pid ∈ next.processData) := by
  cases rank with
  | none =>
      exact ⟨report, rfl, hpid, rfl, rfl, Changes.of_eq rfl, fun h => absurd rfl h⟩
  | some rank =>
      obtain ⟨next, hnext, hpid', htid, hmap, hdata⟩ := readLine_rank hpid rank
      obtain ⟨hchange, hmem⟩ := Changes.of_modifyProcess hdata
      refine ⟨next, ?_, hpid', htid, hmap, hchange, fun _ => hmem⟩
      rw [Option.map_some, Option.toList_some, List.flatMap_singleton,
        linesOf_infoLine_decimal (by decide), readLines, run_singleton, hnext]

/-- The thread id, where there is one, makes its thread the current one. -/
theorem readLines_threadId (hpid : report.pid = some pid) (htid : report.tid = none)
    (tid : Option ℕ) :
    ∃ next, readLines report ((tid.map fun tid =>
        infoLine "Thread id".toList (decimal tid)).toList.flatMap linesOf) = .ok next ∧
      next.pid = some pid ∧ next.tid = tid.map decimal ∧ next.labelmap = report.labelmap ∧
      Changes pid (fun data => { data with
        nthreads := tid.elim data.nthreads fun _ => some (data.nthreads.elim 1 (· + 1)) })
        report next ∧
      (tid ≠ none → pid ∈ next.processData) := by
  cases tid with
  | none =>
      exact ⟨report, rfl, hpid, htid, rfl, Changes.of_eq rfl, fun h => absurd rfl h⟩
  | some tid =>
      obtain ⟨next, hnext, hpid', htid', hmap, hdata⟩ := readLine_threadId hpid tid
      obtain ⟨hchange, hmem⟩ := Changes.of_modifyProcess hdata
      refine ⟨next, ?_, hpid', htid', hmap, hchange, fun _ => hmem⟩
      rw [Option.map_some, Option.toList_some, List.flatMap_singleton,
        linesOf_infoLine_decimal (by decide), readLines, run_singleton, hnext]

/-- **The header tells the reader where it is, and changes nothing but the entry of
the process.** -/
theorem readLines_header (info : ExecutableInfo) (rank tid : Option ℕ) (start finish : Text)
    (hkeep : ∀ line ∈ headerLines info rank tid start finish,
      ∀ more ∈ (linesOf line).tail, KeepsCounts more) (report : Report) :
    ∃ next, readLines report ((headerLines info rank tid start finish).flatMap linesOf) =
        .ok next ∧
      next.pid = some (decimal info.pid) ∧ next.tid = tid.map decimal ∧
      next.labelmap = report.labelmap ∧
      Changes (decimal info.pid) (applyHeader rank tid) report next ∧
      (rank ≠ none ∨ tid ≠ none → decimal info.pid ∈ next.processData) := by
  have hinfo : ∀ line ∈ executableInfoLines info,
      line ∈ headerLines info rank tid start finish := by
    intro line hline
    simp only [headerLines, List.mem_append]
    exact .inl (.inl (.inl hline))
  obtain ⟨named, hnamed, hpid, htid, hdata, hmap⟩ :=
    readLines_executableInfo info (fun line hline => hkeep line (hinfo line hline)) report
  obtain ⟨ranked, hranked, hpid', htid', hmap', hchange, hmem⟩ := readLines_rank hpid rank
  obtain ⟨threaded, hthreaded, hpid'', htid'', hmap'', hchange', hmem'⟩ :=
    readLines_threadId hpid' (htid'.trans htid) tid
  -- the times and the empty line at the end move the reader nowhere
  have hend : ∀ line ∈ [infoLine "Start".toList start,
      infoLine "Finish".toList finish, []].flatMap linesOf, KeepsCounts line := by
    intro line hline
    obtain ⟨printed, hprinted, hline⟩ := List.mem_flatMap.mp hline
    have hmore := hkeep printed (List.mem_append_right _ hprinted)
    simp only [List.mem_cons, List.not_mem_nil, or_false] at hprinted
    rcases hprinted with rfl | rfl | rfl
    · exact keepsCounts_linesOf_infoLine (by decide : "Start" ∈ exeNames) hmore line hline
    · exact keepsCounts_linesOf_infoLine (by decide : "Finish" ∈ exeNames) hmore line hline
    · rw [linesOf_of_not_mem List.not_mem_nil, List.mem_singleton] at hline
      rw [hline]
      exact keepsCounts_of_silent (matchHeader_of_not_mem (by simp))
        (matchNumber_of_not_isNumberChar (by simp))
  obtain ⟨next, hnext, hpid₃, htid₃, hdata₃, hmap₃⟩ := readLines_keepsCounts hend threaded
  refine ⟨next, ?_, hpid₃.trans hpid'', htid₃.trans htid'',
    hmap₃.trans (hmap''.trans (hmap'.trans hmap)), ?_, ?_⟩
  · rw [headerLines, List.flatMap_append, List.flatMap_append, List.flatMap_append,
      readLines, run_append_eq_ok_iff]
    refine ⟨threaded, ?_, hnext⟩
    rw [run_append_eq_ok_iff]
    refine ⟨ranked, ?_, hthreaded⟩
    rw [run_append_eq_ok_iff]
    exact ⟨named, hnamed, hranked⟩
  · have hnamed : Changes (decimal info.pid) id report named := Changes.of_eq hdata
    exact ((hnamed.trans hchange).trans hchange').trans (Changes.of_eq hdata₃)
  · intro hplace
    rw [hdata₃]
    rcases hplace with hrank | htid
    · exact hchange'.mem_of_mem _ (hmem hrank)
    · exact hmem' htid

/-- **A file changes the entry of its process, and no other.** -/
theorem readLines_file {file : CountFile} (hread : file.ReadsBack) (report : Report) :
    ∃ next, readLines report file.allLines = .ok next ∧
      Changes file.pid file.apply report next ∧
      (file.rank ≠ none ∨ file.tid ≠ none → file.pid ∈ next.processData) := by
  obtain ⟨headed, hheaded, (hpid : headed.pid = some file.pid), htid, -, hchange, hmem⟩ :=
    readLines_header file.info file.rank file.tid file.start file.finish hread.header report
  obtain ⟨next, hnext⟩ := (readLines_eq_ok_iff body_header hpid).mpr hread.body_label
  have hall := readsAll_of_readLines body_header hpid hnext
  have hbody : Changes file.pid
      (fun data => file.body.foldl (fun data line => applyLine (file.tid.map decimal) line data)
        data) headed next :=
    { processOf_eq := by rw [hall.processOf_eq _ hpid, htid]
      mem_of_mem := hall.mem_of_mem
      lookup_of_ne := fun other hne =>
        hall.lookup_of_ne other fun heq => hne (Option.some.inj (hpid.symm.trans heq)).symm }
  refine ⟨next, ?_, hchange.trans hbody, fun hplace => hall.mem_of_mem _ (hmem hplace)⟩
  rw [allLines, readLines, run_append_eq_ok_iff]
  exact ⟨headed, hheaded, hnext⟩

end CountFile

/-! ## The counts of a file -/

/-- A line writes at the level of the process or of the current thread. -/
theorem written_of_other_level {tid level : Option Text} (hnone : level ≠ none)
    (hlevel : level ≠ tid) (field line : Text) : written tid level field line = none := by
  rw [Option.eq_none_iff_forall_ne_some]
  intro val hwritten
  rw [written_eq_some_iff] at hwritten
  unfold countWritten at hwritten
  split at hwritten
  · cases hwritten
  · obtain ⟨count, -, hcount⟩ := Option.map_eq_some_iff.mp hwritten
    split at hcount
    · exact hnone (Prod.mk.inj hcount).1.symm
    · exact hlevel (Prod.mk.inj hcount).1.symm

/-- What a file leaves under a key of its process. -/
theorem CountFile.countAt_apply (file : CountFile) (data : ProcessData) (level : Option Text)
    (field : Text) :
    (file.apply data).countAt level field =
      LastWrite.after (written (file.tid.map decimal) level field) (data.countAt level field)
        file.body := by
  have hheader : (applyHeader file.rank file.tid data).countAt level field =
      data.countAt level field := by
    cases level <;> rfl
  rw [CountFile.apply, countAt_foldl_applyLine, hheader]

/-! ## Reading files back to back -/

open CountFile

/-- What files of one process do to its entry, one after the other. -/
def applyFiles (files : List CountFile) (data : ProcessData) : ProcessData :=
  files.foldl (fun data file => file.apply data) data

@[simp] theorem applyFiles_nil (data : ProcessData) : applyFiles [] data = data := rfl

@[simp] theorem applyFiles_cons (file : CountFile) (files : List CountFile) (data : ProcessData) :
    applyFiles (file :: files) data = applyFiles files (file.apply data) := rfl

theorem applyFiles_append (front back : List CountFile) (data : ProcessData) :
    applyFiles (front ++ back) data = applyFiles back (applyFiles front data) :=
  List.foldl_append

/-- The entry of a process after these files: those of the process, one after the
other. -/
def entryOf (files : List CountFile) (pid : Text) (data : ProcessData) : ProcessData :=
  applyFiles (files.filter fun file => decide (file.pid = pid)) data

/-- **Files are read one after the other**, each into the entry of its process. -/
theorem readLines_files (files : List CountFile) (hread : ∀ file ∈ files, file.ReadsBack)
    (hplace : ∀ file ∈ files, file.rank ≠ none ∨ file.tid ≠ none) (report : Report) :
    ∃ next, readLines report (files.flatMap allLines) = .ok next ∧
      (∀ pid, next.processOf pid = entryOf files pid (report.processOf pid)) ∧
      ∀ pid, pid ∈ next.processData ↔
        pid ∈ report.processData ∨ ∃ file ∈ files, file.pid = pid := by
  induction files generalizing report with
  | nil => exact ⟨report, rfl, fun _ => rfl, by simp⟩
  | cons file files ih =>
      rw [List.forall_mem_cons] at hread hplace
      obtain ⟨middle, hmiddle, hchange, hmem⟩ := readLines_file hread.1 report
      obtain ⟨next, hnext, hentry, hpids⟩ := ih hread.2 hplace.2 middle
      refine ⟨next, ?_, ?_, ?_⟩
      · rw [List.flatMap_cons, readLines, run_append_eq_ok_iff]
        exact ⟨middle, hmiddle, hnext⟩
      · intro pid
        rw [hentry]
        by_cases hpid : file.pid = pid
        · subst hpid
          simp [entryOf, hchange.processOf_eq]
        · -- the file is another process's
          have hsame : middle.processOf pid = report.processOf pid := by
            rw [processOf, processOf, hchange.lookup_of_ne pid (Ne.symm hpid)]
          simp [entryOf, hpid, hsame]
      · intro pid
        rw [hpids]
        by_cases hpid : pid = file.pid
        · subst hpid
          simp [hmem hplace.1]
        · have hsame : pid ∈ middle.processData ↔ pid ∈ report.processData := by
            rw [← AList.lookup_isSome, ← AList.lookup_isSome, hchange.lookup_of_ne pid hpid]
          simp [hsame, Ne.symm hpid]

/-- **`process_input` on count files never dies, and what it holds for a process are
the files of this process.** -/
theorem processInput_files (files : List CountFile) (hread : ∀ file ∈ files, file.ReadsBack)
    (hplace : ∀ file ∈ files, file.rank ≠ none ∨ file.tid ≠ none) :
    ∃ report, processInput (files.map text) = .ok report ∧
      (∀ pid, report.processOf pid = entryOf files pid {}) ∧
      ∀ pid, pid ∈ report.processData ↔ ∃ file ∈ files, file.pid = pid := by
  obtain ⟨report, hrun, hentry, hpids⟩ := readLines_files files hread hplace {}
  refine ⟨report, ?_, hentry, ?_⟩
  · have hlines : (files.map text).flatMap lines = files.flatMap allLines := by
      rw [List.flatMap_map]
      exact List.flatMap_congr fun file hfile => (hread file hfile).lines_text
    rw [processInput, hlines, hrun]
  · intro pid
    rw [hpids]
    have hnot : pid ∉ ({} : Report).processData := AList.notMem_empty pid
    simp [hnot]

/-! ## The totals of files -/

/-- `process_input` and `compute_totals` on these files. -/
def totalsOf (order : KeyOrder) (wallclockUsecs : Option ℚ) (files : List CountFile) :
    Except Die JobTotals :=
  (processInput (files.map text)).map (computeTotals order wallclockUsecs)

/-- The count of a field in the totals of a process. -/
def processCount (order : KeyOrder) (files : List CountFile) (field pid : Text) : Option ℚ :=
  (processTotals (order.within pid) (entryOf files pid {})).counts.lookup field

/-- **The totals of count files are taken over their processes.** -/
theorem totalsOf_files (order : KeyOrder) (wallclockUsecs : Option ℚ) (files : List CountFile)
    (hread : ∀ file ∈ files, file.ReadsBack)
    (hplace : ∀ file ∈ files, file.rank ≠ none ∨ file.tid ≠ none) :
    ∃ (totals : JobTotals) (pids : List Text), totalsOf order wallclockUsecs files = .ok totals ∧
      pids.Perm (files.map CountFile.pid).dedup ∧ totals.ntasks = pids.length ∧
      totals.processes = pids.map (fun pid =>
        (pid, processTotals (order.within pid) (entryOf files pid {}))) ∧
      ∀ field, let vals := pids.filterMap (processCount order files field)
        (totals.total.counts.lookup field =
          match wallclockUsecs with
          | some usecs => if field = "Wallclock usecs".toList then some usecs else sum? vals
          | none => sum? vals) ∧
        ((totals.total.stats.lookup field).getD {}).min = vals.min? ∧
        ((totals.total.stats.lookup field).getD {}).max = vals.max? := by
  obtain ⟨report, hrun, hentry, hpids⟩ := processInput_files files hread hplace
  -- process ids are numerals, so no entry is skipped as a name
  have hmem : ∀ pid, pid ∈ (order.keys report.processData).filter isNumeric ↔
      pid ∈ (files.map CountFile.pid).dedup := by
    intro pid
    rw [List.mem_filter, Totals.mem_keys_iff, hpids, List.mem_dedup, List.mem_map,
      and_iff_left_of_imp]
    rintro ⟨file, -, rfl⟩
    exact isNumeric_decimal _
  refine ⟨computeTotals order wallclockUsecs report,
    (order.keys report.processData).filter isNumeric, ?_, ?_, rfl, ?_, ?_⟩
  · rw [totalsOf, hrun]
    rfl
  · exact (List.perm_ext_iff_of_nodup ((Totals.nodup_keys order _).filter _)
      (List.nodup_dedup _)).mpr hmem
  · simp only [computeTotals, hentry]
  · intro field
    -- the levels that are combined are the totals of the processes
    have hvals : Totals.levelValues field
        (((order.keys report.processData).filter isNumeric).map fun pid =>
          (processTotals (order.within pid) (report.processOf pid)).counts) =
        ((order.keys report.processData).filter isNumeric).filterMap
          (processCount order files field) := by
      rw [Totals.levelValues, List.filterMap_map]
      congr 1
      funext pid
      rw [Function.comp_apply, hentry]
      rfl
    have hsummary := Totals.summary_combine_empty order field
      (((order.keys report.processData).filter isNumeric).map fun pid =>
        (processTotals (order.within pid) (report.processOf pid)).counts)
    rw [hvals] at hsummary
    simp only [Totals.summary, Totals.cell, Prod.mk.injEq] at hsummary
    obtain ⟨hsum, hmin, hmax⟩ := hsummary
    unfold computeTotals
    simp only [List.map_map]
    cases wallclockUsecs with
    | none => exact ⟨hsum, hmin, hmax⟩
    | some usecs =>
        refine ⟨?_, hmin, hmax⟩
        rw [lookup_insert_eq_ite]
        split
        · rfl
        · exact hsum

/-- The header of process 4242 on some host. -/
def infoOn (hostname : Text) : ExecutableInfo where
  version := "1.2.7".toList
  build := "now".toList
  executable := "/bin/cg".toList
  arguments := "A".toList
  processor := "cpu".toList
  clockrate := "2000.0".toList
  hostname
  options := "NEXTGEN".toList
  domain := "user".toList
  parentPid := 1
  pid := 4242

end Papiex
