import Mathlib.Data.List.AList
import Mathlib.Data.List.DropRight
import Mathlib.Data.Rat.Defs
import Papiex.Caliper.Record
import Papiex.Lib.Chars
import Papiex.Lib.FallibleRun

/-!
# Reading the count files

`process_input` of `papiex-report.pl`.  The files given on the command line are
read one after the other; the current process and thread are carried from line
to line, and from file to file.

The regular expressions are translated by hand, each into a function on the
characters of a line without its newline.  A Perl hash is an association list
with distinct keys.  Perl keeps a count as the string it read; the model keeps
the number it stands for, and takes Perl's numbers as exact.

## Main results

* `processInput`: the loop over files and lines.

## Design notes

The expressions are tried in the order of the script, and a line is done with the first one
that matches.  A key that is undefined is the empty string, as in Perl.  Dying is an outcome
of a line (`Die`), and ends the loop over all files.
-/

namespace Papiex

open Chars

/-- A Perl hash. -/
abbrev Hash (V : Type) := AList fun _ : Text => V

/-! ## The regular expressions -/

/-- `\s`. -/
def isSpace (c : Char) : Bool :=
  c = ' ' || c = '\t' || c = '\n' || c = '\r' || c = '\x0b' || c = '\x0c'

/-- `[0-9.e]`. -/
def isNumberChar (c : Char) : Bool := c.isDigit || c = '.' || c = 'e'

/-- `^([0-9.e]+)\s+`: the number, and the rest of the line, which does not start with
a blank. -/
def matchNumber (line : Text) : Option (Text × Text) :=
  let number := line.takeWhile isNumberChar
  let blank := line.dropWhile isNumberChar
  let field := blank.dropWhile isSpace
  if number ≠ [] ∧ blank ≠ field then some (number, field) else none

/-- `^([0-9.e]+)\s+\[LABEL\] (.*)$`. -/
def matchLabel (line : Text) : Option (Text × Text) :=
  match matchNumber line with
  | none => none
  | some (number, field) => (dropPrefix "[LABEL] ".toList field).map fun label => (number, label)

/-- `^([0-9.e]+)\s+(\S.*\S)$`. -/
def matchCount (line : Text) : Option (Text × Text) :=
  match matchNumber line with
  | none => none
  | some (number, field) =>
      if 2 ≤ field.length ∧ field.getLast?.all (fun c => !isSpace c) then some (number, field)
      else none

/-- The places where a line can be split at a colon, the last one first. -/
def colonSplits : Text → List (Text × Text)
  | [] => []
  | c :: rest =>
      ((colonSplits rest).map fun split => (c :: split.1, split.2)) ++
        (if c = ':' then [([], rest)] else [])

/-- `^([A-Za-z][a-z].+\S)\s+` before the colon: the field. -/
def headerField (before : Text) : Option Text :=
  let field := before.rdropWhile isSpace
  match field with
  | first :: second :: _ :: _ :: _ =>
      if first.isAlpha && second.isLower && decide (field ≠ before) then some field else none
  | _ => none

/-- `^([A-Za-z][a-z].+\S)\s+:\s*(\S.*$)`: the greedy field ends before the last
colon at which the rest of the expression matches. -/
def matchHeader (line : Text) : Option (Text × Text) :=
  (colonSplits line).findSome? fun split =>
    match headerField split.1, split.2.dropWhile isSpace with
    | some field, c :: val => some (field, c :: val)
    | _, _ => none

/-- `(\S.+)$` after an event. -/
def describedBy (event text : Text) : Option (Text × Text) :=
  match text with
  | c :: _ :: _ => if event ≠ [] ∧ isSpace c = false then some (event, text) else none
  | _ => none

/-- `^(\S+)\s*: (\S.+)$`.  The event is the whole first word, or the word without a
colon at its end. -/
def matchDescription (line : Text) : Option (Text × Text) :=
  let word := line.takeWhile fun c => !isSpace c
  let rest := line.dropWhile fun c => !isSpace c
  let whole := (dropPrefix ": ".toList (rest.dropWhile isSpace)).bind (describedBy word)
  whole.or <|
    match word.getLast?, rest with
    | some ':', ' ' :: text => describedBy word.dropLast text
    | _, _ => none

/-- The pattern occurs in the text, and this follows it. -/
def afterMatch (pattern text : Text) : Option Text :=
  text.tails.findSome? fun tail => dropPrefix pattern tail

/-- `s/\s+//g`. -/
def removeSpaces (text : Text) : Text := text.filter fun c => !isSpace c

/-- `s/\s+/_/g`. -/
def spacesToUnderscore : Text → Text
  | [] => []
  | c :: rest =>
      if isSpace c then
        match rest with
        | [] => ['_']
        | d :: _ => if isSpace d then spacesToUnderscore rest else '_' :: spacesToUnderscore rest
      else c :: spacesToUnderscore rest

/-- The number Perl takes a string of digits, points and exponents for. -/
def perlNum (text : Text) : ℚ :=
  let whole := text.takeWhile Char.isDigit
  let rest := text.dropWhile Char.isDigit
  let frac := match rest with
    | '.' :: tail => tail.takeWhile Char.isDigit
    | _ => []
  let rest := match rest with
    | '.' :: tail => tail.dropWhile Char.isDigit
    | _ => rest
  let mantissa : ℚ := ofDecimal (whole ++ frac) / 10 ^ frac.length
  match rest with
  | 'e' :: tail => mantissa * 10 ^ ofDecimal (tail.takeWhile Char.isDigit)
  | _ => mantissa

/-! ## The state -/

/-- An entry of `%process_data`: the keys that are not thread ids, and the counts
of the threads by thread id. -/
structure ProcessData where
  rank : Option Text := none
  nthreads : Option ℕ := none
  counts : Hash ℚ := ∅
  threads : Hash (Hash ℚ) := ∅

/-- The variables `process_input` reads and writes. -/
structure Report where
  pid : Option Text := none
  tid : Option Text := none
  labelIndex : Text := ['0']
  processHost : Option Text := none
  processData : Hash ProcessData := ∅
  rankmap : Hash (Option Text × Text) := ∅
  globalData : Hash Text := ∅
  exeFieldsOrdered : List Text := []
  labelmap : Hash Text := ∅
  eventDescriptions : Hash Text := ∅
  eventDescriptionsOrdered : List Text := []
  quiet : Bool := true
  mpxInterval : Text := ['1', '0']
  clockmhz : Option Text := none
  symbols : Hash Text := ∅

/-- Where `process_input` dies. -/
inductive Die where
  | invalidLabelIndex (labelIndex label : Text)
  | pidNotSet (line : Text)

namespace Report

/-- The key a value is looked up under; an undefined one is the empty string. -/
def key (text : Option Text) : Text := text.getD []

/-- The entry of a process, which comes into being when it is written to. -/
def processOf (report : Report) (pid : Text) : ProcessData :=
  (report.processData.lookup pid).getD {}

/-- Write to the entry of a process. -/
def modifyProcess (report : Report) (pid : Text) (change : ProcessData → ProcessData) : Report :=
  { report with
    processData := report.processData.insert pid (change (report.processOf pid)) }

end Report

/-- Write a count of the process. -/
def ProcessData.setCount (field : Text) (val : ℚ) (data : ProcessData) : ProcessData :=
  { data with counts := data.counts.insert field val }

/-- Write a count of a thread. -/
def ProcessData.setThreadCount (tid field : Text) (val : ℚ) (data : ProcessData) : ProcessData :=
  { data with
    threads := data.threads.insert tid (((data.threads.lookup tid).getD ∅).insert field val) }

namespace Report

/-! ## One line -/

/-- `$field =~ /^pattern/i`. -/
def startsWith (pattern : String) (field : Text) : Bool :=
  (dropPrefixNoCase pattern.toList field).isSome

/-- `/MPX_INTERVAL=(\d+)/` in the options. -/
def mpxIntervalOf (val : Text) : Option Text :=
  val.tails.findSome? fun tail =>
    match dropPrefix "MPX_INTERVAL=".toList tail with
    | some rest =>
        let digits := rest.takeWhile Char.isDigit
        if digits = [] then none else some digits
    | none => none

/-- The lines that name the process, its host, its rank or a thread of it. -/
def readIdentity (report : Report) (field val : Text) : Report :=
  let hosted :=
    if startsWith "Hostname" field then { report with processHost := some val } else report
  if startsWith "Process id" field then
    { hosted with pid := some (removeSpaces val), labelIndex := ['0'], tid := none }
  else hosted

/-- `Mpi Rank`. -/
def readRank (report : Report) (val : Text) : Report :=
  let rank := removeSpaces val
  let host := match report.processHost with
    | some host => if host = ['0'] then [] else host
    | none => []
  { report.modifyProcess (key report.pid) fun data => { data with rank := some rank } with
    rankmap := report.rankmap.insert rank (report.pid, host) }

/-- `Thread id`. -/
def readThreadId (report : Report) (val : Text) : Report :=
  { report.modifyProcess (key report.pid) fun data =>
      { data with nthreads := some (data.nthreads.elim 1 (· + 1)) } with
    tid := some (removeSpaces val) }

/-- A field of the executable; each one is listed once. -/
def addExeField (report : Report) (field val : Text) : Report :=
  { report with
    exeFieldsOrdered :=
      if (report.globalData.lookup field).isSome then report.exeFieldsOrdered
      else report.exeFieldsOrdered ++ [field]
    globalData := report.globalData.insert field val }

/-- Everything else of the header is information about the executable. -/
def readExeInfo (report : Report) (field val : Text) : Report :=
  let clocked :=
    if startsWith "Clockrate" field ||
        field.tails.any (fun tail => startsWith "Processor" tail) then
      { report with symbols := report.symbols.insert field (removeSpaces val)
                    clockmhz := some val }
    else report
  let optioned :=
    if startsWith "Options" field then
      { clocked with
        quiet := clocked.quiet || (afterMatch "QUIET".toList val).isSome
        mpxInterval := (mpxIntervalOf val).getD clocked.mpxInterval }
    else clocked
  let spaceless := spacesToUnderscore field
  match optioned.globalData.lookup spaceless with
  | some old =>
      if old ≠ val then
        { optioned with
          globalData := optioned.globalData.insert spaceless "NOT_UNIQUE".toList }
      else optioned.addExeField field val
  | none => optioned.addExeField field val

/-- A line of the header. -/
def readHeader (report : Report) (field val : Text) : Report :=
  let identified := report.readIdentity field val
  if startsWith "Mpi Rank" field then identified.readRank val
  else if startsWith "Thread id" field then identified.readThreadId val
  else identified.readExeInfo field val

/-- A line with the label of a caliper. -/
def readLabel (report : Report) (line labelIndex label : Text) : Except Die Report :=
  if perlNum labelIndex < 1 then .error (.invalidLabelIndex labelIndex label)
  else
    match report.pid with
    | none => .error (.pidNotSet line)
    | some _ =>
        .ok { report with labelIndex, labelmap := report.labelmap.insert labelIndex label }

/-- A count: of the process if it is marked so or no thread is current, else of the
current thread. -/
def readCount (report : Report) (line val field : Text) : Except Die Report :=
  match report.pid with
  | none => .error (.pidNotSet line)
  | some pid =>
      match dropPrefixNoCase "[PROCESS] ".toList field, report.tid with
      | some stripped, _ =>
          .ok (report.modifyProcess pid (.setCount stripped (perlNum val)))
      | none, none => .ok (report.modifyProcess pid (.setCount field (perlNum val)))
      | none, some tid =>
          .ok (report.modifyProcess pid (.setThreadCount tid field (perlNum val)))

/-- A description of an event; the first one stands. -/
def readDescription (report : Report) (event description : Text) : Report :=
  if (report.eventDescriptions.lookup event).isSome then report
  else
    { report with
      eventDescriptions := report.eventDescriptions.insert event description
      eventDescriptionsOrdered := report.eventDescriptionsOrdered ++ [event] }

/-- The body of the input loop: the expressions are tried in this order. -/
def readLine (report : Report) (line : Text) : Except Die Report :=
  match matchHeader line with
  | some (field, val) => .ok (report.readHeader field val)
  | none =>
      match matchLabel line with
      | some (labelIndex, label) => report.readLabel line labelIndex label
      | none =>
          match matchCount line with
          | some (val, field) => report.readCount line val field
          | none =>
              match matchDescription line with
              | some (event, description) => .ok (report.readDescription event description)
              | none => .ok report

/-- The input loop over these lines. -/
def readLines (report : Report) (lines : List Text) : Except Die Report :=
  FallibleRun.run readLine report lines

end Report

/-- `process_input` on these files.  The current process and thread are not reset
between files. -/
def processInput (files : List Text) : Except Die Report :=
  Report.readLines {} (files.flatMap lines)

/-- `NPROCS`, the number of processes that were read. -/
def Report.nprocs (report : Report) : ℕ := report.processData.keys.length

end Papiex
