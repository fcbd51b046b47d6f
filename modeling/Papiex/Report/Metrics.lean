import Papiex.Lib.Assignment
import Papiex.Report.Totals
import Mathlib.Data.List.Infix

/-!
# Derived metrics

`compute_metrics` of `papiex-report.pl`.  The lines of the spec file are evaluated for
every level of the report: for each thread, for each process, and last for the job.
They are evaluated in the package namespace of the script.  The counts of a level are
put there first, under their names with underscores for blanks, and taken out again
afterwards, together with the variables called `tmp_`.  What else the lines assign
stays for the levels to come, and the list of the fields to be printed is always the
one of the level evaluated last.

A spec line is modelled as the script and Perl take it: a comment, a line of plain
text, or an assignment to a metric, with its guard `unless (defined($name))` if it has
one.  Lines that Perl cannot parse are skipped as comments are.  A variable is named by
its symbol in the package `main`, and numbers are taken as exact.

A printed line has the formatted name and the value of the metric; the columns with the
spread over the threads, which belong to fields of counts, are left out.

## Main results

* `computeMetrics`: what is derived for each level.
* `derivedSections`: what the report has of it.

## Design notes

The statements of a spec file are assignments over a store with undefined variables, from
`Papiex.Lib.Assignment`.  A level finds the namespace that the levels before it have left,
and leaves one to those after it, so the state that is passed on is explicit
(`MetricsState`).
-/

namespace Papiex

open Chars

/-! ## The spec file -/

/-- The operators in spec lines, and the subroutine `min` of the script. -/
inductive Operator where
  | add
  | sub
  | mul
  | div
  | min
  deriving DecidableEq

/-- An operator on two numbers; a division by zero fails. -/
def Operator.apply : Operator → ℚ → ℚ → Option ℚ
  | add, a, b => some (a + b)
  | sub, a, b => some (a - b)
  | mul, a, b => some (a * b)
  | div, a, b => if b = 0 then none else some (a / b)
  | min, a, b => some (if a ≤ b then a else b)

/-- The expressions in spec lines. -/
abbrev SpecExpr := Assignment.Expr Text Operator ℚ

/-- A line of the spec file. -/
inductive SpecLine where
  | comment
  | text (stmt : Text)
  | metric (lval : Text) (guard : Option Text) (expr : SpecExpr)

/-- The package namespace: what the variables hold. -/
abbrev Namespace := Text → Option ℚ

/-- `$::name` and `$main::name` are the variable `$name`. -/
def symbol (lval : Text) : Text :=
  let short := (dropPrefix "main::".toList lval).getD lval
  (dropPrefix "::".toList short).getD short

/-- The statement of a spec line. -/
def specStatement (lval : Text) (guard : Option Text) (expr : SpecExpr) :
    Assignment.Statement Text Operator ℚ :=
  { lval := symbol lval, guard, expr }

/-- `$lval =~ /::/`. -/
def isConstant (lval : Text) : Bool := decide ("::".toList <:+: lval)

/-- `$lval =~ /tmp_/`. -/
def isTemporary (lval : Text) : Bool := decide ("tmp_".toList <:+: lval)

/-! ## One level -/

/-- An entry of `@specs_ordered`. -/
inductive SpecEntry where
  | text (stmt : Text)
  | metric (lval : Text)
  deriving DecidableEq

/-- The variables of `compute_single_level_metrics` between two spec lines. -/
structure Evaluation where
  namespc : Namespace
  specsOrdered : List SpecEntry := []
  tempLvals : List Text := []
  derived : Hash (Option ℚ) := ∅

/-- `s/ /_/g`. -/
def noSpaceField (field : Text) : Text := field.map fun c => if c = ' ' then '_' else c

/-- The counts of the level are put into the namespace. -/
def setCounts (order : KeyOrder) (counts : Hash ℚ) (namespc : Namespace) : Namespace :=
  (order.keys counts).foldl
    (fun namespc field => Function.update namespc (noSpaceField field) (counts.lookup field))
    namespc

/-- The variables are undefined again. -/
def undefNames (names : List Text) (namespc : Namespace) : Namespace :=
  names.foldl (fun namespc name => Function.update namespc name none) namespc

/-- One spec line.  A statement that fails leaves everything as it is. -/
def evalSpecLine (eval : Evaluation) : SpecLine → Evaluation
  | .comment => eval
  | .text stmt => { eval with specsOrdered := eval.specsOrdered ++ [.text stmt] }
  | .metric lval guard expr =>
      match (specStatement lval guard expr).result Operator.apply eval.namespc with
      | none => eval
      | some val =>
          { namespc := Function.update eval.namespc (symbol lval) val
            specsOrdered := eval.specsOrdered ++ [.metric lval]
            tempLvals := if isTemporary lval then eval.tempLvals ++ [lval] else eval.tempLvals
            derived :=
              if isConstant lval || isTemporary lval then eval.derived
              else eval.derived.insert lval val }

/-- The spec lines are evaluated for a level with these counts. -/
def evalSpecs (order : KeyOrder) (specs : List SpecLine) (namespc : Namespace) (counts : Hash ℚ) :
    Evaluation :=
  specs.foldl evalSpecLine { namespc := setCounts order counts namespc }

/-- What the levels share: the namespace and `@specs_ordered`. -/
structure MetricsState where
  namespc : Namespace
  specsOrdered : List SpecEntry := []

/-- `compute_single_level_metrics`.  A level without counts is left alone. -/
def computeSingleLevelMetrics (order : KeyOrder) (specs : List SpecLine) (state : MetricsState)
    (counts : Option (Hash ℚ)) : MetricsState × Hash (Option ℚ) :=
  match counts with
  | none => (state, ∅)
  | some counts =>
      let eval := evalSpecs order specs state.namespc counts
      ({ namespc := undefNames (eval.tempLvals.map symbol)
          (undefNames ((order.keys counts).map noSpaceField) eval.namespc)
         specsOrdered := eval.specsOrdered }, eval.derived)

/-! ## The levels -/

/-- A level of the report. -/
inductive LevelName where
  | thread (pid tid : Text)
  | process (pid : Text)
  | job
  deriving DecidableEq

/-- A level with its counts, if it has any. -/
structure Level where
  name : LevelName
  counts : Option (Hash ℚ)
  deriving DecidableEq

/-- The levels of a job in the order of `compute_metrics`: the threads of a process
before the process, and the job last. -/
def jobLevels (order : KeyOrder) (report : Report) (totals : JobTotals) : List Level :=
  (totals.processes.flatMap fun process =>
    ((((order.within process.1).keys (report.processOf process.1).threads).filter
        isNumeric).map fun tid =>
      { name := .thread process.1 tid
        counts := (report.processOf process.1).threads.lookup tid }) ++
    [{ name := .process process.1, counts := some process.2.counts }]) ++
  [{ name := .job
     counts := if totals.total.counts.entries.isEmpty then none else some totals.total.counts }]

/-- The loops of `compute_metrics`: what is derived for each level. -/
def computeMetrics (order : KeyOrder) (specs : List SpecLine) :
    MetricsState → List Level → MetricsState × List (Level × Hash (Option ℚ))
  | state, [] => (state, [])
  | state, level :: levels =>
      let (next, derived) := computeSingleLevelMetrics order specs state level.counts
      let (final, results) := computeMetrics order specs next levels
      (final, (level, derived) :: results)

/-- The wallclock time of the job is taken from `PAPIEX_WALLCLOCK_USECS`, if that is in
the environment. -/
def storedMetrics (wallclockUsecs : Option ℚ) (level : Level) (derived : Hash (Option ℚ)) :
    Hash (Option ℚ) :=
  match wallclockUsecs, level.name with
  | some usecs, .job => derived.insert "Wallclock_seconds".toList (some (usecs / 1000000))
  | _, _ => derived

/-! ## The derived section of a level -/

/-- `s/Percent/%/gi`; so many characters of a match are still to be left out. -/
def percentSign (skip : ℕ) : Text → Text
  | [] => []
  | c :: rest =>
      match skip with
      | skip + 1 => percentSign skip rest
      | 0 =>
          if (dropPrefixNoCase "Percent".toList (c :: rest)).isSome then '%' :: percentSign 6 rest
          else c :: percentSign 0 rest

/-- The name of a metric as it is printed. -/
def formattedField (lval : Text) : Text :=
  percentSign 0 (lval.map fun c => if c = '_' then ' ' else c)

/-- `/Percent/gi`. -/
def isPercent (lval : Text) : Bool :=
  lval.tails.any fun tail => (dropPrefixNoCase "Percent".toList tail).isSome

/-- The value of a metric as it is printed: a percentage is at most 100, and with
`-min` no value is less than 0. -/
def printedValue (min : Bool) (lval : Text) (val : ℚ) : ℚ :=
  let val := if isPercent lval && decide (100 < val) then 100 else val
  if min && decide (val < 0) then 0 else val

/-- A line of the derived section. -/
inductive DerivedLine where
  | text (stmt : Text)
  | metric (lval formatted : Text) (val : ℚ)

/-- The line of a metric. -/
def metricLine (min : Bool) (lval : Text) (val : ℚ) : DerivedLine :=
  .metric lval (formattedField lval) (printedValue min lval val)

/-- `print_single_level('derived')`. -/
def printSingleLevel (min : Bool) (specsOrdered : List SpecEntry) (derived : Hash (Option ℚ)) :
    List DerivedLine :=
  if derived.entries.isEmpty then []
  else specsOrdered.filterMap fun
    | .text stmt => some (.text stmt)
    | .metric lval =>
        match derived.lookup lval with
        | some (some val) => some (metricLine min lval val)
        | _ => none

/-- What the report has on the metrics of a level. -/
structure DerivedSection where
  derived : Hash (Option ℚ)
  lines : List DerivedLine

/-- The settings of a report: the spec file, the values of the variables when
`compute_metrics` starts, `PAPIEX_WALLCLOCK_USECS` and the option `-min`. -/
structure MetricsConfig where
  specs : List SpecLine
  constants : Namespace
  wallclockUsecs : Option ℚ
  min : Bool

/-- The levels that a report on a job evaluates, in their order. -/
def reportLevels (order : KeyOrder) (cfg : MetricsConfig) (report : Report) : List Level :=
  jobLevels order report (computeTotals order cfg.wallclockUsecs report)

/-- `print_data('derived')` comes to every process, to the threads of a process that has
counted more than one, and to the job if more than one process was read. -/
def LevelName.isPrinted (report : Report) : LevelName → Bool
  | thread pid _ => (report.processOf pid).nthreads.any (1 < ·)
  | process _ => true
  | job => decide (1 < report.nprocs)

/-- **The derived sections of the levels**: `compute_metrics`, and then
`print_data('derived')`. -/
def derivedSections (order : KeyOrder) (cfg : MetricsConfig) (report : Report) :
    List (Level × DerivedSection) :=
  let (final, results) := computeMetrics order cfg.specs { namespc := cfg.constants }
    (reportLevels order cfg report)
  results.map fun result =>
    let stored := storedMetrics cfg.wallclockUsecs result.1 result.2
    (result.1,
      { derived := stored
        lines :=
          if result.1.name.isPrinted report then
            printSingleLevel cfg.min final.specsOrdered stored
          else [] })

end Papiex
