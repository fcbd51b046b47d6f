import Papiex.Lib.Strtok
import Papiex.Lib.Chars
import Papiex.Caliper.Record

/-!
# The options as the library reads them

`monitor_init_library` takes the text of `PAPIEX_OPTIONS` apart with `strtok`, at
blanks and commas in the first call and at commas in the later ones.  A token is a
keyword, the interval of the multiplexing, the spec file, or else the name of an
event.  What `PREFIX`, `DIR` and `FILE` do with the variable of the output path is
left out.

## Main results

* `monitorInitLibrary`: the settings that an option string leaves.

## Design notes

A token is what the comparisons of the source take it for, tried in their order, so a keyword
is found before an event of the same spelling.  What a token sets is a function of its own,
and the routine is a fold over the tokens.
-/

namespace Papiex

open Chars

/-- How the tools were built. -/
structure Build where
  profilingSupport : Bool
  haveBinutils : Bool

/-- `PAPIEX_MAX_COUNTERS`. -/
def maxCounters : ℕ := 128

/-- `PAPIEX_DEFAULT_MPX_HZ`. -/
def defaultMpxHz : ℤ := 10

/-- `DEFAULT_SPEC_FILE`. -/
def defaultSpecFile : Text := "papi".toList

/-! ## Tokens -/

/-- The keywords. -/
inductive Keyword where
  | quiet | debug | noMpiGather | noDerivedStats | noSummaryStats | multiplex | nofork | rusage
  | memory | noWrite | gccProf | pathscaleFuncs | pathscaleAll | pathscaleLoops | noMpiProf
  | noIoProf | noThreadsyncProf | noScientific | nextgen | csv | writeOnly | outputPrefix
  | outputDir | outputFile | user | kernel | other | supervisor
  deriving DecidableEq

namespace Keyword

/-- The text of a keyword. -/
def text : Keyword → Text
  | quiet => "QUIET".toList
  | debug => "DEBUG".toList
  | noMpiGather => "NO_MPI_GATHER".toList
  | noDerivedStats => "NO_DERIVED_STATS".toList
  | noSummaryStats => "NO_SUMMARY_STATS".toList
  | multiplex => "MULTIPLEX".toList
  | nofork => "NOFORK".toList
  | rusage => "RUSAGE".toList
  | memory => "MEMORY".toList
  | noWrite => "NO_WRITE".toList
  | gccProf => "GCC_PROF".toList
  | pathscaleFuncs => "PATHSCALE_FUNCS".toList
  | pathscaleAll => "PATHSCALE_ALL".toList
  | pathscaleLoops => "PATHSCALE_LOOPS".toList
  | noMpiProf => "NO_MPI_PROF".toList
  | noIoProf => "NO_IO_PROF".toList
  | noThreadsyncProf => "NO_THREADSYNC_PROF".toList
  | noScientific => "NO_SCIENTIFIC".toList
  | nextgen => "NEXTGEN".toList
  | csv => "CSV".toList
  | writeOnly => "WRITE_ONLY".toList
  | outputPrefix => "PREFIX".toList
  | outputDir => "DIR".toList
  | outputFile => "FILE".toList
  | user => "USER".toList
  | kernel => "KERNEL".toList
  | other => "OTHER".toList
  | supervisor => "SUPERVISOR".toList

/-- All keywords. -/
def all : List Keyword :=
  [quiet, debug, noMpiGather, noDerivedStats, noSummaryStats, multiplex, nofork, rusage, memory,
    noWrite, gccProf, pathscaleFuncs, pathscaleAll, pathscaleLoops, noMpiProf, noIoProf,
    noThreadsyncProf, noScientific, nextgen, csv, writeOnly, outputPrefix, outputDir, outputFile,
    user, kernel, other, supervisor]

theorem mem_all (keyword : Keyword) : keyword ∈ all := by
  cases keyword <;> decide

end Keyword

/-- `MPX_INTERVAL=`. -/
def intervalMarker : Text := "MPX_INTERVAL=".toList

/-- `SPEC=`. -/
def specMarker : Text := "SPEC=".toList

/-- What a token of the option string is taken for. -/
inductive OptionToken where
  | keyword (word : Keyword)
  | mpxInterval (arg : Text)
  | spec (path : Text)
  | event (name : Text)
  deriving DecidableEq

/-- The comparisons that `monitor_init_library` makes on a token. -/
def OptionToken.ofText (tmp : Text) : OptionToken :=
  match Keyword.all.find? fun word => word.text = tmp with
  | some word => .keyword word
  | none =>
      match dropPrefix intervalMarker tmp with
      | some arg => .mpxInterval arg
      | none =>
          match dropPrefix specMarker tmp with
          | some path => .spec path
          | none => .event tmp

/-! ## The settings -/

/-- `pathscale_prof`. -/
inductive PathscaleProf where
  | none
  | funcs
  | all
  | loops
  deriving DecidableEq

/-- The settings of the library that the option string decides; the bits of `domain` one
by one. -/
structure LibraryOptions where
  quiet : Bool := false
  debug : ℕ := 0
  noMpiGather : Bool := false
  noDerivedStats : Bool := false
  noSummaryStats : Bool := false
  multiplex : Bool := false
  mpxInterval : ℤ := defaultMpxHz
  specFile : Option Text := .none
  userSpecifiedSpec : Bool := false
  noFollowFork : Bool := false
  rusage : Bool := false
  memory : Bool := false
  noWrite : Bool := false
  gccProf : Bool := false
  pathscaleProf : PathscaleProf := .none
  noMpiProf : Bool
  noIoProf : Bool
  noThreadsyncProf : Bool
  noScientific : Bool := false
  papiexNextgen : Bool := false
  csvOutput : Bool := false
  writeOnly : Bool := false
  domUser : Bool := false
  domKernel : Bool := false
  domOther : Bool := false
  domSupervisor : Bool := false
  eventnames : List Text := []

/-- `init_library_globals`. -/
def initLibraryGlobals (build : Build) : LibraryOptions where
  noMpiProf := !build.profilingSupport
  noIoProf := !build.profilingSupport
  noThreadsyncProf := true

/-- `atoi`, a number too large for a `long` being cut off at its bounds first. -/
def atoi (text : Text) : ℤ := Int.bmod (max (-2 ^ 63) (min (2 ^ 63 - 1) (strtol text))) (2 ^ 32)

/-- What a keyword sets. -/
def Keyword.apply (opts : LibraryOptions) : Keyword → LibraryOptions
  | .quiet => opts  -- `quiet = 1` is commented out
  | .debug => { opts with debug := opts.debug + 1 }
  | .noMpiGather => { opts with noMpiGather := true }
  | .noDerivedStats => { opts with noDerivedStats := true }
  | .noSummaryStats => { opts with noSummaryStats := true }
  | .multiplex => { opts with multiplex := true }
  | .nofork => { opts with noFollowFork := true }
  | .rusage => { opts with rusage := true }
  | .memory => { opts with memory := true }
  | .noWrite => { opts with noWrite := true }
  | .gccProf => { opts with gccProf := true }
  | .pathscaleFuncs => { opts with pathscaleProf := .funcs }
  | .pathscaleAll => { opts with pathscaleProf := .all }
  | .pathscaleLoops => { opts with pathscaleProf := .loops }
  | .noMpiProf => { opts with noMpiProf := true }
  | .noIoProf => { opts with noIoProf := true }
  | .noThreadsyncProf => { opts with noThreadsyncProf := true }
  | .noScientific => { opts with noScientific := true }
  | .nextgen => { opts with papiexNextgen := true }
  | .csv => { opts with csvOutput := true, papiexNextgen := true }
  | .writeOnly => { opts with writeOnly := true }
  | .outputPrefix => opts
  | .outputDir => opts
  | .outputFile => opts
  | .user => { opts with domUser := true }
  | .kernel => { opts with domKernel := true }
  | .other => { opts with domOther := true }
  | .supervisor => { opts with domSupervisor := true }

/-- The library's turn for one token. -/
def OptionToken.apply (opts : LibraryOptions) : OptionToken → LibraryOptions
  | .keyword word => word.apply opts
  | .mpxInterval arg => { opts with mpxInterval := atoi arg }
  | .spec path => { opts with specFile := some path, userSpecifiedSpec := true }
  | .event name =>
      { opts with
        specFile :=
          if (dropPrefix "PAPI_".toList name).isSome then
            some (opts.specFile.getD defaultSpecFile)
          else opts.specFile
        eventnames := opts.eventnames ++ [name] }

/-- A delimiter of the first call of `strtok`. -/
def isFirstDelim (c : Char) : Bool := c = ',' || c = ' '

/-- A delimiter of the later calls. -/
def isLaterDelim (c : Char) : Bool := c = ','

/-- The tokens of the option string. -/
def optionTokens (opts : Text) : List OptionToken :=
  (Strtok.strtok isFirstDelim isLaterDelim opts).map OptionToken.ofText

/-- `monitor_init_library`, as far as it reads the options.  There is no result if
profiling is asked for that was not built in, or if the events do not fit into
`eventnames`. -/
def monitorInitLibrary (build : Build) (opts : Text) : Option LibraryOptions :=
  let settings := (optionTokens opts).foldl OptionToken.apply (initLibraryGlobals build)
  if maxCounters < settings.eventnames.length then none
  else if build.haveBinutils = false ∧ (settings.gccProf = true ∨ settings.pathscaleProf ≠ .none)
  then none
  else
    some { settings with noWrite := if settings.papiexNextgen then false else settings.noWrite }

end Papiex
