import Papiex.Lib.FallibleRun
import Papiex.Options.Library
import Papiex.Output.Path
import Mathlib.Data.List.Infix

/-!
# The options as the driver passes them on

`parse_args` turns the command line of `papiex` into the text of `PAPIEX_OPTIONS`.
Its pieces are keywords, the interval of the multiplexing, the spec file, and the
list of the events, joined by commas.  `getopt_long` has already taken the command
line apart.

What PAPI says of events and event sets is a parameter.  The output path, which
goes by a variable of its own, and the values for the report, are left out.

## Main results

* `parseArgs`: `parse_args`, from the options to the text.
-/

namespace Papiex

open Chars

/-- The long options that set a flag. -/
inductive LongOption where
  | noLdPath | noSummary | noDerived | noMpiGather | usePapiPresets | test
  | skipUnavailableEvents | noMpiProf | noIoProf | noThreadsyncProf | noScientific
  | noCompatCheck | classic | csvOutput
  deriving DecidableEq

/-- The options of a command line, as `getopt_long` returns them. -/
inductive DriverOption where
  /-- `-d`. -/
  | debug
  /-- `-E`, `--spec`. -/
  | spec (arg : Text)
  /-- `-Q`, `--pathscale`. -/
  | pathscale (arg : Option Text)
  /-- `-G`, `--gnu`. -/
  | gnu
  /-- `-q`. -/
  | quiet
  /-- `-m`. -/
  | multiplex (interval : Option Text)
  /-- `-r`. -/
  | rusage
  /-- `-x`. -/
  | memory
  /-- `-n`. -/
  | noWrite
  /-- `-w`. -/
  | writeOnly
  /-- `-U`. -/
  | user
  /-- `-K`. -/
  | kernel
  /-- `-I`. -/
  | other
  /-- `-S`. -/
  | supervisor
  /-- `-p`. -/
  | outputPrefix
  /-- `-f`. -/
  | outputDir
  /-- `-o`. -/
  | outputFile
  /-- `-a`. -/
  | auto
  /-- `-e`. -/
  | event (arg : Text)
  /-- `-s`. -/
  | shellDump
  | long (option : LongOption)
  /-- `-h`, `-i`, `-V`, `-l` and `-L`. -/
  | info
  /-- An option that is not known, or lacks its argument. -/
  | unknown
  deriving DecidableEq

/-- How `parse_args` ends without a text: after printing what was asked for, with an
error, or past the end of a buffer. -/
inductive DriverExit where
  | info
  | error
  | overflow
  deriving DecidableEq

/-- What PAPI says.  The event sets are multiplexed or not. -/
structure PapiLibrary where
  /-- `PAPI_event_name_to_code` succeeds. -/
  eventNameToCode : Text → Bool
  /-- `PAPI_query_event` succeeds. -/
  queryEvent : Text → Bool
  /-- `PAPI_multiplex_init` succeeds. -/
  multiplexInit : Bool
  /-- `PAPI_create_eventset` succeeds. -/
  createEventset : Bool
  /-- `PAPI_assign_eventset_component` and `PAPI_set_multiplex` succeed. -/
  setMultiplex : Bool
  /-- `PAPI_add_events`. -/
  addEvents : (multiplex : Bool) → List Text → ℤ

/-- What the driver depends on besides the command line. -/
structure DriverContext where
  build : Build
  papi : PapiLibrary
  /-- `file_exists`. -/
  fileExists : Text → Bool
  /-- A command follows the options. -/
  hasCommand : Bool

/-- `append_option`. -/
def appendOption (optStr option : Text) : Text :=
  if optStr = [] then option else optStr ++ ',' :: option

/-- `papi_useful_presets`. -/
def papiUsefulPresets : Text :=
  ("PAPI_TOT_INS,PAPI_FP_INS,PAPI_LST_INS,PAPI_BR_INS,PAPI_VEC_INS,PAPI_INT_INS," ++
    "PAPI_FMA_INS,PAPI_LD_INS,PAPI_SR_INS,PAPI_TOT_CYC,PAPI_RES_STL,PAPI_MEM_SCY," ++
    "PAPI_FP_STAL,PAPI_L1_DCM,PAPI_L1_ICM,PAPI_TLB_DM,PAPI_TLB_IM,PAPI_L2_DCM," ++
    "PAPI_L2_ICM,PAPI_CA_INV,PAPI_CSR_FAL,PAPI_CSR_TOT,PAPI_LSU_IDL,PAPI_FPU_IDL," ++
    "PAPI_STL_ICY,PAPI_FUL_ICY,PAPI_BR_CN,PAPI_BR_MSP,PAPI_FP_OPS,PAPI_L1_DCA," ++
    "PAPI_L2_DCA,PAPI_L2_ICA").toList

/-! ## The events -/

/-- The loop of `test_papi_events` over the names: nothing if it gives up, else the names
that are known and whether one was not. -/
def mapNames (papi : PapiLibrary) (skip testOnly : Bool) :
    List Text → Bool → List Text → Except DriverExit (Option (List Text × Bool))
  | names, couldNotAdd, [] => .ok (some (names, couldNotAdd))
  | names, couldNotAdd, tmp :: rest =>
      if papi.eventNameToCode tmp then
        if names.length + 1 = maxCounters then .error .error
        else mapNames papi skip testOnly (names ++ [tmp]) couldNotAdd rest
      else if skip = false then .error .error
      else if testOnly then mapNames papi skip testOnly names true rest
      else .ok none

/-- `test_papi_events`: whether it returns `PAPI_OK`. -/
def testPapiEvents (papi : PapiLibrary) (skip testOnly multiplex : Bool) (events : Text) :
    Except DriverExit Bool :=
  match Strtok.tokens isLaterDelim events with
  | [] => .error .error  -- there is no name to look up
  | tmp :: rest =>
      match mapNames papi skip testOnly [] false (tmp :: rest) with
      | .error stop => .error stop
      | .ok none => .ok false
      | .ok (some (names, couldNotAdd)) =>
          if multiplex = true ∧ papi.multiplexInit = false then .error .error
          else if papi.createEventset = false then if skip then .ok false else .error .error
          else if multiplex = true ∧ papi.setMultiplex = false then .error .error
          else if papi.addEvents multiplex names ≠ 0 then
            if skip then .ok false else .error .error
          else .ok (!couldNotAdd)

/-- The loop of `make_compatible_eventset`: the events that can be added one after the
other. -/
def keepCompatible (papi : PapiLibrary) (multiplex : Bool) :
    List Text → List Text → Except DriverExit (List Text)
  | kept, [] => .ok kept
  | kept, tmp :: rest =>
      if papi.eventNameToCode tmp = true ∧ papi.queryEvent tmp = true then
        if maxCounters ≤ kept.length then .error .overflow
        else if papi.createEventset = false ∨ multiplex = true ∧ papi.setMultiplex = false then
          .error .error
        else if papi.addEvents multiplex (kept ++ [tmp]) = 0 then
          keepCompatible papi multiplex (kept ++ [tmp]) rest
        else keepCompatible papi multiplex kept rest
      else keepCompatible papi multiplex kept rest

/-- `make_compatible_eventset`: the events it leaves. -/
def makeCompatibleEventset (papi : PapiLibrary) (multiplex : Bool) (events : Text) :
    Except DriverExit Text :=
  if multiplex = true ∧ papi.multiplexInit = false then .error .error
  else
    (keepCompatible papi multiplex [] (Strtok.tokens isLaterDelim events)).map
      fun kept => kept.foldl appendOption []

/-! ## The options -/

/-- The variables of the driver. -/
structure DriverState where
  optionString : Text := []
  events : Text := []
  long : LongOption → Bool
  multiplex : Bool := false
  autoStats : Bool := false
  shellDump : Bool := false
  gccProf : Bool := false
  pathscaleProf : PathscaleProf := .none

/-- The variables before the command line is read. -/
def DriverState.initial (build : Build) : DriverState where
  long
    | .noMpiProf | .noIoProf | .noThreadsyncProf => !build.profilingSupport
    | .usePapiPresets => true
    | _ => false

/-- A piece is appended to `option_string`. -/
def DriverState.append (state : DriverState) (option : Text) : DriverState :=
  { state with optionString := appendOption state.optionString option }

/-- `strstr` finds one of the words in `option_string`. -/
def DriverState.mentions (state : DriverState) (words : List String) : Bool :=
  words.any fun word => word.toList <:+: state.optionString

/-- The value of `opt` for `-Q`. -/
def pathscaleOf : Option Text → Option PathscaleProf
  | some opt =>
      if (dropPrefixNoCase "func".toList opt).isSome then some .funcs
      else if (dropPrefixNoCase "loop".toList opt).isSome then some .loops
      else if opt.map Char.toLower = "all".toList then some .all
      else none
  | none => some .all

/-- The keyword for `pathscale_prof`. -/
def PathscaleProf.keyword : PathscaleProf → Keyword
  | .funcs => .pathscaleFuncs
  | .loops => .pathscaleLoops
  | .all => .pathscaleAll
  | .none => .pathscaleAll

/-- The case of `parse_args` for an option. -/
def parseOption (context : DriverContext) (state : DriverState) :
    DriverOption → Except DriverExit DriverState
  | .debug => .ok (state.append Keyword.debug.text)
  | .spec arg =>
      if context.fileExists arg = false then .error .error
      else if pathMax ≤ (specMarker ++ arg).length then .error .overflow
      else .ok (state.append (specMarker ++ arg))
  | .pathscale arg =>
      if context.build.haveBinutils = false ∨ state.gccProf = true then .error .error
      else
        match pathscaleOf arg with
        | some prof => .ok { state.append prof.keyword.text with pathscaleProf := prof }
        | none => .error .error
  | .gnu =>
      if context.build.haveBinutils = false ∨ state.pathscaleProf ≠ .none then .error .error
      else .ok { state.append Keyword.gccProf.text with gccProf := true }
  | .quiet =>
      if state.mentions ["RUSAGE"] then .error .error
      else .ok (state.append Keyword.quiet.text)
  | .multiplex none => .ok { state.append Keyword.multiplex.text with multiplex := true }
  | .multiplex (some arg) =>
      -- `errno` is `ERANGE` if the number does not fit into a `long`
      if strtol arg < -2 ^ 63 ∨ 2 ^ 63 ≤ strtol arg ∨ Int.bmod (strtol arg) (2 ^ 32) ≤ 0 then
        .error .error
      else
        .ok { (state.append Keyword.multiplex.text).append
            (intervalMarker ++ signed (Int.bmod (strtol arg) (2 ^ 32))) with multiplex := true }
  | .rusage =>
      if state.mentions ["QUIET"] then .error .error
      else .ok (state.append Keyword.rusage.text)
  | .memory =>
      if state.mentions ["QUIET"] then .error .error
      else .ok (state.append Keyword.memory.text)
  | .noWrite =>
      if state.mentions ["DIR", "FILE", "PREFIX", "WRITE_ONLY"] then .error .error
      else .ok (state.append Keyword.noWrite.text)
  | .writeOnly =>
      if state.mentions ["NO_WRITE"] then .error .error
      else .ok (state.append Keyword.writeOnly.text)
  | .user => .ok (state.append Keyword.user.text)
  | .kernel => .ok (state.append Keyword.kernel.text)
  | .other => .ok (state.append Keyword.other.text)
  | .supervisor => .ok (state.append Keyword.supervisor.text)
  | .outputPrefix =>
      if state.mentions ["DIR", "FILE", "NO_WRITE"] then .error .error
      else .ok (state.append Keyword.outputPrefix.text)
  | .outputDir =>
      if state.mentions ["PREFIX", "FILE", "NO_WRITE"] then .error .error
      else .ok (state.append Keyword.outputDir.text)
  | .outputFile =>
      if state.mentions ["PREFIX", "DIR", "NO_WRITE"] then .error .error
      else .ok (state.append Keyword.outputFile.text)
  | .auto =>
      .ok { (state.append Keyword.multiplex.text).append Keyword.memory.text with
        multiplex := true
        autoStats := true }
  | .event arg => .ok { state with events := appendOption state.events arg }
  | .shellDump => .ok { state with shellDump := true }
  | .long option =>
      if context.build.profilingSupport = false ∧
          (option = .noMpiProf ∨ option = .noIoProf ∨ option = .noThreadsyncProf) then
        .error .error
      else .ok { state with long := fun other => other = option || state.long other }
  | .info => .error .info
  | .unknown => .error .error

/-- The events that are asked for when all options are read. -/
def DriverState.requestedEvents (state : DriverState) : Text :=
  if state.autoStats then appendOption state.events papiUsefulPresets else state.events

/-- The events after they were tested. -/
def DriverState.testedEvents (papi : PapiLibrary) (state : DriverState) :
    Except DriverExit Text :=
  if state.requestedEvents = [] ∨ state.long .noCompatCheck = true then
    .ok state.requestedEvents
  else
    -- `-a` and `--test` set `skip_unavailable_events` as well
    let skip := state.long .skipUnavailableEvents || state.autoStats || state.long .test
    match testPapiEvents papi skip (state.long .test) state.multiplex state.requestedEvents with
    | .error stop => .error stop
    | .ok true => .ok state.requestedEvents
    | .ok false =>
        if skip then makeCompatibleEventset papi state.multiplex state.requestedEvents
        else .ok state.requestedEvents

/-- The keywords for the long options. -/
def DriverState.longKeywords (state : DriverState) : List Keyword :=
  (if state.long .noMpiGather then [.noMpiGather] else []) ++
  (if state.long .noSummary then [.noSummaryStats] else []) ++
  (if state.long .noDerived then [.noDerivedStats] else []) ++
  (if state.long .noMpiProf then [.noMpiProf] else []) ++
  (if state.long .noIoProf then [.noIoProf] else []) ++
  (if state.long .noThreadsyncProf then [.noThreadsyncProf] else []) ++
  (if state.long .noScientific then [.noScientific] else []) ++
  (if state.long .classic then [] else [.nextgen]) ++
  (if state.long .csvOutput then [.csv] else [])

/-- The option string when the events are tested. -/
def DriverState.finish (state : DriverState) (events : Text) : Text :=
  let withEvents :=
    if state.requestedEvents = [] then state.optionString
    else appendOption state.optionString events
  (state.longKeywords.map Keyword.text).foldl appendOption withEvents

/-- `parse_args`: the events that are accepted, and the option string. -/
def parseArgs (context : DriverContext) (opts : List DriverOption) :
    Except DriverExit (List Text × Text) :=
  match FallibleRun.run (parseOption context) (.initial context.build) opts with
  | .error stop => .error stop
  | .ok state =>
      match state.testedEvents context.papi with
      | .error stop => .error stop
      | .ok events =>
          if pathMax ≤ state.requestedEvents.length ∨ pathMax ≤ (state.finish events).length then
            .error .overflow
          else if state.shellDump = false ∧ state.long .test = false ∧
              context.hasCommand = false then
            .error .error
          else .ok (Strtok.tokens isLaterDelim events, state.finish events)

end Papiex
