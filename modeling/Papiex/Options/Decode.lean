import Papiex.Lib.LastWrite
import Papiex.Options.Library

/-!
# What the library reads from the tokens

The flags of the configuration, its interval, its spec file and its events, each as
a function of the tokens of the option string: a flag is set if a token sets it, of
the intervals and of the spec files the last one counts, and the events are kept in
their order.

## Main results

* `monitorInitLibrary_eq_some_iff`: when the library accepts an option string.
* `configuration_settingsAfter`: the configuration that the tokens make.
-/

namespace Papiex

open Chars

/-! ## The configuration -/

/-- The flags of the configuration. -/
inductive Flag where
  | quiet | multiplex | rusage | memory | noDerivedStats | noSummaryStats | domUser | domKernel
  | domOther | domSupervisor | noMpiProf | noIoProf | noThreadsyncProf | nextgen | csv | noWrite
  deriving DecidableEq

namespace Flag

/-- The variable of the flag. -/
def get (settings : LibraryOptions) : Flag → Bool
  | quiet => settings.quiet
  | multiplex => settings.multiplex
  | rusage => settings.rusage
  | memory => settings.memory
  | noDerivedStats => settings.noDerivedStats
  | noSummaryStats => settings.noSummaryStats
  | domUser => settings.domUser
  | domKernel => settings.domKernel
  | domOther => settings.domOther
  | domSupervisor => settings.domSupervisor
  | noMpiProf => settings.noMpiProf
  | noIoProf => settings.noIoProf
  | noThreadsyncProf => settings.noThreadsyncProf
  | nextgen => settings.papiexNextgen
  | csv => settings.csvOutput
  | noWrite => settings.noWrite

/-- The keywords that set the flag. -/
def setBy : Flag → List Keyword
  | quiet => []
  | multiplex => [.multiplex]
  | rusage => [.rusage]
  | memory => [.memory]
  | noDerivedStats => [.noDerivedStats]
  | noSummaryStats => [.noSummaryStats]
  | domUser => [.user]
  | domKernel => [.kernel]
  | domOther => [.other]
  | domSupervisor => [.supervisor]
  | noMpiProf => [.noMpiProf]
  | noIoProf => [.noIoProf]
  | noThreadsyncProf => [.noThreadsyncProf]
  | nextgen => [.nextgen, .csv]
  | csv => [.csv]
  | noWrite => [.noWrite]

/-- What the flags amount to: `nextgen` overrides `noWrite`. -/
def effective (flags : Flag → Bool) : Flag → Bool
  | noWrite => !flags nextgen && flags noWrite
  | flag => flags flag

end Flag

/-- The configuration that the option string is to carry. -/
@[ext]
structure Configuration where
  flag : Flag → Bool
  mpxInterval : ℤ
  spec : Option Text
  eventnames : List Text

/-- The spec file of the user. -/
def LibraryOptions.userSpec (settings : LibraryOptions) : Option Text :=
  if settings.userSpecifiedSpec then settings.specFile else none

/-- The configuration in the settings of the library. -/
def LibraryOptions.configuration (settings : LibraryOptions) : Configuration where
  flag := fun flag => flag.get settings
  mpxInterval := settings.mpxInterval
  spec := settings.userSpec
  eventnames := settings.eventnames

/-! ## What a token says -/

namespace OptionToken

/-- The token sets the flag. -/
def sets (flag : Flag) : OptionToken → Bool
  | keyword word => word ∈ flag.setBy
  | _ => false

/-- The interval in the token. -/
def interval? : OptionToken → Option ℤ
  | mpxInterval arg => some (atoi arg)
  | _ => none

/-- The spec file in the token. -/
def spec? : OptionToken → Option Text
  | spec path => some path
  | _ => none

/-- The event in the token. -/
def event? : OptionToken → Option Text
  | event name => some name
  | _ => none

/-- The token asks for one of the profiles that the tools may be built without. -/
def profiles : OptionToken → Bool
  | keyword word => word ∈ [Keyword.gccProf, .pathscaleFuncs, .pathscaleAll, .pathscaleLoops]
  | _ => false

end OptionToken

/-- One of the profiles that the tools may be built without is asked for. -/
def LibraryOptions.profiled (settings : LibraryOptions) : Bool :=
  settings.gccProf || !decide (settings.pathscaleProf = .none)

/-- The settings after these tokens. -/
def settingsAfter (build : Build) (tokens : List OptionToken) : LibraryOptions :=
  let settings := tokens.foldl OptionToken.apply (initLibraryGlobals build)
  { settings with noWrite := if settings.papiexNextgen then false else settings.noWrite }

section Apply

variable {build : Build} {flag : Flag} {settings lib : LibraryOptions} {token : OptionToken}
variable {tokens : List OptionToken} {opts : Text}

/-- A keyword sets its flags and no others. -/
theorem Flag.get_keyword_apply (word : Keyword) :
    flag.get (word.apply settings) = (flag.get settings || decide (word ∈ flag.setBy)) := by
  cases flag <;> cases word <;> simp [Flag.get, Keyword.apply, Flag.setBy]

/-- A token sets the flags that are its own. -/
theorem Flag.get_apply :
    flag.get (token.apply settings) = (flag.get settings || token.sets flag) := by
  cases token with
  | keyword word => exact get_keyword_apply word
  | mpxInterval arg => cases flag <;> exact (Bool.or_false _).symm
  | spec path => cases flag <;> exact (Bool.or_false _).symm
  | event name => cases flag <;> exact (Bool.or_false _).symm

/-- **A flag is set if it was or if a token sets it.** -/
theorem Flag.get_foldl_apply :
    flag.get (tokens.foldl OptionToken.apply settings) =
      (flag.get settings || tokens.any (OptionToken.sets flag)) := by
  induction tokens generalizing settings with
  | nil => simp
  | cons token tokens ih => rw [List.foldl_cons, ih, get_apply, List.any_cons, Bool.or_assoc]

theorem LibraryOptions.profiled_apply :
    (token.apply settings).profiled = (settings.profiled || token.profiles) := by
  cases token with
  | keyword word =>
      cases word
      case gccProf | pathscaleFuncs | pathscaleAll | pathscaleLoops =>
        simp [LibraryOptions.profiled, OptionToken.apply, Keyword.apply, OptionToken.profiles]
      all_goals exact (Bool.or_false _).symm
  | mpxInterval arg => exact (Bool.or_false _).symm
  | spec path => exact (Bool.or_false _).symm
  | event name => exact (Bool.or_false _).symm

/-- Profiling is on once a token has turned it on. -/
theorem LibraryOptions.profiled_foldl_apply :
    (tokens.foldl OptionToken.apply settings).profiled =
      (settings.profiled || tokens.any OptionToken.profiles) := by
  induction tokens generalizing settings with
  | nil => simp
  | cons token tokens ih =>
      rw [List.foldl_cons, ih, profiled_apply, List.any_cons, Bool.or_assoc]

theorem mpxInterval_apply :
    (token.apply settings).mpxInterval = token.interval?.getD settings.mpxInterval := by
  cases token with
  | keyword word => cases word <;> rfl
  | mpxInterval arg => rfl
  | spec path => rfl
  | event name => rfl

/-- **The last interval counts.** -/
theorem mpxInterval_foldl_apply :
    (tokens.foldl OptionToken.apply settings).mpxInterval =
      (tokens.filterMap OptionToken.interval?).getLast?.getD settings.mpxInterval := by
  have hafter : some (tokens.foldl OptionToken.apply settings).mpxInterval =
      LastWrite.after OptionToken.interval? (some settings.mpxInterval) tokens := by
    induction tokens generalizing settings with
    | nil => rfl
    | cons token tokens ih =>
        rw [List.foldl_cons, ih, LastWrite.after_cons, mpxInterval_apply]
        cases token.interval? <;> rfl
  rw [LastWrite.after_eq_getLast?] at hafter
  cases hlast : (tokens.filterMap OptionToken.interval?).getLast? <;> simpa [hlast] using hafter

/-- A user's spec file is there. -/
theorem isSome_specFile_apply (h : settings.userSpecifiedSpec = true → settings.specFile.isSome) :
    (token.apply settings).userSpecifiedSpec = true → (token.apply settings).specFile.isSome := by
  cases token with
  | keyword word => cases word <;> exact h
  | mpxInterval arg => exact h
  | spec path => exact fun _ => rfl
  | event name =>
      intro huser
      rw [OptionToken.apply]
      split
      · rfl
      · exact h huser

theorem userSpec_apply (h : settings.userSpecifiedSpec = true → settings.specFile.isSome) :
    (token.apply settings).userSpec = token.spec?.or settings.userSpec := by
  cases token with
  | keyword word => cases word <;> rfl
  | mpxInterval arg => rfl
  | spec path => rfl
  | event name =>
      -- the default for the presets of PAPI leaves a spec file of the user alone
      show (if settings.userSpecifiedSpec = true then _ else _) = settings.userSpec
      rw [LibraryOptions.userSpec]
      split
      · rename_i huser
        obtain ⟨path, hpath⟩ := Option.isSome_iff_exists.mp (h huser)
        simp [OptionToken.apply, hpath]
      · rfl

/-- **The last spec file counts.** -/
theorem userSpec_foldl_apply (h : settings.userSpecifiedSpec = true → settings.specFile.isSome) :
    (tokens.foldl OptionToken.apply settings).userSpec =
      (tokens.filterMap OptionToken.spec?).getLast?.or settings.userSpec := by
  rw [← LastWrite.after_eq_getLast?]
  induction tokens generalizing settings with
  | nil => rfl
  | cons token tokens ih => rw [List.foldl_cons, ih (isSome_specFile_apply h),
      LastWrite.after_cons, userSpec_apply h]

theorem eventnames_apply :
    (token.apply settings).eventnames = settings.eventnames ++ token.event?.toList := by
  cases token with
  | keyword word => cases word <;> exact (List.append_nil _).symm
  | mpxInterval arg => exact (List.append_nil _).symm
  | spec path => exact (List.append_nil _).symm
  | event name => rfl

/-- **The events are kept in their order.** -/
theorem eventnames_foldl_apply :
    (tokens.foldl OptionToken.apply settings).eventnames =
      settings.eventnames ++ tokens.filterMap OptionToken.event? := by
  induction tokens generalizing settings with
  | nil => simp
  | cons token tokens ih =>
      rw [List.foldl_cons, ih, eventnames_apply, List.append_assoc]
      cases hevent : token.event? with
      | none => rw [List.filterMap_cons_none hevent]; rfl
      | some name => rw [List.filterMap_cons_some hevent]; rfl

/-- **What the library makes of the tokens.** -/
theorem monitorInitLibrary_eq_some_iff (htokens : optionTokens opts = tokens) :
    monitorInitLibrary build opts = some lib ↔
      (tokens.filterMap OptionToken.event?).length ≤ maxCounters ∧
      (tokens.any OptionToken.profiles = true → build.haveBinutils = true) ∧
      lib = settingsAfter build tokens := by
  have hevents : (tokens.foldl OptionToken.apply (initLibraryGlobals build)).eventnames = _ :=
    eventnames_foldl_apply
  have hprofiled : (tokens.foldl OptionToken.apply (initLibraryGlobals build)).profiled = _ :=
    LibraryOptions.profiled_foldl_apply
  rw [show (initLibraryGlobals build).eventnames = [] from rfl, List.nil_append] at hevents
  rw [show (initLibraryGlobals build).profiled = false from rfl, Bool.false_or] at hprofiled
  rw [monitorInitLibrary, htokens, ← hevents, ← hprofiled, settingsAfter]
  generalize tokens.foldl OptionToken.apply (initLibraryGlobals build) = settings
  have hcond : (settings.gccProf = true ∨ settings.pathscaleProf ≠ .none) ↔
      settings.profiled = true := by
    simp [LibraryOptions.profiled]
  simp only [hcond]
  split
  · rename_i hmany
    simp [hmany]
  · rename_i hmany
    split
    · rename_i hbuild
      simp [hbuild]
    · rename_i hbuild
      have hbuild : settings.profiled = true → build.haveBinutils = true := by
        intro hprofiled
        by_contra hnot
        exact hbuild ⟨by simpa using hnot, hprofiled⟩
      simp only [Option.some.injEq, not_lt.mp hmany, true_and]
      exact ⟨fun h => ⟨hbuild, h.symm⟩, fun h => h.2.symm⟩

/-- **The configuration that the library reads from the tokens.** -/
theorem configuration_settingsAfter :
    (settingsAfter build tokens).configuration =
      { flag := Flag.effective fun flag => flag.get (initLibraryGlobals build) ||
          tokens.any (OptionToken.sets flag)
        mpxInterval := (tokens.filterMap OptionToken.interval?).getLast?.getD defaultMpxHz
        spec := (tokens.filterMap OptionToken.spec?).getLast?
        eventnames := tokens.filterMap OptionToken.event? } := by
  simp only [← Flag.get_foldl_apply]
  ext1
  · funext flag
    cases flag
    case noWrite =>
      show (if _ then false else _) = (!_ && _)
      generalize tokens.foldl OptionToken.apply (initLibraryGlobals build) = settings
      show (if settings.papiexNextgen = true then false else settings.noWrite) =
        (!settings.papiexNextgen && settings.noWrite)
      cases settings.papiexNextgen <;> rfl
    all_goals rfl
  · exact mpxInterval_foldl_apply
  · exact (userSpec_foldl_apply (by simp [initLibraryGlobals])).trans Option.or_none
  · exact eventnames_foldl_apply

end Apply

end Papiex
