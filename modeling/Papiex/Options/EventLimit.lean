import Papiex.Options.Channel
import Papiex.Options.EventCheck

/-!
# Where the tables are full

Three loops fill tables of `PAPIEX_MAX_COUNTERS` entries.  `test_papi_events` looks after
each entry whether the table is full, so it never writes past the end, but gives up at a
list that would just fit.  `make_compatible_eventset` does not look; it runs over long
lists only if `test_papi_events` returned before its limit, at a name that does not map.
The library does not look either, and takes whatever the driver hands on, together with
the events that commas cut off from the arguments of `-E`.

The library is only started if there is a command to run, or if the option string is
printed for a shell; with `--test` alone the driver exits.

## Main results

* `libraryEvents_cases`: when the table of the library is overrun.
* `settleEvents_of_allCompatible`: what the driver makes of events that go together.
* `tables_hold_iff`: when all three tables hold, and the limit is where it should be.

## Design notes

The statement puts three things together that the source decides in three places: no table
is overrun in the driver, none in the library, and the limit refuses no list that would fit.
What the library reads as events is up to `strtok` and to the comparisons it makes: words of
the list that are spelled like options do not count, and pieces of an argument of `-E` may.
-/

namespace Papiex

open Chars

/-! ## The events of the library -/

/-- The event branch of `monitor_init_library`, with its table. -/
def recordToken (table : EventTable) : OptionToken → Except TableStop EventTable
  | .event name =>
      if table.i < maxCounters then
        .ok { table with
          eventnames := Function.update table.eventnames table.i (some name)
          i := table.i + 1 }
      else .error .overrun
  | _ => .ok table

/-- The events that `monitor_init_library` takes from the option string. -/
def libraryEvents (str : Text) : Except TableStop EventTable :=
  FallibleRun.run recordToken {} (optionTokens str)

/-- The events in an option string. -/
def eventsIn (str : Text) : List Text := (optionTokens str).filterMap OptionToken.event?

/-- The library is started with the option string: by the command that the driver runs, or in
a shell that the string was printed for. -/
def DriverState.startsLibrary (context : DriverContext) (state : DriverState) : Bool :=
  state.shellDump || (!state.long .test && context.hasCommand)

/-! ## What is asked of the tables -/

/-- The events are there, and can be counted together. -/
structure AllCompatible (papi : EventLibrary) (multiplex : Bool) (names : List Text) : Prop where
  ne_nil : names ≠ []
  setsUp : papi.SetsUp multiplex
  mappable : ∀ name ∈ names, papi.Mappable name
  queryable : ∀ name ∈ names, papi.Queryable name
  addable : papi.addEvents multiplex (names.map papi.code) = papiOk

/-- The driver passes the list on as it is, and the library takes it if it is started. -/
def Accepts (papi : EventLibrary) (context : DriverContext) (state : DriverState) : Prop :=
  state.settleEvents papi = .ok state.requestedEvents ∧
    (state.startsLibrary context = true →
      ∃ table, libraryEvents (state.finish state.requestedEvents) = .ok table)

/-- **The tables hold the events.**  Neither the driver nor the library writes past the
end of a table, and a list of compatible events is accepted exactly if it has at most
`PAPIEX_MAX_COUNTERS` names. -/
structure TablesHold (papi : EventLibrary) (context : DriverContext) (state : DriverState) :
    Prop where
  driver : state.settleEvents papi ≠ .error .overrun
  library : state.startsLibrary context = true →
    ∀ events, state.settleEvents papi = .ok events →
      libraryEvents (state.finish events) ≠ .error .overrun
  accepted : AllCompatible papi state.multiplex state.requestedNames →
    (Accepts papi context state ↔ state.requestedNames.length ≤ maxCounters)

/-- The events that commas cut off from the arguments of `-E`. -/
def strayEvents (opts : List DriverOption) : List Text :=
  (strays opts).filterMap OptionToken.event?

/-- The events that the library reads from a list: what it cuts the list into, less the words
that it takes for other options. -/
def eventsAmong (opts : List DriverOption) (events : Text) : List Text :=
  ((eventTexts opts events).map OptionToken.ofText).filterMap OptionToken.event?

/-! ## The library -/

variable {papi : EventLibrary} {requested events : Text}

/-- One entry more. -/
theorem EventTable.names_succ {table next : EventTable} {name : Text}
    (hnames : next.eventnames = Function.update table.eventnames table.i (some name))
    (hindex : next.i = table.i + 1) : next.names = table.names ++ [some name] := by
  have hbefore : (List.range table.i).map next.eventnames =
      (List.range table.i).map table.eventnames := by
    refine List.map_congr_left fun k hk => ?_
    rw [hnames, Function.update_of_ne (List.mem_range.mp hk).ne]
  rw [EventTable.names, hindex, List.range_succ, List.map_append, hbefore, List.map_singleton,
    hnames, Function.update_self, EventTable.names]

/-- **The library takes the events** if there are no more than fit in the rest of the table,
and runs past its end otherwise. -/
theorem run_recordToken (tokens : List OptionToken) {table : EventTable}
    (h : table.i ≤ maxCounters) :
    (table.i + (tokens.filterMap OptionToken.event?).length ≤ maxCounters ∧
        ∃ final, FallibleRun.run recordToken table tokens = .ok final ∧
          final.names = table.names ++ (tokens.filterMap OptionToken.event?).map some) ∨
      (maxCounters < table.i + (tokens.filterMap OptionToken.event?).length ∧
        FallibleRun.run recordToken table tokens = .error .overrun) := by
  induction tokens generalizing table with
  | nil => exact .inl ⟨h, table, rfl, (List.append_nil _).symm⟩
  | cons token tokens ih =>
      cases token with
      | event name =>
          have hcount : ((OptionToken.event name :: tokens).filterMap OptionToken.event?) =
              name :: tokens.filterMap OptionToken.event? := rfl
          rw [hcount, List.length_cons, List.map_cons]
          by_cases hroom : table.i < maxCounters
          · have hstep : recordToken table (.event name) = .ok { table with
                eventnames := Function.update table.eventnames table.i (some name)
                i := table.i + 1 } := if_pos hroom
            rw [FallibleRun.run_cons_ok hstep]
            generalize hnext : ({ table with
                eventnames := Function.update table.eventnames table.i (some name)
                i := table.i + 1 } : EventTable) = next
            have hindex : next.i = table.i + 1 := by rw [← hnext]
            have hnames : next.names = table.names ++ [some name] :=
              EventTable.names_succ (by rw [← hnext]) hindex
            rcases ih (hindex ▸ hroom : next.i ≤ maxCounters) with
              ⟨hle, final, hfinal, hall⟩ | ⟨hlt, hover⟩
            · refine .inl ⟨by omega, final, hfinal, ?_⟩
              rw [hall, hnames, List.append_assoc, List.singleton_append]
            · exact .inr ⟨by omega, hover⟩
          · rw [FallibleRun.run_cons_error (if_neg hroom)]
            exact .inr ⟨by omega, rfl⟩
      | keyword word => exact ih h
      | mpxInterval arg => exact ih h
      | spec path => exact ih h

/-- **The library writes past its table** exactly if there are more events than entries. -/
theorem libraryEvents_cases (str : Text) :
    ((eventsIn str).length ≤ maxCounters ∧ ∃ table, libraryEvents str = .ok table ∧
        table.names = (eventsIn str).map some) ∨
      (maxCounters < (eventsIn str).length ∧ libraryEvents str = .error .overrun) := by
  have hempty : ({} : EventTable).i ≤ maxCounters := Nat.zero_le _
  have hrun := run_recordToken (optionTokens str) hempty
  rw [Nat.zero_add] at hrun
  exact hrun

/-- **What the library's model says of the events** is what its table holds. -/
theorem libraryEvents_of_monitorInitLibrary {build : Build} {str : Text} {lib : LibraryOptions}
    (h : monitorInitLibrary build str = some lib) :
    ∃ table, libraryEvents str = .ok table ∧ table.names = lib.eventnames.map some := by
  obtain ⟨hcount, -, rfl⟩ := (monitorInitLibrary_eq_some_iff rfl).mp h
  have hnames : (settingsAfter build (optionTokens str)).eventnames = eventsIn str :=
    eventnames_foldl_apply
  rcases libraryEvents_cases str with ⟨-, htable⟩ | ⟨hover, -⟩
  · rwa [hnames]
  · exact absurd hcount (not_le.mpr hover)

variable {context : DriverContext} {opts : List DriverOption} {driver : DriverState}

/-- **What the library finds**: the events cut off from arguments of `-E`, and those of the
list. -/
theorem eventsIn_finish
    (hrun : FallibleRun.run (parseOption context) (.initial context.build) opts = .ok driver)
    (hevents : driver.requestedEvents = [] → events = []) :
    eventsIn (driver.finish events) = strayEvents opts ++ eventsAmong opts events := by
  have hkeywords :
      (driver.longKeywords.map OptionToken.keyword).filterMap OptionToken.event? = [] := by
    rw [List.filterMap_eq_nil_iff]
    intro token htoken
    obtain ⟨word, -, rfl⟩ := List.mem_map.mp htoken
    rfl
  have hline : (lineTokens opts).filterMap OptionToken.event? = _ := filterMap_event?_lineTokens
  rw [lineTokens] at hline
  rw [eventsIn, optionTokens_finish hrun hevents, List.filterMap_append, List.filterMap_append,
    hline, hkeywords, List.append_nil, eventsAmong, strayEvents]

/-- The table of the library is overrun exactly by too many events. -/
theorem libraryEvents_finish_ne_overrun_iff
    (hrun : FallibleRun.run (parseOption context) (.initial context.build) opts = .ok driver)
    (hevents : driver.requestedEvents = [] → events = []) :
    libraryEvents (driver.finish events) ≠ .error .overrun ↔
      (strayEvents opts).length + (eventsAmong opts events).length ≤ maxCounters := by
  have hcases := libraryEvents_cases (driver.finish events)
  rw [eventsIn_finish hrun hevents, List.length_append] at hcases
  rcases hcases with ⟨hle, table, htable, -⟩ | ⟨hlt, hover⟩
  · rw [htable]
    exact iff_of_true (by simp) hle
  · exact iff_of_false (fun hnot => hnot hover) (not_le.mpr hlt)

/-- Nothing else goes wrong in this loop. -/
theorem exists_table_iff (str : Text) :
    (∃ table, libraryEvents str = .ok table) ↔ libraryEvents str ≠ .error .overrun := by
  rcases libraryEvents_cases str with ⟨hle, table, htable, -⟩ | ⟨hlt, hover⟩
  · rw [htable]
    exact iff_of_true ⟨table, rfl⟩ (by simp)
  · rw [hover]
    exact iff_of_false (by simp) (by simp)

/-! ## The driver and the library -/

/-- A list is handed on only if one was asked for. -/
theorem HandsOn.eq_nil (h : HandsOn papi driver events) (hempty : driver.requestedEvents = []) :
    events = [] := by
  cases h with
  | unchecked => exact hempty
  | passed hchecks => exact absurd hempty hchecks.1
  | chosen hchecks => exact absurd hempty hchecks.1

/-- What the library needs: room for the events of every list that the driver hands on, and for
those cut off from the arguments of `-E`. -/
theorem library_holds_iff
    (hrun : FallibleRun.run (parseOption context) (.initial context.build) opts = .ok driver) :
    (∀ events, driver.settleEvents papi = .ok events →
        libraryEvents (driver.finish events) ≠ .error .overrun) ↔
      ∀ events, HandsOn papi driver events →
        (strayEvents opts).length + (eventsAmong opts events).length ≤ maxCounters := by
  refine forall_congr' fun events => ?_
  rw [settleEvents_eq_ok_iff]
  refine forall_congr' fun hands => ?_
  exact libraryEvents_finish_ne_overrun_iff hrun hands.eq_nil

/-- **When the driver passes a compatible list on**: always without the check, and with it if
the list leaves an entry free. -/
theorem settleEvents_of_allCompatible
    (h : AllCompatible papi driver.multiplex driver.requestedNames) :
    driver.settleEvents papi = .ok driver.requestedEvents ↔
      (driver.long .noCompatCheck = false → driver.requestedNames.length < maxCounters) := by
  have hrequested : driver.requestedEvents ≠ [] := by
    intro hempty
    exact h.ne_nil (by rw [DriverState.requestedNames, hempty, Strtok.tokens_nil])
  by_cases hchecks : driver.Checks
  · rw [forall_prop_of_true hchecks.2]
    rcases settleEvents_cases papi hchecks with
      ⟨hpasses, -, hsettle⟩ | ⟨-, ⟨-, hfalls⟩, -⟩ | ⟨hnot, -, stop, hsettle, -⟩
    · exact iff_of_true hsettle hpasses.room
    · -- every name maps, and the events can be added
      exfalso
      have hmapped := mapped_eq_self papi h.mappable
      rcases hfalls with ⟨-, front, name, rest, hsplit, -, hunknown, -⟩ | hfails
      · exact hunknown (h.mappable name (by simp [hsplit]))
      · rcases hfails.wrong with hcreate | ⟨-, ⟨-, name, hname, hunknown⟩ | ⟨hadd, -⟩⟩
        · exact hcreate h.setsUp.createEventset
        · exact hunknown (h.mappable name hname)
        · rw [hmapped] at hadd
          exact hadd h.addable
    · rw [hsettle]
      refine iff_of_false (by simp) fun hroom => hnot ?_
      exact ⟨h.ne_nil, h.mappable, hroom, h.setsUp, h.addable⟩
  · refine iff_of_true (settleEvents_of_not_checks hchecks) fun hcheck => ?_
    exact absurd ⟨hrequested, hcheck⟩ hchecks

/-- **When a compatible list is accepted**, if the library is not overrun. -/
theorem accepts_iff_of_allCompatible
    (h : AllCompatible papi driver.multiplex driver.requestedNames)
    (hlibrary : driver.startsLibrary context = true →
      ∀ events, driver.settleEvents papi = .ok events →
        libraryEvents (driver.finish events) ≠ .error .overrun) :
    Accepts papi context driver ↔
      (driver.long .noCompatCheck = false → driver.requestedNames.length < maxCounters) := by
  rw [Accepts, ← settleEvents_of_allCompatible h]
  refine and_iff_left_of_imp fun hsettle hstarts => ?_
  exact (exists_table_iff _).mpr (hlibrary hstarts _ hsettle)

/-! ## A list that just fits -/

/-- `PAPI_TOT_CYC` this many times. -/
def manyCycles (n : ℕ) : List Text := List.replicate n "PAPI_TOT_CYC".toList

/-- All names of the line are the same. -/
theorem mem_manyCycles {n : ℕ} {name : Text} (h : name ∈ manyCycles n) :
    name = "PAPI_TOT_CYC".toList := List.eq_of_mem_replicate h

/-- The names come back from the list with commas. -/
theorem tokens_manyCycles (n : ℕ) :
    Strtok.tokens isLaterDelim (joined (manyCycles n)) = manyCycles n := by
  refine tokens_joined fun name hname => ?_
  rw [mem_manyCycles hname]
  decide

/-- The driver after `-e` with these events, and the check or not. -/
def cyclesDriver (n : ℕ) (noCompatCheck : Bool) : DriverState where
  events := joined (manyCycles n)
  long other := other = .noCompatCheck && noCompatCheck ||
    (DriverState.initial ⟨true, true⟩).long other

/-- Its command line. -/
def cyclesLine (n : ℕ) (noCompatCheck : Bool) : List DriverOption :=
  .event (joined (manyCycles n)) :: if noCompatCheck then [.long .noCompatCheck] else []

/-- What the driver makes of the options. -/
theorem run_cyclesLine (n : ℕ) (noCompatCheck : Bool) :
    FallibleRun.run (parseOption (readyContext ⟨true, true⟩)) (.initial ⟨true, true⟩)
      (cyclesLine n noCompatCheck) = .ok (cyclesDriver n noCompatCheck) := by
  cases noCompatCheck with
  | false =>
      show Except.ok _ = Except.ok _
      congr 1
      rw [cyclesDriver]
      simp [DriverState.initial, appendOption]
  | true =>
      show Except.ok _ = Except.ok _
      congr 1
      rw [cyclesDriver]
      simp [DriverState.initial, appendOption]

theorem delimited_cyclesLine (n : ℕ) (noCompatCheck : Bool) :
    delimited (cyclesLine n noCompatCheck) = [] := by
  cases noCompatCheck <;> rfl

/-- Nothing is cut off from them. -/
theorem strayEvents_cyclesLine (n : ℕ) (noCompatCheck : Bool) :
    strayEvents (cyclesLine n noCompatCheck) = [] := by
  rw [strayEvents, strays, delimited_cyclesLine]
  rfl

theorem eventsAmong_cyclesLine (n : ℕ) (noCompatCheck : Bool) :
    eventsAmong (cyclesLine n noCompatCheck) (joined (manyCycles n)) = manyCycles n := by
  have hevent : ∀ name ∈ manyCycles n, OptionToken.ofText name = .event name := by
    intro name hname
    rw [mem_manyCycles hname]
    decide
  rw [eventsAmong, eventTexts_eq_tokens, tokens_manyCycles, List.map_congr_left hevent,
    List.filterMap_map]
  · exact List.filterMap_some
  · intro _ name hname
    rw [tokens_manyCycles] at hname
    rw [mem_manyCycles (List.mem_of_mem_head? hname)]
    decide

theorem requestedEvents_cyclesDriver (n : ℕ) (noCompatCheck : Bool) :
    (cyclesDriver n noCompatCheck).requestedEvents = joined (manyCycles n) := rfl

theorem requestedNames_cyclesDriver (n : ℕ) (noCompatCheck : Bool) :
    (cyclesDriver n noCompatCheck).requestedNames = manyCycles n := tokens_manyCycles n

/-- PAPI takes as many as the table holds. -/
theorem allCompatible_manyCycles {n : ℕ} (hpos : 0 < n) (hle : n ≤ maxCounters) :
    AllCompatible roomyLibrary false (manyCycles n) where
  ne_nil := by simp [manyCycles, hpos.ne']
  setsUp := roomyLibrary_setsUp false
  mappable := fun _ _ => rfl
  queryable := fun _ _ => rfl
  addable := if_pos (by simpa [manyCycles] using hle)

/-- **The tables hold the events**, and the limit is where it should be, if and only if: where
the check returns early, there is room for every event that is tried; if the library is
started, what it is handed has no more events than fit, those cut off from `-E` included; and
a compatible list has at most as many names as fit without the check, and not just as many
with it. -/
theorem tables_hold_iff (papi : EventLibrary) (context : DriverContext)
    (opts : List DriverOption) (driver : DriverState)
    (hrun : FallibleRun.run (parseOption context) (.initial context.build) opts = .ok driver) :
    TablesHold papi context driver ↔
      (driver.long .noCompatCheck = false → driver.skips = true → driver.long .test = false →
        papi.SetsUp driver.multiplex → ReturnsEarly papi driver.requestedNames →
          RoomToTry papi driver.multiplex driver.requestedNames) ∧
      (driver.startsLibrary context = true → ∀ events, HandsOn papi driver events →
        (strayEvents opts).length + (eventsAmong opts events).length ≤ maxCounters) ∧
      (AllCompatible papi driver.multiplex driver.requestedNames →
        if driver.long .noCompatCheck then driver.requestedNames.length ≤ maxCounters
        else driver.requestedNames.length ≠ maxCounters) := by
  have hdriver : driver.settleEvents papi ≠ .error .overrun ↔
      (driver.long .noCompatCheck = false → driver.skips = true → driver.long .test = false →
        papi.SetsUp driver.multiplex → ReturnsEarly papi driver.requestedNames →
          RoomToTry papi driver.multiplex driver.requestedNames) := by
    rw [ne_eq, settleEvents_eq_overrun_iff]
    push Not
    rfl
  rw [← hdriver, ← library_holds_iff hrun]
  have hlimit : AllCompatible papi driver.multiplex driver.requestedNames →
      (driver.startsLibrary context = true →
        ∀ events, driver.settleEvents papi = .ok events →
          libraryEvents (driver.finish events) ≠ .error .overrun) →
      ((Accepts papi context driver ↔ driver.requestedNames.length ≤ maxCounters) ↔
        if driver.long .noCompatCheck then driver.requestedNames.length ≤ maxCounters
        else driver.requestedNames.length ≠ maxCounters) := by
    intro hcompat hlibrary
    rw [accepts_iff_of_allCompatible hcompat hlibrary]
    cases driver.long .noCompatCheck with
    | true => simp
    | false =>
        simp only [forall_const, Bool.false_eq_true, if_false]
        omega
  constructor
  · intro hhold
    exact ⟨hhold.driver, hhold.library, fun hcompat =>
      (hlimit hcompat hhold.library).mp (hhold.accepted hcompat)⟩
  · rintro ⟨hnever, hlibrary, haccepted⟩
    exact ⟨hnever, hlibrary, fun hcompat => (hlimit hcompat hlibrary).mpr (haccepted hcompat)⟩

/-- One event finds its place. -/
theorem tables_hold_one : TablesHold roomyLibrary (readyContext ⟨true, true⟩)
    (cyclesDriver 1 false) := by
  refine (tables_hold_iff roomyLibrary (readyContext ⟨true, true⟩) (cyclesLine 1 false)
    (cyclesDriver 1 false) (run_cyclesLine 1 false)).mpr ⟨?_, ?_, ?_⟩
  · intro _ hskip
    exact absurd hskip (by decide)
  · intro _ events hands
    have hevents : events = (cyclesDriver 1 false).requestedEvents := by
      cases hands with
      | unchecked => rfl
      | passed => rfl
      | chosen _ hskip => exact absurd hskip (by decide)
    rw [hevents, strayEvents_cyclesLine, requestedEvents_cyclesDriver, eventsAmong_cyclesLine]
    decide
  · intro _
    rw [requestedNames_cyclesDriver]
    decide

/-- **The limit is off by one, and the library has none.**  The check refuses
`PAPIEX_MAX_COUNTERS` compatible events; and without it the library writes one more behind
its table. -/
theorem full_list_refused :
    (AllCompatible roomyLibrary false (cyclesDriver 128 false).requestedNames ∧
      (cyclesDriver 128 false).requestedNames.length = maxCounters ∧
      (cyclesDriver 128 false).settleEvents roomyLibrary ≠
        .ok (cyclesDriver 128 false).requestedEvents ∧
      ¬ TablesHold roomyLibrary (readyContext ⟨true, true⟩) (cyclesDriver 128 false)) ∧
    (cyclesDriver 129 true).startsLibrary (readyContext ⟨true, true⟩) = true ∧
      (cyclesDriver 129 true).settleEvents roomyLibrary =
        .ok (cyclesDriver 129 true).requestedEvents ∧
      libraryEvents ((cyclesDriver 129 true).finish (cyclesDriver 129 true).requestedEvents) =
        .error .overrun := by
  have hnames := requestedNames_cyclesDriver 128 false
  have hcompat : AllCompatible roomyLibrary false (cyclesDriver 128 false).requestedNames := by
    rw [hnames]
    exact allCompatible_manyCycles (n := 128) (by decide) (by decide)
  have hlength : (cyclesDriver 128 false).requestedNames.length = maxCounters := by
    rw [hnames]
    exact List.length_replicate
  have hrefused : (cyclesDriver 128 false).settleEvents roomyLibrary ≠
      .ok (cyclesDriver 128 false).requestedEvents := by
    intro hok
    have hroom := (settleEvents_of_allCompatible hcompat).mp hok (by decide)
    rw [hlength] at hroom
    exact lt_irrefl _ hroom
  refine ⟨⟨hcompat, hlength, hrefused, fun h => ?_⟩, by decide, ?_, ?_⟩
  · exact hrefused ((h.accepted hcompat).mpr hlength.le).1
  · exact settleEvents_of_not_checks fun h => absurd h.2 (by decide)
  · by_contra hnever
    have hfits := (libraryEvents_finish_ne_overrun_iff (run_cyclesLine 129 true)
      (fun h => h : (cyclesDriver 129 true).requestedEvents = [] → _)).mp hnever
    rw [strayEvents_cyclesLine, requestedEvents_cyclesDriver, eventsAmong_cyclesLine, manyCycles,
      List.length_replicate] at hfits
    exact absurd hfits (by decide)

end Papiex
