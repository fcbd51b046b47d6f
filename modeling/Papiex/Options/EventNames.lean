import Papiex.Options.EventCheck

/-!
# The check by names

The model of the driver's command line has a shorter model of `test_papi_events` and
`make_compatible_eventset`, which goes by names and lists instead of codes and tables.
Both come to the same, as long as `PAPI_add_events` answers with an error or with a number
of events that it was given.

## Main results

* `makeCompatibleEventset_byName`, `testPapiEvents_byName`: the two models agree.
-/

namespace Papiex

open Chars

/-! ## `make_compatible_eventset` -/

section MakeCompatible

variable {papi : EventLibrary} {multiplex : Bool} {state : CompatState} {tmp requested : Text}

/-- The library by the names of the events. -/
def EventLibrary.byName (papi : EventLibrary) : PapiLibrary where
  eventNameToCode name := decide (papi.Mappable name)
  queryEvent name := decide (papi.Queryable name)
  multiplexInit := decide (papi.multiplexInit = papiOk)
  createEventset := decide (papi.createEventset = papiOk)
  setMultiplex := decide (papi.assignEventsetComponent = papiOk ∧ papi.setMultiplex = papiOk)
  addEvents multiplex names := papi.addEvents multiplex (names.map papi.code)

/-- How the driver ends. -/
def TableStop.toExit : TableStop → DriverExit
  | .error => .error
  | .overrun => .overflow
  | .noName => .error

/-- The result of the loop as the driver goes on with it. -/
def loopResult : Except TableStop CompatState → Except DriverExit Text
  | .ok state => .ok state.compEvents
  | .error stop => .error stop.toExit

theorem byName_fails_iff :
    (papi.byName.createEventset = false ∨ multiplex = true ∧ papi.byName.setMultiplex = false) ↔
      ¬ papi.MakesSets multiplex := by
  simp only [EventLibrary.byName, decide_eq_false_iff_not]
  constructor
  · rintro (hcreate | ⟨hmultiplex, hset⟩) hsets
    · exact hcreate hsets.createEventset
    · exact hset ⟨hsets.assignEventsetComponent hmultiplex, hsets.setMultiplex hmultiplex⟩
  · intro hsets
    by_contra hnot
    push Not at hnot
    exact hsets ⟨hnot.1, fun hmultiplex => (hnot.2 hmultiplex).1,
      fun hmultiplex => (hnot.2 hmultiplex).2⟩

theorem byName_addEvents {table : EventTable} {kept : List Text}
    (hcodes : table.codes = kept.map papi.code) :
    papi.byName.addEvents multiplex (kept ++ [tmp]) =
      papi.addEvents multiplex (table.codes ++ [papi.code tmp]) := by
  rw [hcodes, ← List.map_singleton, ← List.map_append]
  rfl

/-- **The loop with tables is the loop over names**, from any state whose table and text
hold the names that were kept. -/
theorem keepCompatible_byName {kept names : List Text}
    (hcodes : state.table.codes = kept.map papi.code) (hcomp : state.compEvents = joined kept) :
    (keepCompatible papi.byName multiplex kept names).map joined =
      loopResult (FallibleRun.run (checkCompatible papi multiplex) state names) := by
  induction names generalizing state kept with
  | nil =>
      rw [keepCompatible, FallibleRun.run_nil, loopResult, hcomp]
      rfl
  | cons tmp rest ih =>
      have hindex := EventTable.index_eq_length hcodes
      have hturn := turn_checkCompatible papi multiplex state tmp
      rw [keepCompatible, FallibleRun.run_cons]
      generalize checkCompatible papi multiplex state tmp = result at hturn
      cases hturn with
      | unavailable hmap =>
          rw [if_neg fun hboth => hmap (of_decide_eq_true hboth.1)]
          exact ih hcodes hcomp
      | incompatible hmap hquery =>
          rw [if_neg fun hboth => hquery (of_decide_eq_true hboth.2)]
          exact ih hcodes hcomp
      | overrun hmap hquery hfull =>
          rw [if_pos ⟨decide_eq_true hmap, decide_eq_true hquery⟩, if_pos (hindex ▸ hfull)]
          rfl
      | noSet hmap hquery hroom hsets =>
          rw [if_pos ⟨decide_eq_true hmap, decide_eq_true hquery⟩,
            if_neg (not_le.mpr (hindex ▸ hroom)), if_pos (byName_fails_iff.mpr hsets)]
          rfl
      | accepted hmap hquery hroom hsets hadd hcodes' hnames =>
          replace hadd : papi.addEvents multiplex (state.table.codes ++ [papi.code tmp]) = 0 := hadd
          rw [if_pos ⟨decide_eq_true hmap, decide_eq_true hquery⟩,
            if_neg (not_le.mpr (hindex ▸ hroom)),
            if_neg fun hfail => byName_fails_iff.mp hfail hsets, byName_addEvents hcodes,
            if_pos hadd]
          refine ih ?_ ?_
          · rw [hcodes', hcodes, List.map_append, List.map_singleton]
          · rw [hcomp, joined_concat]
      | takenBack hmap hquery hroom hsets hadd hcodes' hnames =>
          replace hadd : papi.addEvents multiplex (state.table.codes ++ [papi.code tmp]) ≠ 0 := hadd
          rw [if_pos ⟨decide_eq_true hmap, decide_eq_true hquery⟩,
            if_neg (not_le.mpr (hindex ▸ hroom)),
            if_neg fun hfail => byName_fails_iff.mp hfail hsets, byName_addEvents hcodes,
            if_neg hadd]
          exact ih (hcodes'.trans hcodes) hcomp

/-- **What the driver's model says of `make_compatible_eventset`** is what the tables give. -/
theorem makeCompatibleEventset_byName (papi : EventLibrary) (multiplex couldNotAddSomeEvents : Bool)
    (hnames : Strtok.tokens isLaterDelim requested ≠ []) :
    makeCompatibleEventset papi.byName multiplex requested =
      match makeCompatible papi multiplex couldNotAddSomeEvents requested with
      | .ok (events, _) => .ok events
      | .error stop => .error stop.toExit := by
  by_cases hinit : multiplex = true ∧ papi.multiplexInit ≠ papiOk
  · rw [makeCompatibleEventset, if_pos ⟨hinit.1, decide_eq_false hinit.2⟩, makeCompatible,
      if_pos hinit]
    rfl
  · have hrequested : requested ≠ [] := by
      rintro rfl
      exact hnames Strtok.tokens_nil
    rw [makeCompatibleEventset, if_neg fun hfail => hinit ⟨hfail.1, of_decide_eq_false hfail.2⟩]
    have hloop : (keepCompatible papi.byName multiplex []
        (Strtok.tokens isLaterDelim requested)).map joined =
          loopResult (FallibleRun.run (checkCompatible papi multiplex) { couldNotAddSomeEvents }
            (Strtok.tokens isLaterDelim requested)) := keepCompatible_byName rfl rfl
    refine hloop.trans ?_
    obtain ⟨tmp, rest, hcons⟩ := List.exists_cons_of_ne_nil hnames
    rw [makeCompatible, if_neg hinit, if_neg hrequested, hcons]
    dsimp only
    cases FallibleRun.run (checkCompatible papi multiplex) { couldNotAddSomeEvents }
        (tmp :: rest) with
    | ok state => rfl
    | error stop => rfl

end MakeCompatible

/-! ## `test_papi_events` -/

variable {papi : EventLibrary} {skip testOnly multiplex : Bool} {state : TestState}
variable {tmp requested : Text} {names : List Text}

/-- What the loop gives the driver's model: the names that map, and whether one does not. -/
def lookedUp (papi : EventLibrary) (kept rest : List Text) :
    Except TestEnd TestState → Except DriverExit (Option (List Text × Bool))
  | .error (.stop stop) => .error stop.toExit
  | .error (.returned _ _) => .ok none
  | .ok final => .ok (some (kept ++ papi.mapped rest, final.couldNotAddSomeEvents))

theorem lookedUp_cons_of_mappable {kept rest : List Text} (hmap : papi.Mappable tmp)
    (result : Except TestEnd TestState) :
    lookedUp papi kept (tmp :: rest) result = lookedUp papi (kept ++ [tmp]) rest result := by
  rcases result with (stop | ⟨retval, noted⟩) | final
  · rfl
  · rfl
  · simp [lookedUp, hmap]

theorem lookedUp_cons_of_not_mappable {kept rest : List Text} (hmap : ¬ papi.Mappable tmp)
    (result : Except TestEnd TestState) :
    lookedUp papi kept (tmp :: rest) result = lookedUp papi kept rest result := by
  rcases result with (stop | ⟨retval, noted⟩) | final
  · rfl
  · rfl
  · simp [lookedUp, hmap]

/-- **The loop with tables is the loop over names**, from any state whose table holds them. -/
theorem mapNames_byName {kept rest : List Text} (hcodes : state.table.codes = kept.map papi.code)
    (hroom : state.table.i < maxCounters) :
    mapNames papi.byName skip testOnly kept state.couldNotAddSomeEvents rest =
      lookedUp papi kept rest (FallibleRun.run (mapEvent papi skip testOnly) state rest) := by
  induction rest generalizing state kept with
  | nil => rw [mapNames, FallibleRun.run_nil, lookedUp, mapped_nil_eq, List.append_nil]
  | cons tmp rest ih =>
      have hindex := EventTable.index_eq_length hcodes
      have hname : papi.byName.eventNameToCode tmp = decide (papi.Mappable tmp) := rfl
      have hturn := mapTurn_mapEvent papi skip testOnly tmp hroom
      rw [mapNames, hname, FallibleRun.run_cons]
      generalize mapEvent papi skip testOnly state tmp = result at hturn
      cases hturn with
      | unknown hmap hskip =>
          rw [if_neg fun hknown => hmap (of_decide_eq_true hknown), if_pos hskip]
          rfl
      | returned hmap hskip htest =>
          subst hskip htest
          rw [if_neg fun hknown => hmap (of_decide_eq_true hknown)]
          rfl
      | noted hmap hskip htest htable hmissing =>
          subst hskip htest
          rw [if_neg fun hknown => hmap (of_decide_eq_true hknown),
            lookedUp_cons_of_not_mappable hmap]
          have hrest := ih (htable ▸ hcodes) (htable ▸ hroom)
          rw [hmissing] at hrest
          exact hrest
      | @mapped table hmap hnext hindex' hcodes' =>
          rw [if_pos (decide_eq_true hmap), if_neg (by omega), lookedUp_cons_of_mappable hmap]
          have hkept : ({ state with table } : TestState).table.codes =
              (kept ++ [tmp]).map papi.code := by
            rw [List.map_append, List.map_singleton, ← hcodes]
            exact hcodes'
          exact ih hkept (hindex' ▸ hnext)
      | full hmap hfull =>
          rw [if_pos (decide_eq_true hmap), if_pos (by omega)]
          rfl

/-- `PAPI_add_events` gives an error, or the number of events that it could add. -/
def EventLibrary.CountsAdded (papi : EventLibrary) : Prop :=
  ∀ multiplex codes, papi.addEvents multiplex codes ≠ papiOk →
    papi.addEvents multiplex codes < codes.length

/-- If events were left out, their number is the index of the first of them, which has a name. -/
theorem Mapped.exists_name_of_addEvents (hmapped : Mapped papi skip testOnly state names)
    (hcounts : papi.CountsAdded)
    (hadd : papi.addEvents multiplex state.table.codes ≠ papiOk)
    (hneg : ¬ papi.addEvents multiplex state.table.codes < papiOk) :
    ∃ name, state.table.eventnames (papi.addEvents multiplex state.table.codes).toNat =
      some name := by
  have hlt := hcounts multiplex state.table.codes hadd
  rw [state.table.length_codes, hmapped.index] at hlt
  have hle : 0 ≤ papi.addEvents multiplex state.table.codes := not_lt.mp hneg
  exact Option.ne_none_iff_exists'.mp (hmapped.eventnames_ne_none_iff.mpr (by omega))

/-- What follows the loop, over names. -/
theorem addMapped_byName (hcounts : papi.CountsAdded)
    (hmapped : Mapped papi skip testOnly state names) {kept : List Text}
    (hkept : kept = papi.mapped names) :
    (if multiplex = true ∧ papi.byName.multiplexInit = false then .error .error
      else if papi.byName.createEventset = false then if skip then .ok false else .error .error
      else if multiplex = true ∧ papi.byName.setMultiplex = false then .error .error
      else if papi.byName.addEvents multiplex kept ≠ 0 then
        if skip then .ok false else .error .error
      else .ok (!state.couldNotAddSomeEvents) : Except DriverExit Bool) =
    match addMapped papi skip multiplex state with
    | .error stop => .error stop.toExit
    | .ok (rc, _) => .ok (decide (rc = papiOk)) := by
  have hcodes : kept.map papi.code = state.table.codes := by rw [hkept, hmapped.codes]
  simp only [EventLibrary.byName, decide_eq_false_iff_not, hcodes]
  rw [addMapped]
  by_cases hinit : multiplex = true ∧ papi.multiplexInit ≠ papiOk
  · rw [if_pos hinit, if_pos hinit]
    rfl
  rw [if_neg hinit, if_neg hinit]
  by_cases hcreate : papi.createEventset ≠ papiOk
  · rw [if_pos hcreate, if_pos hcreate]
    cases skip with
    | true => simp [hcreate]
    | false => rfl
  rw [if_neg hcreate, if_neg hcreate]
  by_cases hassign : multiplex = true ∧ papi.assignEventsetComponent ≠ papiOk
  · rw [if_pos ⟨hassign.1, fun hboth => hassign.2 hboth.1⟩, if_pos hassign]
    rfl
  rw [if_neg hassign]
  by_cases hset : multiplex = true ∧ papi.setMultiplex ≠ papiOk
  · rw [if_pos ⟨hset.1, fun hboth => hset.2 hboth.2⟩, if_pos hset]
    rfl
  have hneither : ¬ (multiplex = true ∧
      ¬ (papi.assignEventsetComponent = papiOk ∧ papi.setMultiplex = papiOk)) := by
    rintro ⟨hmultiplex, hfail⟩
    refine hfail ⟨?_, ?_⟩
    · by_contra hne
      exact hassign ⟨hmultiplex, hne⟩
    · by_contra hne
      exact hset ⟨hmultiplex, hne⟩
  rw [if_neg hset, if_neg hneither]
  dsimp only
  by_cases hadd : papi.addEvents multiplex state.table.codes = papiOk
  · have hzero : papi.addEvents multiplex state.table.codes = 0 := hadd
    rw [if_neg (not_not.mpr hzero), if_pos hadd]
    cases state.couldNotAddSomeEvents <;> rfl
  have hnonzero : papi.addEvents multiplex state.table.codes ≠ 0 := hadd
  rw [if_pos hnonzero, if_neg hadd]
  cases skip with
  | false => rfl
  | true =>
      rw [if_pos rfl, if_neg (by decide)]
      by_cases hneg : papi.addEvents multiplex state.table.codes < papiOk
      · rw [if_pos hneg]
        simp [hadd]
      · obtain ⟨name, hname⟩ := hmapped.exists_name_of_addEvents hcounts hadd hneg
        rw [if_neg hneg, hname]
        simp [hadd]

/-- **What the driver's model says of `test_papi_events`** is what the tables give. -/
theorem testPapiEvents_byName (hcounts : papi.CountsAdded) (hrequested : requested ≠ []) :
    testPapiEvents papi.byName skip testOnly multiplex requested =
      match testEvents papi skip testOnly multiplex requested with
      | .error stop => .error stop.toExit
      | .ok (rc, _) => .ok (decide (rc = papiOk)) := by
  unfold testPapiEvents testEvents
  rw [if_neg hrequested]
  cases hnames : Strtok.tokens isLaterDelim requested with
  | nil => rfl
  | cons tmp rest =>
      dsimp only
      have hloop : mapNames papi.byName skip testOnly [] false (tmp :: rest) =
          lookedUp papi [] (tmp :: rest)
            (FallibleRun.run (mapEvent papi skip testOnly) {} (tmp :: rest)) :=
        mapNames_byName rfl (mapped_nil papi skip testOnly).room
      rw [hloop]
      cases hrun : FallibleRun.run (mapEvent papi skip testOnly) {} (tmp :: rest) with
      | error stop =>
          cases stop with
          | stop stop => rfl
          | returned retval noted =>
              obtain h | ⟨_, _, h, hne, -⟩ := run_mapEvent_error hrun
              · cases h
              · cases h
                simp [lookedUp, hne]
      | ok final => exact addMapped_byName hcounts (mapped_of_run hrun) rfl

/-- **The driver's model of the events** is what the tables give. -/
theorem testedEvents_byName (hcounts : papi.CountsAdded) (driver : DriverState) :
    driver.testedEvents papi.byName =
      match driver.settleEvents papi with
      | .error stop => .error stop.toExit
      | .ok events => .ok events := by
  by_cases hchecked : driver.requestedEvents = [] ∨ driver.long .noCompatCheck = true
  · rw [DriverState.testedEvents, if_pos hchecked, DriverState.settleEvents, if_pos hchecked]
  · obtain ⟨hempty, hcheck⟩ := not_or.mp hchecked
    have hskips : (driver.long .skipUnavailableEvents || driver.autoStats || driver.long .test) =
        driver.skips := rfl
    rw [DriverState.testedEvents, if_neg hchecked, hskips,
      settleEvents_of_checks ⟨hempty, Bool.eq_false_iff.mpr hcheck⟩]
    dsimp only
    rw [testPapiEvents_byName hcounts hempty]
    cases htest : testEvents papi driver.skips (driver.long .test) driver.multiplex
        driver.requestedEvents with
    | error stop => rfl
    | ok result =>
        obtain ⟨rc, tested⟩ := result
        dsimp only
        have hnames : Strtok.tokens isLaterDelim driver.requestedEvents ≠ [] := by
          intro hnames
          rw [testEvents_of_no_name hempty hnames] at htest
          cases htest
        by_cases hrc : rc = papiOk
        · have hpassed : ¬ (driver.skips = true ∧ rc ≠ papiOk) := fun hfail => hfail.2 hrc
          rw [decide_eq_true hrc, if_neg hpassed]
        · rw [decide_eq_false hrc]
          dsimp only
          by_cases hskip : driver.skips = true
          · rw [if_pos hskip, if_pos ⟨hskip, hrc⟩,
              makeCompatibleEventset_byName papi driver.multiplex tested.couldNotAddSomeEvents
                hnames]
            cases makeCompatible papi driver.multiplex tested.couldNotAddSomeEvents
              driver.requestedEvents with
            | error stop => rfl
            | ok made => rfl
          · rw [if_neg hskip, if_neg fun hfail => hskip hfail.1]

end Papiex
