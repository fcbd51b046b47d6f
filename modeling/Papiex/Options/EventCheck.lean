import Papiex.Options.EventTables

/-!
# The check of the events

`test_papi_events` and what the driver makes of its answer.  It looks after each entry
whether the table is full, so it never writes past the end, but gives up at a list that
would just fit.  It returns early, before any limit, at a name that does not map; then
`make_compatible_eventset`, which does not look, goes over the whole list.

For every answer of PAPI it is said here which text the driver hands on to the library,
in terms of the names that were asked for, and when the tables of the driver are overrun
on the way.

## Main results

* `exists_run_mapEvent_iff`, `run_mapEvent_error`: how the loop over the names ends.
* `testEvents_passes_iff`, `testEvents_fails_iff`: what the check finds.
* `settleEvents_eq_ok_iff`: what is handed on to the library.
* `settleEvents_eq_overrun_iff`: when a table of the driver is overrun.

## Design notes

A turn of the loop and what comes behind the loop are each described by the cases in which
they can end (`MapTurn`, `AddTurn`), so that no later proof looks into the routine.  The text
that is handed on is then a relation (`HandsOn`) with one constructor for each way of it.
-/

namespace Papiex

open Chars

/-! ## `test_papi_events` -/

/-- The variables of `test_papi_events`. -/
structure TestState where
  table : EventTable := {}
  unavailableEvents : Text := []
  incompatibleEvents : Text := []
  couldNotAddSomeEvents : Bool := false

/-- How its loop ends early. -/
inductive TestEnd where
  | stop (stop : TableStop)
  | returned (retval : ℤ) (state : TestState)

/-- The body of its loop. -/
def mapEvent (papi : EventLibrary) (skip testOnly : Bool) (state : TestState) (tmp : Text) :
    Except TestEnd TestState :=
  let retval := (papi.eventNameToCode tmp).1
  let eventcode := (papi.eventNameToCode tmp).2
  if retval ≠ papiOk then
    if skip = false then .error (.stop .error)
    else
      let noted := { state with
        unavailableEvents := appendOption state.unavailableEvents tmp
        couldNotAddSomeEvents := true }
      if testOnly then .ok noted else .error (.returned retval noted)
  else
    match state.table.put tmp eventcode with
    | .error stop => .error (.stop stop)
    | .ok table =>
        if table.i = maxCounters then .error (.stop .error) else .ok { state with table }

/-- What follows its loop. -/
def addMapped (papi : EventLibrary) (skip multiplex : Bool) (state : TestState) :
    Except TableStop (ℤ × TestState) :=
  if multiplex = true ∧ papi.multiplexInit ≠ papiOk then .error .error
  else if papi.createEventset ≠ papiOk then
    if skip then .ok (papi.createEventset, state) else .error .error
  else if multiplex = true ∧ papi.assignEventsetComponent ≠ papiOk then .error .error
  else if multiplex = true ∧ papi.setMultiplex ≠ papiOk then .error .error
  else
    let retval := papi.addEvents multiplex state.table.codes
    if retval = papiOk then .ok (if state.couldNotAddSomeEvents then 1 else 0, state)
    else if skip = false then .error .error
    else if retval < papiOk then .ok (retval, { state with couldNotAddSomeEvents := true })
    else
      -- the result is the index of the event that could not be added
      match state.table.eventnames retval.toNat with
      | none => .error .noName
      | some name =>
          .ok (retval, { state with
            incompatibleEvents := appendOption state.incompatibleEvents name
            couldNotAddSomeEvents := true })

/-- `test_papi_events`: what it returns, and its variables. -/
def testEvents (papi : EventLibrary) (skip testOnly multiplex : Bool) (events : Text) :
    Except TableStop (ℤ × TestState) :=
  if events = [] then .ok (0, {})
  else
    match Strtok.tokens isLaterDelim events with
    | [] => .error .noName
    | tmp :: rest =>
        match FallibleRun.run (mapEvent papi skip testOnly) {} (tmp :: rest) with
        | .error (.stop stop) => .error stop
        | .error (.returned retval state) => .ok (retval, state)
        | .ok state => addMapped papi skip multiplex state

/-! ## The events of the driver and of the library -/

/-- `skip_unavailable_events`, which `-a` and `--test` set as well. -/
def DriverState.skips (state : DriverState) : Bool :=
  state.long .skipUnavailableEvents || state.autoStats || state.long .test

/-- The names of the events that are asked for. -/
def DriverState.requestedNames (state : DriverState) : List Text :=
  Strtok.tokens isLaterDelim state.requestedEvents

/-- The events that `parse_args` appends to the option string. -/
def DriverState.settleEvents (papi : EventLibrary) (state : DriverState) :
    Except TableStop Text :=
  if state.requestedEvents = [] ∨ state.long .noCompatCheck = true then .ok state.requestedEvents
  else
    match testEvents papi state.skips (state.long .test) state.multiplex
        state.requestedEvents with
    | .error stop => .error stop
    | .ok (rc, tested) =>
        if state.skips = true ∧ rc ≠ papiOk then
          (makeCompatible papi state.multiplex tested.couldNotAddSomeEvents
            state.requestedEvents).map Prod.fst
        else .ok state.requestedEvents

/-! ## What is handed on -/

/-- A name that does not map is among the first names, before the table is full. -/
def ReturnsEarly (papi : EventLibrary) (names : List Text) : Prop :=
  ∃ front name rest, names = front ++ name :: rest ∧ (∀ known ∈ front, papi.Mappable known) ∧
    ¬ papi.Mappable name ∧ front.length < maxCounters

/-- The names that map. -/
def EventLibrary.mapped (papi : EventLibrary) (names : List Text) : List Text :=
  names.filter fun name => papi.Mappable name

/-- **The check finds nothing wrong**: the names map, leave an entry free, and can be
counted together. -/
structure CheckPasses (papi : EventLibrary) (multiplex : Bool) (names : List Text) : Prop where
  ne_nil : names ≠ []
  mappable : ∀ name ∈ names, papi.Mappable name
  room : names.length < maxCounters
  setsUp : papi.SetsUp multiplex
  addable : papi.addEvents multiplex (names.map papi.code) = papiOk

/-- **The check goes through the list and finds something wrong**, but nothing that it gives
up at: there are no event sets, or a name does not map, or the events cannot be added, with
an error or with the number of one of them. -/
structure CheckFails (papi : EventLibrary) (testOnly multiplex : Bool) (names : List Text) :
    Prop where
  ne_nil : names ≠ []
  read : testOnly = true ∨ ∀ name ∈ names, papi.Mappable name
  room : (papi.mapped names).length < maxCounters
  multiplexInit : multiplex = true → papi.multiplexInit = papiOk
  wrong : papi.createEventset ≠ papiOk ∨ papi.MakesSets multiplex ∧
    let added := papi.addEvents multiplex ((papi.mapped names).map papi.code)
    added = papiOk ∧ (∃ name ∈ names, ¬ papi.Mappable name) ∨
      added ≠ papiOk ∧ (added < papiOk ∨ added.toNat < (papi.mapped names).length)

/-- With unavailable events skipped, the driver falls back on `make_compatible_eventset`. -/
def FallsBack (papi : EventLibrary) (testOnly multiplex : Bool) (names : List Text) : Prop :=
  testOnly = false ∧ ReturnsEarly papi names ∨ CheckFails papi testOnly multiplex names

/-- Event sets can be made where one is tried. -/
structure SetsToTry (papi : EventLibrary) (multiplex : Bool) (names : List Text) : Prop where
  multiplexInit : multiplex = true → papi.multiplexInit = papiOk
  makesSets : (∃ name ∈ names, papi.Mappable name ∧ papi.Queryable name) →
    papi.MakesSets multiplex

/-- There is room for every event that `make_compatible_eventset` tries. -/
def RoomToTry (papi : EventLibrary) (multiplex : Bool) (names : List Text) : Prop :=
  ∀ front name rest, names = front ++ name :: rest → papi.Mappable name → papi.Queryable name →
    (Greedy.labelled .accepted (papi.fates multiplex front)).length < maxCounters

/-- The greedy choice from the names, joined. -/
def chosenEvents (papi : EventLibrary) (multiplex : Bool) (names : List Text) : Text :=
  joined (Greedy.labelled .accepted (papi.fates multiplex names))

/-- The driver checks the events. -/
def DriverState.Checks (state : DriverState) : Prop :=
  state.requestedEvents ≠ [] ∧ state.long .noCompatCheck = false

/-- **The text that the driver hands on**: what was asked for, unchecked or because the check
passes, or the greedy choice from it. -/
inductive HandsOn (papi : EventLibrary) (state : DriverState) : Text → Prop
  | unchecked (h : ¬ state.Checks) : HandsOn papi state state.requestedEvents
  | passed (h : state.Checks) (hpasses : CheckPasses papi state.multiplex state.requestedNames) :
      HandsOn papi state state.requestedEvents
  | chosen (h : state.Checks) (hskip : state.skips = true)
      (hfalls : FallsBack papi (state.long .test) state.multiplex state.requestedNames)
      (htry : SetsToTry papi state.multiplex state.requestedNames)
      (hroom : RoomToTry papi state.multiplex state.requestedNames) :
      HandsOn papi state (chosenEvents papi state.multiplex state.requestedNames)

/-! ## The names that map -/

section Names

variable (papi : EventLibrary) {names : List Text}

@[simp] theorem mapped_nil_eq : papi.mapped [] = [] := rfl

@[simp] theorem mapped_cons (name : Text) (names : List Text) :
    papi.mapped (name :: names) =
      (if papi.Mappable name then [name] else []) ++ papi.mapped names := by
  by_cases hmap : papi.Mappable name <;> simp [EventLibrary.mapped, hmap]

@[simp] theorem mapped_concat (names : List Text) (name : Text) :
    papi.mapped (names ++ [name]) =
      papi.mapped names ++ if papi.Mappable name then [name] else [] := by
  simp [EventLibrary.mapped, List.filter_append, List.filter_singleton]

theorem mapped_eq_self (h : ∀ name ∈ names, papi.Mappable name) : papi.mapped names = names :=
  List.filter_eq_self.mpr fun name hname => decide_eq_true (h name hname)

theorem length_mapped_le (front rest : List Text) :
    (papi.mapped front).length ≤ (papi.mapped (front ++ rest)).length := by
  rw [EventLibrary.mapped, EventLibrary.mapped, List.filter_append, List.length_append]
  exact Nat.le_add_right _ _

end Names

/-! ## The loop of `test_papi_events` -/

variable {papi : EventLibrary} {skip testOnly multiplex : Bool} {state : TestState} {tmp : Text}

/-- What one turn of the loop can do. -/
inductive MapTurn (papi : EventLibrary) (skip testOnly : Bool) (state : TestState) (tmp : Text) :
    Except TestEnd TestState → Prop
  | unknown (hmap : ¬ papi.Mappable tmp) (hskip : skip = false) :
      MapTurn papi skip testOnly state tmp (.error (.stop .error))
  | noted {noted : TestState} (hmap : ¬ papi.Mappable tmp) (hskip : skip = true)
      (htest : testOnly = true) (htable : noted.table = state.table)
      (hmissing : noted.couldNotAddSomeEvents = true) :
      MapTurn papi skip testOnly state tmp (.ok noted)
  | returned {noted : TestState} (hmap : ¬ papi.Mappable tmp) (hskip : skip = true)
      (htest : testOnly = false) :
      MapTurn papi skip testOnly state tmp
        (.error (.returned (papi.eventNameToCode tmp).1 noted))
  | mapped {table : EventTable} (hmap : papi.Mappable tmp)
      (hroom : state.table.i + 1 < maxCounters) (hindex : table.i = state.table.i + 1)
      (hcodes : table.codes = state.table.codes ++ [papi.code tmp])
      (hnames : table.names = state.table.names ++ [some tmp])
      (hbehind : ∀ k, table.i ≤ k → table.eventnames k = state.table.eventnames k) :
      MapTurn papi skip testOnly state tmp (.ok { state with table })
  | full (hmap : papi.Mappable tmp) (hfull : maxCounters ≤ state.table.i + 1) :
      MapTurn papi skip testOnly state tmp (.error (.stop .error))

/-- **One turn of the loop**, with room left in the tables. -/
theorem mapTurn_mapEvent (papi : EventLibrary) (skip testOnly : Bool) (tmp : Text)
    (hroom : state.table.i < maxCounters) :
    MapTurn papi skip testOnly state tmp (mapEvent papi skip testOnly state tmp) := by
  unfold mapEvent
  dsimp only
  split
  · rename_i hmap
    split
    · rename_i hskip
      exact .unknown hmap hskip
    · rename_i hskip
      replace hskip : skip = true := by simpa using hskip
      cases testOnly with
      | true => exact .noted hmap hskip rfl rfl rfl
      | false => exact .returned hmap hskip rfl
  · rename_i hmap
    replace hmap : papi.Mappable tmp := not_not.mp hmap
    obtain ⟨table, hput, hcodes, hnames, -⟩ :=
      EventTable.put_eq_ok tmp (papi.eventNameToCode tmp).2 hroom
    have hindex : table.i = state.table.i + 1 := by
      rw [← table.length_codes, hcodes, List.length_append, state.table.length_codes]
      rfl
    rw [hput]
    dsimp only
    split
    · rename_i hlast
      exact .full hmap (by omega)
    · rename_i hlast
      exact .mapped hmap (by omega) hindex hcodes hnames
        fun k hk => EventTable.eventnames_of_put hput hk

/-- **What the loop knows** after these names. -/
structure Mapped (papi : EventLibrary) (skip testOnly : Bool) (state : TestState)
    (names : List Text) : Prop where
  index : state.table.i = (papi.mapped names).length
  room : state.table.i < maxCounters
  codes : state.table.codes = (papi.mapped names).map papi.code
  tableNames : state.table.names = (papi.mapped names).map some
  behind : ∀ k, state.table.i ≤ k → state.table.eventnames k = none
  missing : state.couldNotAddSomeEvents = true ↔ ∃ name ∈ names, ¬ papi.Mappable name
  skipped : (∃ name ∈ names, ¬ papi.Mappable name) → skip = true ∧ testOnly = true

theorem mapped_nil (papi : EventLibrary) (skip testOnly : Bool) :
    Mapped papi skip testOnly {} [] where
  index := rfl
  room := by decide
  codes := rfl
  tableNames := rfl
  behind _ _ := rfl
  missing := by simp
  skipped := by simp

variable {names : List Text} {next final : TestState}

/-- One name: the table has the events that map so far, and the flag whether one did not. -/
theorem Mapped.step (h : Mapped papi skip testOnly state names)
    (hstep : mapEvent papi skip testOnly state tmp = .ok next) :
    Mapped papi skip testOnly next (names ++ [tmp]) := by
  have hturn := mapTurn_mapEvent papi skip testOnly tmp h.room
  rw [hstep] at hturn
  cases hturn with
  | noted hmap hskip htest htable hmissing =>
      have hexists : ∃ name ∈ names ++ [tmp], ¬ papi.Mappable name := ⟨tmp, by simp, hmap⟩
      constructor
      · rw [htable, h.index]
        simp [hmap]
      · rw [htable]
        exact h.room
      · rw [htable, h.codes]
        simp [hmap]
      · rw [htable, h.tableNames]
        simp [hmap]
      · rw [htable]
        exact h.behind
      · exact iff_of_true hmissing hexists
      · exact fun _ => ⟨hskip, htest⟩
  | mapped hmap hroom hindex hcodes hnames hbehind =>
      have hsame : (∃ name ∈ names ++ [tmp], ¬ papi.Mappable name) ↔
          ∃ name ∈ names, ¬ papi.Mappable name := by
        simp [hmap]
      constructor
      · rw [hindex, h.index]
        simp [hmap]
      · rw [hindex]
        exact hroom
      · rw [hcodes, h.codes]
        simp [hmap]
      · rw [hnames, h.tableNames]
        simp [hmap]
      · intro k hk
        have hbefore : state.table.i + 1 ≤ k := hindex ▸ hk
        rw [hbehind k hk]
        exact h.behind k (by omega)
      · rw [hsame]
        exact h.missing
      · rw [hsame]
        exact h.skipped

/-- **The loop over the names fills the table with those that map.** -/
theorem mapped_of_run
    (hrun : FallibleRun.run (mapEvent papi skip testOnly) {} names = .ok final) :
    Mapped papi skip testOnly final names := by
  have hfold := FallibleRun.run_simulation (Mapped papi skip testOnly)
    (fun front name => front ++ [name])
    (fun name _ before after front h hafter => h.step hafter) (mapped_nil papi skip testOnly) hrun
  rwa [FallibleRun.foldl_concat, List.nil_append] at hfold

/-- **The loop goes through the list** exactly if the names that map leave an entry free and,
where one does not, the loop notes that and goes on. -/
theorem exists_run_mapEvent_iff :
    (∃ final, FallibleRun.run (mapEvent papi skip testOnly) {} names = .ok final) ↔
      (papi.mapped names).length < maxCounters ∧
        ((∃ name ∈ names, ¬ papi.Mappable name) → skip = true ∧ testOnly = true) := by
  constructor
  · rintro ⟨final, hrun⟩
    have hmapped := mapped_of_run hrun
    exact ⟨hmapped.index ▸ hmapped.room, hmapped.skipped⟩
  · induction names using List.reverseRecOn with
    | nil => exact fun _ => ⟨{}, rfl⟩
    | append_singleton names tmp ih =>
        rintro ⟨hroom, hskipped⟩
        obtain ⟨before, hbefore⟩ := ih ⟨(length_mapped_le papi names [tmp]).trans_lt hroom,
          fun ⟨name, hname, hnot⟩ => hskipped ⟨name, List.mem_append_left _ hname, hnot⟩⟩
        have hmapped := mapped_of_run hbefore
        have hturn := mapTurn_mapEvent papi skip testOnly tmp hmapped.room
        generalize hresult : mapEvent papi skip testOnly before tmp = result at hturn
        have hnext : ∀ {next : TestState}, mapEvent papi skip testOnly before tmp = .ok next →
            ∃ final, FallibleRun.run (mapEvent papi skip testOnly) {} (names ++ [tmp]) =
              .ok final := fun hok =>
          ⟨_, FallibleRun.run_concat_eq_ok_iff.mpr ⟨before, hbefore, hok⟩⟩
        cases hturn with
        | noted => exact hnext hresult
        | mapped => exact hnext hresult
        | unknown hnot hskip =>
            obtain ⟨hskip', -⟩ := hskipped ⟨tmp, by simp, hnot⟩
            rw [hskip] at hskip'
            cases hskip'
        | returned hnot _ htest =>
            obtain ⟨-, htest'⟩ := hskipped ⟨tmp, by simp, hnot⟩
            rw [htest] at htest'
            cases htest'
        | full hmap hfull =>
            rw [hmapped.index] at hfull
            rw [mapped_concat, if_pos hmap, List.length_append, List.length_singleton] at hroom
            exact absurd hroom (not_lt.mpr hfull)

/-- **How the loop ends.**  It never writes past the end of a table; and it returns early
exactly at a name that does not map, before the table is full. -/
theorem run_mapEvent_error {stop : TestEnd}
    (hrun : FallibleRun.run (mapEvent papi skip testOnly) {} names = .error stop) :
    stop = .stop .error ∨ ∃ retval noted, stop = .returned retval noted ∧ retval ≠ papiOk ∧
      skip = true ∧ testOnly = false ∧ ReturnsEarly papi names := by
  obtain ⟨front, name, rest, before, rfl, hfront, hstop⟩ := FallibleRun.run_eq_error_iff.mp hrun
  have hmapped := mapped_of_run hfront
  have hturn := mapTurn_mapEvent papi skip testOnly name hmapped.room
  rw [hstop] at hturn
  cases hturn with
  | unknown => exact .inl rfl
  | full => exact .inl rfl
  | returned hmap hskip htest =>
      -- with `--test` off, all names before it were mapped
      have hall : ∀ known ∈ front, papi.Mappable known := by
        intro known hknown
        by_contra hnot
        rw [(hmapped.skipped ⟨known, hknown, hnot⟩).2] at htest
        cases htest
      have hroom := hmapped.room
      rw [hmapped.index, mapped_eq_self papi hall] at hroom
      exact .inr ⟨_, _, rfl, hmap, hskip, htest, front, name, rest, rfl, hall, hmap, hroom⟩

/-- If the check is made for `make_compatible_eventset` the loop returns at a name that does not
map. -/
theorem run_mapEvent_of_returnsEarly (h : ReturnsEarly papi names) :
    ∃ retval noted, FallibleRun.run (mapEvent papi true false) {} names =
      .error (.returned retval noted) ∧ retval ≠ papiOk := by
  obtain ⟨front, name, rest, rfl, hall, hmap, hshort⟩ := h
  obtain ⟨before, hfront⟩ : ∃ before, FallibleRun.run (mapEvent papi true false) {} front =
      .ok before :=
    exists_run_mapEvent_iff.mpr ⟨by rwa [mapped_eq_self papi hall],
      fun ⟨known, hknown, hnot⟩ => absurd (hall known hknown) hnot⟩
  have hturn := mapTurn_mapEvent papi true false name (mapped_of_run hfront).room
  generalize hresult : mapEvent papi true false before name = result at hturn
  cases hturn with
  | returned =>
      exact ⟨_, _, FallibleRun.run_eq_error_iff.mpr
        ⟨front, name, rest, before, rfl, hfront, hresult⟩, hmap⟩
  | unknown _ hskip => cases hskip
  | noted _ _ htest => cases htest
  | mapped hknown => exact absurd hknown hmap
  | full hknown => exact absurd hknown hmap


/-- An entry of the table has a name exactly if it was filled. -/
theorem Mapped.eventnames_ne_none_iff (h : Mapped papi skip testOnly state names) {k : ℕ} :
    state.table.eventnames k ≠ none ↔ k < (papi.mapped names).length := by
  rw [← h.index]
  constructor
  · intro hname
    by_contra hbehind
    exact hname (h.behind k (not_lt.mp hbehind))
  · intro hk
    have hmem : state.table.eventnames k ∈ state.table.names :=
      List.mem_map_of_mem (List.mem_range.mpr hk)
    rw [h.tableNames] at hmem
    obtain ⟨name, -, hname⟩ := List.mem_map.mp hmem
    rw [← hname]
    exact Option.some_ne_none name

/-! ## What follows the loop -/

/-- What `test_papi_events` can make of the names that were looked up. -/
inductive AddTurn (papi : EventLibrary) (skip multiplex : Bool) (state : TestState) :
    Except TableStop (ℤ × TestState) → Prop
  | noInit (hinit : ¬ (multiplex = true → papi.multiplexInit = papiOk)) :
      AddTurn papi skip multiplex state (.error .error)
  | noSet (hinit : multiplex = true → papi.multiplexInit = papiOk)
      (hcreate : papi.createEventset ≠ papiOk) (hskip : skip = true) :
      AddTurn papi skip multiplex state (.ok (papi.createEventset, state))
  | setError (hsets : ¬ papi.MakesSets multiplex)
      (hstop : papi.createEventset = papiOk ∨ skip = false) :
      AddTurn papi skip multiplex state (.error .error)
  | added (hsetup : papi.SetsUp multiplex)
      (hadd : papi.addEvents multiplex state.table.codes = papiOk) :
      AddTurn papi skip multiplex state
        (.ok (if state.couldNotAddSomeEvents then 1 else 0, state))
  | addError (hsetup : papi.SetsUp multiplex)
      (hadd : papi.addEvents multiplex state.table.codes ≠ papiOk) (hskip : skip = false) :
      AddTurn papi skip multiplex state (.error .error)
  | notAdded {tested : TestState} (hsetup : papi.SetsUp multiplex)
      (hadd : papi.addEvents multiplex state.table.codes ≠ papiOk) (hskip : skip = true)
      (hnamed : papi.addEvents multiplex state.table.codes < papiOk ∨
        state.table.eventnames (papi.addEvents multiplex state.table.codes).toNat ≠ none) :
      AddTurn papi skip multiplex state
        (.ok (papi.addEvents multiplex state.table.codes, tested))
  | noName (hsetup : papi.SetsUp multiplex)
      (hadd : papi.addEvents multiplex state.table.codes ≠ papiOk)
      (hneg : ¬ papi.addEvents multiplex state.table.codes < papiOk)
      (hname : state.table.eventnames (papi.addEvents multiplex state.table.codes).toNat = none) :
      AddTurn papi skip multiplex state (.error .noName)

/-- **What follows the loop**, one case for each way out. -/
theorem addTurn_addMapped (papi : EventLibrary) (skip multiplex : Bool) (state : TestState) :
    AddTurn papi skip multiplex state (addMapped papi skip multiplex state) := by
  unfold addMapped
  dsimp only
  split
  · rename_i hinit
    exact .noInit fun h => hinit.2 (h hinit.1)
  rename_i hinit
  replace hinit : multiplex = true → papi.multiplexInit = papiOk := fun hmultiplex =>
    by_contra fun hne => hinit ⟨hmultiplex, hne⟩
  split
  · rename_i hcreate
    split
    · rename_i hskip
      exact .noSet hinit hcreate hskip
    · rename_i hskip
      exact .setError (fun hsets => hcreate hsets.createEventset) (.inr (by simpa using hskip))
  rename_i hcreate
  replace hcreate : papi.createEventset = papiOk := not_not.mp hcreate
  split
  · rename_i hassign
    exact .setError (fun hsets => hassign.2 (hsets.assignEventsetComponent hassign.1))
      (.inl hcreate)
  rename_i hassign
  split
  · rename_i hset
    exact .setError (fun hsets => hset.2 (hsets.setMultiplex hset.1)) (.inl hcreate)
  rename_i hset
  have hsetup : papi.SetsUp multiplex :=
    { createEventset := hcreate
      assignEventsetComponent := fun hmultiplex => by_contra fun hne => hassign ⟨hmultiplex, hne⟩
      setMultiplex := fun hmultiplex => by_contra fun hne => hset ⟨hmultiplex, hne⟩
      multiplexInit := hinit }
  split
  · rename_i hadd
    exact .added hsetup hadd
  rename_i hadd
  split
  · rename_i hskip
    exact .addError hsetup hadd hskip
  rename_i hskip
  replace hskip : skip = true := by simpa using hskip
  split
  · rename_i hneg
    exact .notAdded hsetup hadd hskip (.inl hneg)
  rename_i hneg
  split
  · rename_i hname
    exact .noName hsetup hadd hneg hname
  · rename_i name hname
    exact .notAdded hsetup hadd hskip (.inr (by rw [hname]; exact Option.some_ne_none name))

variable {requested events : Text} {rc : ℤ} {tested : TestState}

/-- **The events can be added together**, and all of them mapped. -/
theorem addMapped_passes_iff (h : Mapped papi skip testOnly state names) :
    (∃ tested, addMapped papi skip multiplex state = .ok (papiOk, tested)) ↔
      papi.SetsUp multiplex ∧
        papi.addEvents multiplex ((papi.mapped names).map papi.code) = papiOk ∧
          ∀ name ∈ names, papi.Mappable name := by
  have hall : (∀ name ∈ names, papi.Mappable name) ↔ state.couldNotAddSomeEvents = false := by
    rw [← Bool.not_eq_true, h.missing]
    push Not
    rfl
  rw [hall, ← h.codes]
  have hturn := addTurn_addMapped papi skip multiplex state
  generalize addMapped papi skip multiplex state = result at hturn
  cases hturn with
  | noInit hinit => exact iff_of_false (by simp) fun hpass => hinit hpass.1.multiplexInit
  | noSet _ hcreate =>
      refine iff_of_false ?_ fun hpass => hcreate hpass.1.createEventset
      rintro ⟨tested, hok⟩
      exact hcreate (Prod.mk.inj (Except.ok.inj hok)).1
  | setError hsets => exact iff_of_false (by simp) fun hpass => hsets hpass.1.toMakesSets
  | added hsetup hadd =>
      cases state.couldNotAddSomeEvents with
      | false => exact iff_of_true ⟨state, rfl⟩ ⟨hsetup, hadd, rfl⟩
      | true => exact iff_of_false (by simp [papiOk]) (by simp)
  | addError _ hadd => exact iff_of_false (by simp) fun hpass => hadd hpass.2.1
  | notAdded _ hadd =>
      refine iff_of_false ?_ fun hpass => hadd hpass.2.1
      rintro ⟨tested, hok⟩
      exact hadd (Prod.mk.inj (Except.ok.inj hok)).1
  | noName _ hadd => exact iff_of_false (by simp) fun hpass => hadd hpass.2.1

/-- What makes the check fail, so that the driver goes on without an error. -/
theorem addMapped_fails_iff (h : Mapped papi skip testOnly state names) :
    (∃ rc tested, rc ≠ papiOk ∧ addMapped papi skip multiplex state = .ok (rc, tested)) ↔
      skip = true ∧ (multiplex = true → papi.multiplexInit = papiOk) ∧
        (papi.createEventset ≠ papiOk ∨ papi.MakesSets multiplex ∧
          let added := papi.addEvents multiplex ((papi.mapped names).map papi.code)
          added = papiOk ∧ (∃ name ∈ names, ¬ papi.Mappable name) ∨
            added ≠ papiOk ∧ (added < papiOk ∨ added.toNat < (papi.mapped names).length)) := by
  dsimp only
  rw [← h.missing, ← h.eventnames_ne_none_iff, ← h.codes]
  have hturn := addTurn_addMapped papi skip multiplex state
  generalize addMapped papi skip multiplex state = result at hturn
  -- an error is no answer
  have herror : ∀ (stop : TableStop) {p : Prop}, ¬ p →
      ((∃ rc tested, rc ≠ papiOk ∧
        (Except.error stop : Except TableStop (ℤ × TestState)) = .ok (rc, tested)) ↔ p) :=
    fun stop p hp => iff_of_false (by simp) hp
  cases hturn with
  | noInit hinit => exact herror _ fun hfail => hinit hfail.2.1
  | noSet hinit hcreate hskip =>
      exact iff_of_true ⟨_, _, hcreate, rfl⟩ ⟨hskip, hinit, .inl hcreate⟩
  | setError hsets hstop =>
      refine herror _ ?_
      rintro ⟨hskip, -, hcreate | ⟨hmakes, -⟩⟩
      · rcases hstop with hmade | hnot
        · exact hcreate hmade
        · rw [hskip] at hnot
          cases hnot
      · exact hsets hmakes
  | added hsetup hadd =>
      have hmade : ¬ papi.createEventset ≠ papiOk := not_not.mpr hsetup.createEventset
      cases hmissing : state.couldNotAddSomeEvents with
      | false =>
          refine iff_of_false ?_ ?_
          · rintro ⟨rc, tested, hrc, hok⟩
            exact hrc (Prod.mk.inj (Except.ok.inj hok)).1.symm
          · rintro ⟨-, -, hcreate | ⟨-, ⟨-, htrue⟩ | ⟨hnot, -⟩⟩⟩
            · exact hmade hcreate
            · cases htrue
            · exact hnot hadd
      | true =>
          obtain ⟨hskip, -⟩ := h.skipped (h.missing.mp hmissing)
          exact iff_of_true ⟨1, state, by decide, rfl⟩
            ⟨hskip, hsetup.multiplexInit, .inr ⟨hsetup.toMakesSets, .inl ⟨hadd, rfl⟩⟩⟩
  | addError hsetup hadd hskip =>
      refine herror _ fun hfail => ?_
      rw [hskip] at hfail
      cases hfail.1
  | notAdded hsetup hadd hskip hnamed =>
      exact iff_of_true ⟨_, _, hadd, rfl⟩
        ⟨hskip, hsetup.multiplexInit, .inr ⟨hsetup.toMakesSets, .inr ⟨hadd, hnamed⟩⟩⟩
  | noName hsetup hadd hneg hname =>
      refine herror _ ?_
      rintro ⟨-, -, hcreate | ⟨-, ⟨hok, -⟩ | ⟨-, hlt | hsome⟩⟩⟩
      · exact hcreate hsetup.createEventset
      · exact hadd hok
      · exact hneg hlt
      · exact hsome hname

theorem addMapped_ne_overrun : addMapped papi skip multiplex state ≠ .error .overrun := by
  have hturn := addTurn_addMapped papi skip multiplex state
  generalize addMapped papi skip multiplex state = result at hturn
  cases hturn <;> simp

/-! ## `test_papi_events` -/

/-- `test_papi_events` maps the names and then adds the events. -/
theorem testEvents_eq (hnames : Strtok.tokens isLaterDelim requested ≠ []) :
    testEvents papi skip testOnly multiplex requested =
      match FallibleRun.run (mapEvent papi skip testOnly) {}
          (Strtok.tokens isLaterDelim requested) with
      | .error (.stop stop) => .error stop
      | .error (.returned retval state) => .ok (retval, state)
      | .ok state => addMapped papi skip multiplex state := by
  have hrequested : requested ≠ [] := by
    rintro rfl
    exact hnames Strtok.tokens_nil
  obtain ⟨tmp, rest, hcons⟩ := List.exists_cons_of_ne_nil hnames
  rw [testEvents, if_neg hrequested, hcons]

theorem testEvents_of_no_name (hempty : requested ≠ [])
    (hnames : Strtok.tokens isLaterDelim requested = []) :
    testEvents papi skip testOnly multiplex requested = .error .noName := by
  rw [testEvents, if_neg hempty, hnames]

/-- **The check never writes past the end of a table.** -/
theorem testEvents_ne_overrun : testEvents papi skip testOnly multiplex requested ≠
    .error .overrun := by
  by_cases hnames : Strtok.tokens isLaterDelim requested = []
  · unfold testEvents
    rw [hnames]
    split <;> intro h <;> cases h
  · rw [testEvents_eq hnames]
    cases hrun : FallibleRun.run (mapEvent papi skip testOnly) {}
        (Strtok.tokens isLaterDelim requested) with
    | ok state => exact addMapped_ne_overrun
    | error stop =>
        rcases run_mapEvent_error hrun with rfl | ⟨retval, noted, rfl, -⟩
        · intro h
          cases h
        · intro h
          cases h

/-- **When the check finds nothing wrong.** -/
theorem testEvents_passes_iff (hrequested : requested ≠ []) :
    (∃ tested, testEvents papi skip testOnly multiplex requested = .ok (papiOk, tested)) ↔
      CheckPasses papi multiplex (Strtok.tokens isLaterDelim requested) := by
  by_cases hnames : Strtok.tokens isLaterDelim requested = []
  · rw [testEvents_of_no_name hrequested hnames]
    exact iff_of_false (by simp) fun hpass => hpass.ne_nil hnames
  rw [testEvents_eq hnames]
  cases hrun : FallibleRun.run (mapEvent papi skip testOnly) {}
      (Strtok.tokens isLaterDelim requested) with
  | ok state =>
      dsimp only
      have hroom := (exists_run_mapEvent_iff.mp ⟨state, hrun⟩).1
      rw [addMapped_passes_iff (mapped_of_run hrun)]
      constructor
      · rintro ⟨hsetup, hadd, hall⟩
        rw [mapped_eq_self papi hall] at hadd hroom
        exact ⟨hnames, hall, hroom, hsetup, hadd⟩
      · intro hpass
        rw [mapped_eq_self papi hpass.mappable]
        exact ⟨hpass.setsUp, hpass.addable, hpass.mappable⟩
  | error stop =>
      -- names that map and leave an entry free are all read
      have hnot : ¬ CheckPasses papi multiplex (Strtok.tokens isLaterDelim requested) := by
        intro hpass
        have hread : ∃ final, FallibleRun.run (mapEvent papi skip testOnly) {}
            (Strtok.tokens isLaterDelim requested) = .ok final :=
          exists_run_mapEvent_iff.mpr
            ⟨by rw [mapped_eq_self papi hpass.mappable]; exact hpass.room,
              fun ⟨name, hname, hunknown⟩ => absurd (hpass.mappable name hname) hunknown⟩
        rw [hrun] at hread
        simp at hread
      refine iff_of_false ?_ hnot
      rcases run_mapEvent_error hrun with rfl | ⟨retval, noted, rfl, hne, -⟩
      · simp
      · rintro ⟨tested, hok⟩
        exact hne (Prod.mk.inj (Except.ok.inj hok)).1

/-- **When the check finds something wrong** and does not give up. -/
theorem testEvents_fails_iff (hrequested : requested ≠ []) :
    (∃ rc tested, rc ≠ papiOk ∧
        testEvents papi skip testOnly multiplex requested = .ok (rc, tested)) ↔
      skip = true ∧ FallsBack papi testOnly multiplex (Strtok.tokens isLaterDelim requested) := by
  by_cases hnames : Strtok.tokens isLaterDelim requested = []
  · rw [testEvents_of_no_name hrequested hnames]
    refine iff_of_false (by simp) ?_
    rintro ⟨-, ⟨-, front, name, rest, hsplit, -⟩ | hfails⟩
    · rw [hnames] at hsplit
      simp at hsplit
    · exact hfails.ne_nil hnames
  rw [testEvents_eq hnames]
  cases hrun : FallibleRun.run (mapEvent papi skip testOnly) {}
      (Strtok.tokens isLaterDelim requested) with
  | ok state =>
      dsimp only
      obtain ⟨hroom, hskipped⟩ := exists_run_mapEvent_iff.mp ⟨state, hrun⟩
      rw [addMapped_fails_iff (mapped_of_run hrun)]
      constructor
      · rintro ⟨hskip, hinit, hwrong⟩
        refine ⟨hskip, .inr ⟨hnames, ?_, hroom, hinit, hwrong⟩⟩
        by_contra hread
        obtain ⟨htest, hall⟩ := not_or.mp hread
        push Not at hall
        exact htest (hskipped hall).2
      · rintro ⟨hskip, ⟨htest, front, name, rest, hsplit, -, hunknown, -⟩ | hfails⟩
        · have htest' := (hskipped ⟨name, by simp [hsplit], hunknown⟩).2
          rw [htest] at htest'
          cases htest'
        · exact ⟨hskip, hfails.multiplexInit, hfails.wrong⟩
  | error stop =>
      rcases run_mapEvent_error hrun with rfl | ⟨retval, noted, rfl, hne, hskip, htest, hearly⟩
      · refine iff_of_false (by simp) ?_
        rintro ⟨hskip, ⟨htest, hearly⟩ | hfails⟩
        · obtain ⟨retval, noted, hreturned, -⟩ := run_mapEvent_of_returnsEarly hearly
          rw [hskip, htest, hreturned] at hrun
          cases hrun
        · have hread : ∃ final, FallibleRun.run (mapEvent papi skip testOnly) {}
              (Strtok.tokens isLaterDelim requested) = .ok final :=
            exists_run_mapEvent_iff.mpr ⟨hfails.room, fun ⟨name, hname, hunknown⟩ =>
              ⟨hskip, hfails.read.resolve_right fun hall => hunknown (hall name hname)⟩⟩
          rw [hrun] at hread
          simp at hread
      · exact iff_of_true ⟨retval, noted, hne, rfl⟩ ⟨hskip, .inl ⟨htest, hearly⟩⟩

/-! ## `make_compatible_eventset` -/

/-- What is accepted can be mapped and queried. -/
theorem mappable_of_mem_accepted {name : Text}
    (h : name ∈ Greedy.labelled .accepted (papi.fates multiplex names)) :
    papi.Mappable name ∧ papi.Queryable name := by
  induction names using List.reverseRecOn with
  | nil => cases h
  | append_singleton names tmp ih =>
      rw [EventLibrary.fates] at ih h
      rw [Greedy.run_concat, labelled_next, List.mem_append] at h
      rcases h with hfront | hlast
      · exact ih hfront
      · split_ifs at hlast with hfate
        · rw [List.mem_singleton.mp hlast]
          rw [EventLibrary.fate] at hfate
          split_ifs at hfate with hmap hadd
          exact ⟨hmap, hadd.1⟩
        · cases hlast

/-- What is accepted is among the names that map. -/
theorem length_accepted_le_mapped (papi : EventLibrary) (multiplex : Bool) (names : List Text) :
    (Greedy.labelled .accepted (papi.fates multiplex names)).length ≤
      (papi.mapped names).length := by
  induction names using List.reverseRecOn with
  | nil => rfl
  | append_singleton names name ih =>
      rw [EventLibrary.fates] at ih ⊢
      rw [Greedy.run_concat, labelled_next, mapped_concat, List.length_append, List.length_append]
      refine Nat.add_le_add ih ?_
      by_cases hmap : papi.Mappable name
      · rw [if_pos hmap]
        split <;> simp
      · rw [EventLibrary.fate, if_neg hmap]
        simp

/-- If fewer events map than the tables hold, there is room. -/
theorem roomToTry_of_mapped (h : (papi.mapped names).length < maxCounters) :
    RoomToTry papi multiplex names := by
  rintro front name rest rfl - -
  exact (length_accepted_le_mapped papi multiplex front).trans_lt
    ((length_mapped_le papi front _).trans_lt h)

/-- Where an event set can be made for each event that is tried, the greedy choice is left if
there is room to try all; and if there is not, a table is overrun. -/
theorem makeCompatible_of_setsUp (hsetup : papi.SetsUp multiplex) (missing : Bool)
    (hnames : Strtok.tokens isLaterDelim requested ≠ []) :
    (RoomToTry papi multiplex (Strtok.tokens isLaterDelim requested) →
      ∃ state, makeCompatible papi multiplex missing requested =
        .ok (chosenEvents papi multiplex (Strtok.tokens isLaterDelim requested), state)) ∧
    (¬ RoomToTry papi multiplex (Strtok.tokens isLaterDelim requested) →
      makeCompatible papi multiplex missing requested = .error .overrun) := by
  obtain ⟨hruns, hrepresents⟩ := run_checkCompatible hsetup missing
    (Strtok.tokens isLaterDelim requested)
  rw [makeCompatible_eq hsetup.multiplexInit missing hnames]
  constructor
  · intro hroom
    obtain ⟨state, hrun⟩ := hruns.mpr hroom
    refine ⟨state, ?_⟩
    rw [hrun, Except.map, (hrepresents state hrun).compEvents]
    rfl
  · intro hnot
    cases hrun : FallibleRun.run (checkCompatible papi multiplex)
        { couldNotAddSomeEvents := missing } (Strtok.tokens isLaterDelim requested) with
    | ok state => exact absurd (hruns.mp ⟨state, hrun⟩) hnot
    | error stop =>
        rw [eq_overrun_of_run_checkCompatible hsetup hrun]
        rfl

/-- Where no event sets can be made, the loop stops at the first event that it tries, and
keeps none. -/
theorem run_checkCompatible_of_not_makesSets (hsets : ¬ papi.MakesSets multiplex)
    (missing : Bool) (names : List Text) :
    (∃ state, FallibleRun.run (checkCompatible papi multiplex)
        { couldNotAddSomeEvents := missing } names = .ok state ∧ state.table.i = 0 ∧
          state.compEvents = [] ∧ ∀ name ∈ names, ¬ (papi.Mappable name ∧ papi.Queryable name)) ∨
      FallibleRun.run (checkCompatible papi multiplex) { couldNotAddSomeEvents := missing } names =
          .error .error ∧
        ∃ name ∈ names, papi.Mappable name ∧ papi.Queryable name := by
  induction names using List.reverseRecOn with
  | nil => exact .inl ⟨_, rfl, rfl, rfl, by simp⟩
  | append_singleton names tmp ih =>
      rcases ih with ⟨state, hrun, hindex, hcomp, hnone⟩ | ⟨hrun, name, hname, hboth⟩
      · have hturn := turn_checkCompatible papi multiplex state tmp
        generalize hresult : checkCompatible papi multiplex state tmp = result at hturn
        have hnone' : ¬ (papi.Mappable tmp ∧ papi.Queryable tmp) →
            ∀ name ∈ names ++ [tmp], ¬ (papi.Mappable name ∧ papi.Queryable name) := by
          intro htmp name hname
          rcases List.mem_append.mp hname with hfront | hlast
          · exact hnone name hfront
          · rwa [List.mem_singleton.mp hlast]
        cases hturn with
        | unavailable hmap =>
            exact .inl ⟨_, FallibleRun.run_concat_eq_ok_iff.mpr ⟨state, hrun, hresult⟩, hindex,
              hcomp, hnone' fun hboth => hmap hboth.1⟩
        | incompatible _ hquery =>
            exact .inl ⟨_, FallibleRun.run_concat_eq_ok_iff.mpr ⟨state, hrun, hresult⟩, hindex,
              hcomp, hnone' fun hboth => hquery hboth.2⟩
        | noSet hmap hquery =>
            exact .inr ⟨FallibleRun.run_eq_error_iff.mpr
              ⟨names, tmp, [], state, rfl, hrun, hresult⟩, tmp, by simp, hmap, hquery⟩
        | overrun _ _ hfull => exact absurd hfull (by rw [hindex]; decide)
        | accepted _ _ _ hmakes => exact absurd hmakes hsets
        | takenBack _ _ _ hmakes => exact absurd hmakes hsets
      · obtain ⟨front, stopped, rest, before, hsplit, hfront, hstop⟩ :=
          FallibleRun.run_eq_error_iff.mp hrun
        refine .inr ⟨FallibleRun.run_eq_error_iff.mpr
          ⟨front, stopped, rest ++ [tmp], before, ?_, hfront, hstop⟩, name,
            List.mem_append_left _ hname, hboth⟩
        rw [hsplit, List.append_assoc, List.cons_append]

/-- If no name maps to an event that can be queried, none is chosen. -/
theorem chosenEvents_eq_nil
    (h : ∀ name ∈ names, ¬ (papi.Mappable name ∧ papi.Queryable name)) :
    chosenEvents papi multiplex names = [] := by
  have hnone : Greedy.labelled .accepted (papi.fates multiplex names) = [] := by
    rw [List.eq_nil_iff_forall_not_mem]
    intro name haccepted
    have hmem : name ∈ names := by
      have hfst : (papi.fates multiplex names).map Prod.fst = names := Greedy.map_fst_run _
      obtain ⟨item, hitem, rfl⟩ := List.mem_map.mp haccepted
      rw [← hfst]
      exact List.mem_map_of_mem (List.mem_filter.mp hitem).1
    exact h name hmem (mappable_of_mem_accepted haccepted)
  rw [chosenEvents, hnone]
  rfl

theorem makeCompatible_of_not_init (missing : Bool)
    (hinit : ¬ (multiplex = true → papi.multiplexInit = papiOk)) :
    makeCompatible papi multiplex missing requested = .error .error := by
  rw [makeCompatible, if_pos (Classical.not_imp.mp hinit)]

/-- **What `make_compatible_eventset` leaves** is the greedy choice, if event sets can be made
where one is tried and there is room for every event that is tried. -/
theorem makeCompatible_eq_ok_iff (missing : Bool)
    (hnames : Strtok.tokens isLaterDelim requested ≠ []) :
    (∃ state, makeCompatible papi multiplex missing requested = .ok (events, state)) ↔
      SetsToTry papi multiplex (Strtok.tokens isLaterDelim requested) ∧
        RoomToTry papi multiplex (Strtok.tokens isLaterDelim requested) ∧
          events = chosenEvents papi multiplex (Strtok.tokens isLaterDelim requested) := by
  by_cases hinit : multiplex = true → papi.multiplexInit = papiOk
  · by_cases hsets : papi.MakesSets multiplex
    · obtain ⟨hroomy, hfull⟩ := makeCompatible_of_setsUp ⟨hsets, hinit⟩ missing hnames
      by_cases hroom : RoomToTry papi multiplex (Strtok.tokens isLaterDelim requested)
      · obtain ⟨state, hmake⟩ := hroomy hroom
        rw [hmake]
        constructor
        · rintro ⟨state', hok⟩
          exact ⟨⟨hinit, fun _ => hsets⟩, hroom, (Prod.mk.inj (Except.ok.inj hok)).1.symm⟩
        · rintro ⟨-, -, rfl⟩
          exact ⟨state, rfl⟩
      · rw [hfull hroom]
        exact iff_of_false (by simp) fun h => hroom h.2.1
    · rw [makeCompatible_eq hinit missing hnames]
      rcases run_checkCompatible_of_not_makesSets hsets missing
        (Strtok.tokens isLaterDelim requested) with ⟨state, hrun, -, hcomp, hnone⟩ | ⟨hrun, hsome⟩
      · rw [hrun, Except.map, hcomp, chosenEvents_eq_nil hnone]
        constructor
        · rintro ⟨state', hok⟩
          refine ⟨⟨hinit, fun ⟨name, hname, hboth⟩ => absurd hboth (hnone name hname)⟩, ?_,
            (Prod.mk.inj (Except.ok.inj hok)).1.symm⟩
          intro front name rest hsplit hmap hquery
          exact absurd ⟨hmap, hquery⟩ (hnone name (by simp [hsplit]))
        · rintro ⟨-, -, rfl⟩
          exact ⟨state, rfl⟩
      · rw [hrun]
        refine iff_of_false ?_ fun h => hsets (h.1.makesSets hsome)
        rintro ⟨state, hok⟩
        cases hok
  · rw [makeCompatible_of_not_init missing hinit]
    exact iff_of_false (by simp) fun h => hinit h.1.multiplexInit

/-- **When `make_compatible_eventset` overruns its table.** -/
theorem makeCompatible_eq_overrun_iff (missing : Bool)
    (hnames : Strtok.tokens isLaterDelim requested ≠ []) :
    makeCompatible papi multiplex missing requested = .error .overrun ↔
      papi.SetsUp multiplex ∧
        ¬ RoomToTry papi multiplex (Strtok.tokens isLaterDelim requested) := by
  by_cases hinit : multiplex = true → papi.multiplexInit = papiOk
  · by_cases hsets : papi.MakesSets multiplex
    · obtain ⟨hroomy, hfull⟩ := makeCompatible_of_setsUp ⟨hsets, hinit⟩ missing hnames
      by_cases hroom : RoomToTry papi multiplex (Strtok.tokens isLaterDelim requested)
      · obtain ⟨state, hmake⟩ := hroomy hroom
        rw [hmake]
        exact iff_of_false (by simp) fun h => h.2 hroom
      · exact iff_of_true (hfull hroom) ⟨⟨hsets, hinit⟩, hroom⟩
    · rw [makeCompatible_eq hinit missing hnames]
      refine iff_of_false ?_ fun h => hsets h.1.toMakesSets
      rcases run_checkCompatible_of_not_makesSets hsets missing
        (Strtok.tokens isLaterDelim requested) with ⟨state, hrun, -⟩ | ⟨hrun, -⟩
      · rw [hrun]
        intro hover
        cases hover
      · rw [hrun]
        intro hover
        cases hover
  · rw [makeCompatible_of_not_init missing hinit]
    exact iff_of_false (by simp) fun h => hinit h.1.multiplexInit

/-! ## The driver -/

variable {driver : DriverState}

/-- Without a check the list stays as it was asked for. -/
theorem settleEvents_of_not_checks (h : ¬ driver.Checks) :
    driver.settleEvents papi = .ok driver.requestedEvents := by
  have hskip : driver.requestedEvents = [] ∨ driver.long .noCompatCheck = true := by
    by_contra hnot
    obtain ⟨hrequested, hcheck⟩ := not_or.mp hnot
    exact h ⟨hrequested, Bool.eq_false_iff.mpr hcheck⟩
  rw [DriverState.settleEvents, if_pos hskip]

/-- With the check, a list that fails it goes through `make_compatible_eventset`. -/
theorem settleEvents_of_checks (h : driver.Checks) : driver.settleEvents papi =
      match testEvents papi driver.skips (driver.long .test) driver.multiplex
          driver.requestedEvents with
      | .error stop => .error stop
      | .ok (rc, tested) =>
          if driver.skips = true ∧ rc ≠ papiOk then
            (makeCompatible papi driver.multiplex tested.couldNotAddSomeEvents
              driver.requestedEvents).map Prod.fst
          else .ok driver.requestedEvents := by
  obtain ⟨hempty, hcheck⟩ := h
  rw [DriverState.settleEvents, if_neg (by simp [hempty, hcheck])]

/-- Only a list with a name can fail the check. -/
theorem FallsBack.ne_nil (h : FallsBack papi testOnly multiplex names) : names ≠ [] := by
  rcases h with ⟨-, front, name, rest, hsplit, -⟩ | hfails
  · simp [hsplit]
  · exact hfails.ne_nil

/-- **With the check**, the driver passes the events on, or leaves it to
`make_compatible_eventset`, or gives up with an error. -/
theorem settleEvents_cases (papi : EventLibrary) (h : driver.Checks) :
    let passes := CheckPasses papi driver.multiplex driver.requestedNames
    let falls := driver.skips = true ∧
      FallsBack papi (driver.long .test) driver.multiplex driver.requestedNames
    (passes ∧ ¬ falls ∧ driver.settleEvents papi = .ok driver.requestedEvents) ∨
      (¬ passes ∧ falls ∧ ∃ missing, driver.settleEvents papi =
        (makeCompatible papi driver.multiplex missing driver.requestedEvents).map Prod.fst) ∨
      (¬ passes ∧ ¬ falls ∧ ∃ stop, driver.settleEvents papi = .error stop ∧ stop ≠ .overrun) := by
  dsimp only
  rw [settleEvents_of_checks h]
  unfold DriverState.requestedNames
  have hpasses : (∃ tested, testEvents papi driver.skips (driver.long .test) driver.multiplex
      driver.requestedEvents = .ok (papiOk, tested)) ↔ _ := testEvents_passes_iff h.1
  rw [← hpasses, ← testEvents_fails_iff h.1]
  cases htest : testEvents papi driver.skips (driver.long .test) driver.multiplex
      driver.requestedEvents with
  | error stop =>
      refine .inr (.inr ⟨by simp, by simp, stop, rfl, ?_⟩)
      rintro rfl
      exact testEvents_ne_overrun htest
  | ok result =>
      obtain ⟨rc, tested⟩ := result
      dsimp only
      by_cases hrc : rc = papiOk
      · subst hrc
        refine .inl ⟨⟨tested, rfl⟩, ?_, if_neg fun hfail => hfail.2 rfl⟩
        rintro ⟨rc, tested', hne, hok⟩
        exact hne (Prod.mk.inj (Except.ok.inj hok)).1.symm
      · have hfalls : driver.skips = true :=
          ((testEvents_fails_iff h.1).mp ⟨rc, tested, hrc, htest⟩).1
        refine .inr (.inl ⟨?_, ⟨rc, tested, hrc, rfl⟩, tested.couldNotAddSomeEvents,
          if_pos ⟨hfalls, hrc⟩⟩)
        rintro ⟨tested', hok⟩
        exact hrc (Prod.mk.inj (Except.ok.inj hok)).1

/-- **What the driver hands on**, for every answer of PAPI. -/
theorem settleEvents_eq_ok_iff :
    driver.settleEvents papi = .ok events ↔ HandsOn papi driver events := by
  by_cases hchecks : driver.Checks
  · rcases settleEvents_cases papi hchecks with
      ⟨hpasses, hnot, hsettle⟩ | ⟨hnot, ⟨hskip, hfalls⟩, missing, hsettle⟩ |
        ⟨hnot, hnot', stop, hsettle, -⟩
    · rw [hsettle]
      constructor
      · intro hok
        cases hok
        exact .passed hchecks hpasses
      · intro hands
        cases hands with
        | unchecked h => exact absurd hchecks h
        | passed => rfl
        | chosen _ hskip hfalls => exact absurd ⟨hskip, hfalls⟩ hnot
    · have hmake : driver.settleEvents papi = .ok events ↔
          ∃ state, makeCompatible papi driver.multiplex missing driver.requestedEvents =
            .ok (events, state) := by
        rw [hsettle]
        cases makeCompatible papi driver.multiplex missing driver.requestedEvents with
        | error stop => simp [Except.map]
        | ok result =>
            obtain ⟨made, state⟩ := result
            simp [Except.map]
      rw [hmake, makeCompatible_eq_ok_iff missing hfalls.ne_nil]
      constructor
      · rintro ⟨htry, hroom, rfl⟩
        exact .chosen hchecks hskip hfalls htry hroom
      · intro hands
        cases hands with
        | unchecked h => exact absurd hchecks h
        | passed _ hpasses => exact absurd hpasses hnot
        | chosen _ _ _ htry hroom => exact ⟨htry, hroom, rfl⟩
    · rw [hsettle]
      refine iff_of_false (by simp) fun hands => ?_
      cases hands with
      | unchecked h => exact h hchecks
      | passed _ hpasses => exact hnot hpasses
      | chosen _ hskip hfalls => exact hnot' ⟨hskip, hfalls⟩
  · rw [settleEvents_of_not_checks hchecks]
    constructor
    · intro hok
      cases hok
      exact .unchecked hchecks
    · intro hands
      cases hands with
      | unchecked => rfl
      | passed h => exact absurd h hchecks
      | chosen h => exact absurd h hchecks

/-- **When a table of the driver is overrun**: only by `make_compatible_eventset`, after an
early return of the check. -/
theorem settleEvents_eq_overrun_iff :
    driver.settleEvents papi = .error .overrun ↔
      driver.long .noCompatCheck = false ∧ driver.skips = true ∧ driver.long .test = false ∧
        papi.SetsUp driver.multiplex ∧ ReturnsEarly papi driver.requestedNames ∧
          ¬ RoomToTry papi driver.multiplex driver.requestedNames := by
  by_cases hchecks : driver.Checks
  · rcases settleEvents_cases papi hchecks with
      ⟨hpasses, hnot, hsettle⟩ | ⟨-, ⟨hskip, hfalls⟩, missing, hsettle⟩ |
        ⟨-, hnot, stop, hsettle, hstop⟩
    · rw [hsettle]
      refine iff_of_false (by simp) ?_
      rintro ⟨-, hskip, htest, -, hearly, -⟩
      exact hnot ⟨hskip, .inl ⟨htest, hearly⟩⟩
    · have hmake : driver.settleEvents papi = .error .overrun ↔
          makeCompatible papi driver.multiplex missing driver.requestedEvents =
            .error .overrun := by
        rw [hsettle]
        cases makeCompatible papi driver.multiplex missing driver.requestedEvents <;>
          simp [Except.map]
      rw [hmake, makeCompatible_eq_overrun_iff missing hfalls.ne_nil]
      constructor
      · rintro ⟨hsetup, hfull⟩
        rcases hfalls with ⟨htest, hearly⟩ | hfails
        · exact ⟨hchecks.2, hskip, htest, hsetup, hearly, hfull⟩
        · exact absurd (roomToTry_of_mapped hfails.room) hfull
      · rintro ⟨-, -, -, hsetup, -, hfull⟩
        exact ⟨hsetup, hfull⟩
    · rw [hsettle]
      refine iff_of_false (fun hover => hstop (Except.error.inj hover)) ?_
      rintro ⟨-, hskip, htest, -, hearly, -⟩
      exact hnot ⟨hskip, .inl ⟨htest, hearly⟩⟩
  · rw [settleEvents_of_not_checks hchecks]
    refine iff_of_false (by simp) ?_
    rintro ⟨hcheck, -, -, -, hearly, -⟩
    refine hchecks ⟨fun hempty => ?_, hcheck⟩
    obtain ⟨front, name, rest, hsplit, -⟩ := hearly
    rw [DriverState.requestedNames, hempty, Strtok.tokens_nil] at hsplit
    simp at hsplit

end Papiex
