import Papiex.Lib.Greedy
import Papiex.Options.Encode

/-!
# The tables of the events

`test_papi_events` and `make_compatible_eventset` look up the names one by one and keep
names and codes in two tables of `PAPIEX_MAX_COUNTERS` entries.  An event is tried by
writing it behind the ones that are kept and adding all of them to a new event set; if
that fails, `i--` takes it back.  So the tables hold the names that were accepted, and
the loop is the greedy choice from the list.

What PAPI answers is a parameter, and nothing is assumed about it.  The tables have no
room to try an event when they are full, and `make_compatible_eventset` does not look.

## Main results

* `run_checkCompatible`: the loop keeps the greedy choice in its tables.
* `make_compatible_accounts_iff`: when every event is kept or named in a warning.

## Design notes

A turn of the loop ends in one of six ways (`Turn`), and what the variables hold after a
front of the names is their fates so far (`Represents`).  The fate of a name depends on the
events that were kept before it, so the loop is an instance of labelling a list greedily,
from `Papiex.Lib.Greedy`.
-/

namespace Papiex

open Chars

/-! ## PAPI -/

/-- `PAPI_OK`. -/
def papiOk : ℤ := 0

/-- What the functions of PAPI return.  The event sets are multiplexed or not. -/
structure EventLibrary where
  /-- `PAPI_event_name_to_code`, and the code. -/
  eventNameToCode : Text → ℤ × ℤ
  /-- `PAPI_query_event`. -/
  queryEvent : ℤ → ℤ
  /-- `PAPI_multiplex_init`. -/
  multiplexInit : ℤ
  /-- `PAPI_create_eventset`. -/
  createEventset : ℤ
  /-- `PAPI_assign_eventset_component`. -/
  assignEventsetComponent : ℤ
  /-- `PAPI_set_multiplex`. -/
  setMultiplex : ℤ
  /-- `PAPI_add_events`. -/
  addEvents : (multiplex : Bool) → List ℤ → ℤ

namespace EventLibrary

variable (papi : EventLibrary) (multiplex : Bool)

/-- The code of an event. -/
def code (name : Text) : ℤ := (papi.eventNameToCode name).2

/-- The name maps to a code. -/
def Mappable (name : Text) : Prop := (papi.eventNameToCode name).1 = papiOk

/-- The event can be queried. -/
def Queryable (name : Text) : Prop := papi.queryEvent (papi.code name) = papiOk

/-- The event can be added together with these. -/
def Addable (kept : List Text) (name : Text) : Prop :=
  papi.addEvents multiplex ((kept ++ [name]).map papi.code) = papiOk

/-- Event sets can be made. -/
structure MakesSets : Prop where
  createEventset : papi.createEventset = papiOk
  assignEventsetComponent : multiplex = true → papi.assignEventsetComponent = papiOk
  setMultiplex : multiplex = true → papi.setMultiplex = papiOk

/-- The library works, apart from the events. -/
structure SetsUp : Prop extends MakesSets papi multiplex where
  multiplexInit : multiplex = true → papi.multiplexInit = papiOk

instance : DecidablePred papi.Mappable := fun _ => by
  unfold Mappable
  infer_instance

instance : DecidablePred papi.Queryable := fun _ => by
  unfold Queryable
  infer_instance

instance (kept : List Text) : DecidablePred (papi.Addable multiplex kept) := fun _ => by
  unfold Addable
  infer_instance

end EventLibrary

/-! ## The tables -/

/-- Why the loops over the names end early: by an error of the tool, by a write past the
end of a table, or because there is no name where one is looked for. -/
inductive TableStop where
  | error
  | overrun
  | noName
  deriving DecidableEq

/-- `eventnames` and `eventcodes`, zero at first, and the number of entries that count. -/
structure EventTable where
  eventnames : ℕ → Option Text := fun _ => none
  eventcodes : ℕ → ℤ := fun _ => 0
  i : ℕ := 0

namespace EventTable

/-- An entry is written at `i`, and `i++`. -/
def put (table : EventTable) (name : Text) (code : ℤ) : Except TableStop EventTable :=
  if table.i < maxCounters then
    .ok { eventnames := Function.update table.eventnames table.i (some name)
          eventcodes := Function.update table.eventcodes table.i code
          i := table.i + 1 }
  else .error .overrun

/-- `i--`. -/
def takeBack (table : EventTable) : EventTable := { table with i := table.i - 1 }

/-- The first `i` codes. -/
def codes (table : EventTable) : List ℤ := (List.range table.i).map table.eventcodes

/-- The first `i` names. -/
def names (table : EventTable) : List (Option Text) :=
  (List.range table.i).map table.eventnames

end EventTable

/-! ## `make_compatible_eventset` -/

/-- The variables of `make_compatible_eventset`. -/
structure CompatState where
  table : EventTable := {}
  compEvents : Text := []
  unavailableEvents : Text := []
  incompatibleEvents : Text := []
  couldNotAddSomeEvents : Bool
  retval : ℤ := 0

/-- The body of its loop. -/
def checkCompatible (papi : EventLibrary) (multiplex : Bool) (state : CompatState) (tmp : Text) :
    Except TableStop CompatState :=
  let retval := (papi.eventNameToCode tmp).1
  let eventcode := (papi.eventNameToCode tmp).2
  if retval ≠ papiOk then
    .ok { state with
      unavailableEvents := appendOption state.unavailableEvents tmp
      retval }
  else if papi.queryEvent eventcode ≠ papiOk then
    .ok { state with
      incompatibleEvents := appendOption state.incompatibleEvents tmp
      retval }
  else
    match state.table.put tmp eventcode with
    | .error stop => .error stop
    | .ok table =>
        if papi.createEventset ≠ papiOk then .error .error
        else if multiplex = true ∧ papi.assignEventsetComponent ≠ papiOk then .error .error
        else if multiplex = true ∧ papi.setMultiplex ≠ papiOk then .error .error
        else if papi.addEvents multiplex table.codes ≠ papiOk then
          .ok { state with
            table := table.takeBack
            incompatibleEvents := appendOption state.incompatibleEvents tmp
            couldNotAddSomeEvents := true
            retval := papi.addEvents multiplex table.codes }
        else
          .ok { state with
            table
            compEvents := appendOption state.compEvents tmp
            retval := papi.addEvents multiplex table.codes }

/-- `make_compatible_eventset`: what it leaves in `events`, and its variables. -/
def makeCompatible (papi : EventLibrary) (multiplex couldNotAddSomeEvents : Bool)
    (events : Text) : Except TableStop (Text × CompatState) :=
  if multiplex = true ∧ papi.multiplexInit ≠ papiOk then .error .error
  else if events = [] then .ok (events, { couldNotAddSomeEvents })
  else
    match Strtok.tokens isLaterDelim events with
    | [] => .error .noName
    | tmp :: rest =>
        (FallibleRun.run (checkCompatible papi multiplex) { couldNotAddSomeEvents }
          (tmp :: rest)).map fun state => (state.compEvents, state)

/-! ## The greedy choice -/

/-- What becomes of a name. -/
inductive EventFate where
  | accepted
  | unavailable
  | incompatible
  deriving DecidableEq

instance : Fintype EventFate where
  elems := {.accepted, .unavailable, .incompatible}
  complete fate := by cases fate <;> decide

/-- What becomes of a name when these were accepted before it. -/
def EventLibrary.fate (papi : EventLibrary) (multiplex : Bool) (kept : List Text) (name : Text) :
    EventFate :=
  if papi.Mappable name then
    if papi.Queryable name ∧ papi.Addable multiplex kept name then .accepted else .incompatible
  else .unavailable

/-- What becomes of the names. -/
def EventLibrary.fates (papi : EventLibrary) (multiplex : Bool) (names : List Text) :
    List (Text × EventFate) :=
  Greedy.run .accepted (papi.fate multiplex) names

/-- Names joined by commas. -/
def joined (names : List Text) : Text := names.foldl appendOption []

/-- **Every name is accounted for.**  Each occurrence has one fate; it is accepted if it
is mappable, queryable and addable together with the names accepted before it, and
unavailable if it is not mappable; and the three texts list the names by their fates. -/
structure AccountsFor (papi : EventLibrary) (multiplex : Bool) (requested events : Text)
    (state : CompatState) : Prop where
  fates : ∃ fates : List (Text × EventFate),
    fates.map Prod.fst = Strtok.tokens isLaterDelim requested ∧
    (∀ front name fate rest, fates = front ++ (name, fate) :: rest →
      (fate = .accepted ↔ papi.Mappable name ∧ papi.Queryable name ∧
        papi.Addable multiplex (Greedy.labelled .accepted front) name) ∧
      (fate = .unavailable ↔ ¬ papi.Mappable name)) ∧
    events = joined (Greedy.labelled .accepted fates) ∧
    state.unavailableEvents = joined (Greedy.labelled .unavailable fates) ∧
    state.incompatibleEvents = joined (Greedy.labelled .incompatible fates)
  length_le : events.length + state.unavailableEvents.length + state.incompatibleEvents.length ≤
    requested.length

/-! ## The tables hold what was accepted -/

theorem EventTable.length_codes (table : EventTable) : table.codes.length = table.i := by
  rw [EventTable.codes, List.length_map, List.length_range]

/-- The codes of as many names as the index says. -/
theorem EventTable.index_eq_length {code : Text → ℤ} {table : EventTable} {names : List Text}
    (h : table.codes = names.map code) : table.i = names.length := by
  rw [← table.length_codes, h, List.length_map]

theorem joined_concat (names : List Text) (name : Text) :
    joined (names ++ [name]) = appendOption (joined names) name := by
  simp [joined]

namespace EventTable

variable {table : EventTable}

/-- An entry is put in, and may be taken back. -/
theorem put_eq_ok (name : Text) (code : ℤ) (h : table.i < maxCounters) :
    ∃ next, table.put name code = .ok next ∧ next.codes = table.codes ++ [code] ∧
      next.names = table.names ++ [some name] ∧ next.takeBack.codes = table.codes ∧
      next.takeBack.names = table.names := by
  refine ⟨_, if_pos h, ?_⟩
  -- the entries before `i` are not touched
  have hbefore : ∀ {β : Type} (entries : ℕ → β) (entry : β),
      (List.range table.i).map (Function.update entries table.i entry) =
        (List.range table.i).map entries := by
    intro β entries entry
    refine List.map_congr_left fun k hk => Function.update_of_ne ?_ _ _
    exact (List.mem_range.mp hk).ne
  simp only [codes, names, takeBack, List.range_succ, List.map_append, List.map_singleton,
    Function.update_self, hbefore, Nat.add_sub_cancel, and_self]

/-- The entries behind the new one are not touched. -/
theorem eventnames_of_put {name : Text} {code : ℤ} {next : EventTable}
    (h : table.put name code = .ok next) {k : ℕ} (hk : next.i ≤ k) :
    next.eventnames k = table.eventnames k := by
  unfold put at h
  split_ifs at h
  cases h
  exact Function.update_of_ne (show k ≠ table.i by simp only at hk; omega) _ _

theorem put_eq_error {name : Text} {code : ℤ} (h : maxCounters ≤ table.i) :
    table.put name code = .error .overrun :=
  if_neg (not_lt.mpr h)

end EventTable

variable {papi : EventLibrary} {multiplex : Bool} {state : CompatState}
variable {fates : List (Text × EventFate)} {tmp : Text}

/-- What one turn of the loop can do. -/
inductive Turn (papi : EventLibrary) (multiplex : Bool) (state : CompatState) (tmp : Text) :
    Except TableStop CompatState → Prop
  | unavailable (hmap : ¬ papi.Mappable tmp) :
      Turn papi multiplex state tmp (.ok { state with
        unavailableEvents := appendOption state.unavailableEvents tmp
        retval := (papi.eventNameToCode tmp).1 })
  | incompatible (hmap : papi.Mappable tmp) (hquery : ¬ papi.Queryable tmp) :
      Turn papi multiplex state tmp (.ok { state with
        incompatibleEvents := appendOption state.incompatibleEvents tmp
        retval := (papi.eventNameToCode tmp).1 })
  | overrun (hmap : papi.Mappable tmp) (hquery : papi.Queryable tmp)
      (hfull : maxCounters ≤ state.table.i) : Turn papi multiplex state tmp (.error .overrun)
  | noSet (hmap : papi.Mappable tmp) (hquery : papi.Queryable tmp)
      (hroom : state.table.i < maxCounters) (hsets : ¬ papi.MakesSets multiplex) :
      Turn papi multiplex state tmp (.error .error)
  | accepted {table : EventTable} {retval : ℤ} (hmap : papi.Mappable tmp)
      (hquery : papi.Queryable tmp) (hroom : state.table.i < maxCounters)
      (hsets : papi.MakesSets multiplex)
      (hadd : papi.addEvents multiplex (state.table.codes ++ [papi.code tmp]) = papiOk)
      (hcodes : table.codes = state.table.codes ++ [papi.code tmp])
      (hnames : table.names = state.table.names ++ [some tmp]) :
      Turn papi multiplex state tmp (.ok { state with
        table
        compEvents := appendOption state.compEvents tmp
        retval })
  | takenBack {table : EventTable} {retval : ℤ} (hmap : papi.Mappable tmp)
      (hquery : papi.Queryable tmp) (hroom : state.table.i < maxCounters)
      (hsets : papi.MakesSets multiplex)
      (hadd : papi.addEvents multiplex (state.table.codes ++ [papi.code tmp]) ≠ papiOk)
      (hcodes : table.codes = state.table.codes) (hnames : table.names = state.table.names) :
      Turn papi multiplex state tmp (.ok { state with
        table
        incompatibleEvents := appendOption state.incompatibleEvents tmp
        couldNotAddSomeEvents := true
        retval })

/-- **One turn of the loop.** -/
theorem turn_checkCompatible (papi : EventLibrary) (multiplex : Bool) (state : CompatState)
    (tmp : Text) : Turn papi multiplex state tmp (checkCompatible papi multiplex state tmp) := by
  unfold checkCompatible
  dsimp only
  split
  · rename_i hmap
    exact .unavailable hmap
  · rename_i hmap
    replace hmap : papi.Mappable tmp := not_not.mp hmap
    split
    · rename_i hquery
      exact .incompatible hmap hquery
    · rename_i hquery
      replace hquery : papi.Queryable tmp := not_not.mp hquery
      by_cases hroom : state.table.i < maxCounters
      · obtain ⟨table, hput, hcodes, hnames, hcodes', hnames'⟩ :=
          EventTable.put_eq_ok tmp (papi.eventNameToCode tmp).2 hroom
        rw [hput]
        dsimp only
        split
        · rename_i hcreate
          exact .noSet hmap hquery hroom fun hsets => hcreate hsets.createEventset
        · rename_i hcreate
          split
          · rename_i hassign
            exact .noSet hmap hquery hroom fun hsets =>
              hassign.2 (hsets.assignEventsetComponent hassign.1)
          · rename_i hassign
            split
            · rename_i hset
              exact .noSet hmap hquery hroom fun hsets => hset.2 (hsets.setMultiplex hset.1)
            · rename_i hset
              have hsets : papi.MakesSets multiplex :=
                { createEventset := not_not.mp hcreate
                  assignEventsetComponent := fun hmultiplex => by_contra fun hne =>
                    hassign ⟨hmultiplex, hne⟩
                  setMultiplex := fun hmultiplex => by_contra fun hne => hset ⟨hmultiplex, hne⟩ }
              split
              · rename_i hadd
                rw [hcodes] at hadd
                exact .takenBack hmap hquery hroom hsets hadd hcodes' hnames'
              · rename_i hadd
                rw [hcodes, not_not] at hadd
                exact .accepted hmap hquery hroom hsets hadd hcodes hnames
      · rw [EventTable.put_eq_error (not_lt.mp hroom)]
        exact .overrun hmap hquery (not_lt.mp hroom)

/-- **The variables represent the fates so far.** -/
structure Represents (papi : EventLibrary) (state : CompatState)
    (fates : List (Text × EventFate)) : Prop where
  names : state.table.names = (Greedy.labelled .accepted fates).map some
  codes : state.table.codes = (Greedy.labelled .accepted fates).map papi.code
  compEvents : state.compEvents = joined (Greedy.labelled .accepted fates)
  unavailableEvents : state.unavailableEvents = joined (Greedy.labelled .unavailable fates)
  incompatibleEvents : state.incompatibleEvents = joined (Greedy.labelled .incompatible fates)

/-- The index of the table is the number of events that were accepted. -/
theorem Represents.index (h : Represents papi state fates) :
    state.table.i = (Greedy.labelled .accepted fates).length :=
  EventTable.index_eq_length h.codes

theorem represents_nil (couldNotAddSomeEvents : Bool) :
    Represents papi { couldNotAddSomeEvents } [] := ⟨rfl, rfl, rfl, rfl, rfl⟩

/-- What PAPI is asked is if the event can be added to those accepted. -/
theorem Represents.addable_iff (h : Represents papi state fates) :
    papi.addEvents multiplex (state.table.codes ++ [papi.code tmp]) = papiOk ↔
      papi.Addable multiplex (Greedy.labelled .accepted fates) tmp := by
  rw [h.codes, EventLibrary.Addable, List.map_append, List.map_singleton]

theorem labelled_next (l : EventFate) : Greedy.labelled l
    (Greedy.next .accepted (papi.fate multiplex) fates tmp) = Greedy.labelled l fates ++
      if papi.fate multiplex (Greedy.labelled .accepted fates) tmp = l then [tmp] else [] := by
  rw [Greedy.next, Greedy.labelled_append, Greedy.labelled_singleton]

/-- **One turn of the loop** settles the fate of its name, if there is room to try it. -/
theorem checkCompatible_cases (tmp : Text) (hsetup : papi.SetsUp multiplex)
    (h : Represents papi state fates) :
    ((papi.Mappable tmp → papi.Queryable tmp → state.table.i < maxCounters) →
      ∃ next, checkCompatible papi multiplex state tmp = .ok next ∧
        Represents papi next (Greedy.next .accepted (papi.fate multiplex) fates tmp)) ∧
    (¬ (papi.Mappable tmp → papi.Queryable tmp → state.table.i < maxCounters) →
      checkCompatible papi multiplex state tmp = .error .overrun) := by
  have hturn := turn_checkCompatible papi multiplex state tmp
  generalize checkCompatible papi multiplex state tmp = result at hturn
  cases hturn with
  | unavailable hmap =>
      have hfate : papi.fate multiplex (Greedy.labelled .accepted fates) tmp = .unavailable := by
        rw [EventLibrary.fate, if_neg hmap]
      refine ⟨fun _ => ⟨_, rfl, ?_⟩, fun hfull => absurd (fun hboth => absurd hboth hmap) hfull⟩
      constructor <;> simp only [labelled_next, hfate, if_true, reduceCtorEq, if_false,
        List.append_nil, joined_concat]
      · exact h.names
      · exact h.codes
      · exact h.compEvents
      · rw [h.unavailableEvents]
      · exact h.incompatibleEvents
  | incompatible hmap hquery =>
      have hfate : papi.fate multiplex (Greedy.labelled .accepted fates) tmp = .incompatible := by
        rw [EventLibrary.fate, if_pos hmap, if_neg fun hboth => hquery hboth.1]
      refine ⟨fun _ => ⟨_, rfl, ?_⟩,
        fun hfull => absurd (fun _ hboth => absurd hboth hquery) hfull⟩
      constructor <;> simp only [labelled_next, hfate, if_true, reduceCtorEq, if_false,
        List.append_nil, joined_concat]
      · exact h.names
      · exact h.codes
      · exact h.compEvents
      · exact h.unavailableEvents
      · rw [h.incompatibleEvents]
  | overrun hmap hquery hfull =>
      exact ⟨fun hroom => absurd (hroom hmap hquery) (not_lt.mpr hfull), fun _ => rfl⟩
  | noSet hmap hquery hroom hsets => exact absurd hsetup.toMakesSets hsets
  | accepted hmap hquery hroom hsets hadd hcodes hnames =>
      have hfate : papi.fate multiplex (Greedy.labelled .accepted fates) tmp = .accepted := by
        rw [EventLibrary.fate, if_pos hmap, if_pos ⟨hquery, h.addable_iff.mp hadd⟩]
      refine ⟨fun _ => ⟨_, rfl, ?_⟩, fun hfull => absurd (fun _ _ => hroom) hfull⟩
      constructor <;> simp only [labelled_next, hfate, if_true, reduceCtorEq, if_false,
        List.append_nil, List.map_append, List.map_singleton, joined_concat]
      · rw [hnames, h.names]
      · rw [hcodes, h.codes]
      · rw [h.compEvents]
      · exact h.unavailableEvents
      · exact h.incompatibleEvents
  | takenBack hmap hquery hroom hsets hadd hcodes hnames =>
      have hfate : papi.fate multiplex (Greedy.labelled .accepted fates) tmp = .incompatible := by
        rw [EventLibrary.fate, if_pos hmap,
          if_neg fun hboth => hadd (h.addable_iff.mpr hboth.2)]
      refine ⟨fun _ => ⟨_, rfl, ?_⟩, fun hfull => absurd (fun _ _ => hroom) hfull⟩
      constructor <;> simp only [labelled_next, hfate, if_true, reduceCtorEq, if_false,
        List.append_nil, joined_concat]
      · rw [hnames, h.names]
      · rw [hcodes, h.codes]
      · exact h.compEvents
      · exact h.unavailableEvents
      · rw [h.incompatibleEvents]

/-- Joined names are found again. -/
theorem tokens_joined {names : List Text} (h : ∀ name ∈ names, name ≠ [] ∧ ',' ∉ name) :
    Strtok.tokens isLaterDelim (joined names) = names := by
  have hclean : ∀ name ∈ names, name ≠ [] ∧ ∀ c ∈ name, isLaterDelim c = false := by
    intro name hname
    obtain ⟨hne, hcomma⟩ := h name hname
    refine ⟨hne, fun c hc => ?_⟩
    rw [isLaterDelim, decide_eq_false_iff_not]
    rintro rfl
    exact hcomma hc
  rw [← Strtok.strtok_self, joined, appendOption_eq, Strtok.strtok_foldl_append (fun _ h => h) rfl,
    Strtok.strtokAll_cons_of_nil Strtok.strtok_nil, Strtok.strtokAll_eq_self (fun _ h => h) hclean]

/-! ## The lengths of the texts -/

/-- The room a list of names takes: each name and a comma. -/
def room (names : List Text) : ℕ := (names.map fun name => name.length + 1).sum

theorem length_appendOption_le (optStr option : Text) :
    (appendOption optStr option).length ≤ optStr.length + (option.length + 1) := by
  unfold appendOption
  split
  · omega
  · simp

theorem length_joined_le (names : List Text) :
    (joined names).length ≤ room names - 1 := by
  have hfold : ∀ (names : List Text) (optStr : Text),
      (names.foldl appendOption optStr).length ≤ optStr.length + room names := by
    intro names
    induction names with
    | nil => intro optStr; simp [room]
    | cons name names ih =>
        intro optStr
        have happend := length_appendOption_le optStr name
        have hrest := ih (appendOption optStr name)
        simp only [room, List.foldl_cons, List.map_cons, List.sum_cons] at hrest ⊢
        omega
  cases names with
  | nil => simp [joined]
  | cons name names =>
      have hrest := hfold names (appendOption [] name)
      rw [appendOption, if_pos rfl] at hrest
      simp only [joined, room, List.foldl_cons, List.map_cons, List.sum_cons, appendOption,
        if_true] at hrest ⊢
      omega

/-- **The three texts together are no longer than the text they were taken from.** -/
theorem length_joined_labelled_le {requested : Text} (hne : fates ≠ [])
    (hfates : fates.map Prod.fst = Strtok.tokens isLaterDelim requested) :
    (joined (Greedy.labelled .accepted fates)).length +
        (joined (Greedy.labelled .unavailable fates)).length +
        (joined (Greedy.labelled .incompatible fates)).length ≤ requested.length := by
  have hthree : ∀ rooms : EventFate → ℕ,
      ∑ fate, rooms fate = rooms .accepted + rooms .unavailable + rooms .incompatible := by
    intro rooms
    simp [Finset.univ, Fintype.elems, add_assoc]
  have hsum := Greedy.sum_labelled (L := EventFate) (fun name : Text => name.length + 1) fates
  have htokens := Strtok.sum_length_tokens_le isLaterDelim requested
  rw [hthree, hfates] at hsum
  change room (Greedy.labelled .accepted fates) + room (Greedy.labelled .unavailable fates) +
    room (Greedy.labelled .incompatible fates) =
      room (Strtok.tokens isLaterDelim requested) at hsum
  change room (Strtok.tokens isLaterDelim requested) ≤ requested.length + 1 at htokens
  have hpos : 0 < room (Strtok.tokens isLaterDelim requested) := by
    rw [← hfates]
    obtain ⟨item, items, rfl⟩ := List.exists_cons_of_ne_nil hne
    simp only [room, List.map_cons, List.sum_cons]
    omega
  have haccepted := length_joined_le (Greedy.labelled .accepted fates)
  have hunavailable := length_joined_le (Greedy.labelled .unavailable fates)
  have hincompatible := length_joined_le (Greedy.labelled .incompatible fates)
  omega

/-! ## The whole list -/

variable {requested : Text}

/-- The greedy choice gives each name the fate that the names accepted before it leave. -/
theorem fate_of_fates_eq {front rest : List (Text × EventFate)} {name : Text}
    {fate : EventFate} {names : List Text}
    (h : papi.fates multiplex names = front ++ (name, fate) :: rest) :
    (fate = .accepted ↔ papi.Mappable name ∧ papi.Queryable name ∧
        papi.Addable multiplex (Greedy.labelled .accepted front) name) ∧
      (fate = .unavailable ↔ ¬ papi.Mappable name) := by
  rw [Greedy.follows_run names front name fate rest h, EventLibrary.fate]
  by_cases hmap : papi.Mappable name
  · rw [if_pos hmap]
    split <;> simp_all
  · simp [hmap]

/-- At the end of the loop the list of events accounts for all names. -/
theorem Represents.accountsFor (hne : Strtok.tokens isLaterDelim requested ≠ [])
    (h : Represents papi state (papi.fates multiplex (Strtok.tokens isLaterDelim requested))) :
    AccountsFor papi multiplex requested state.compEvents state := by
  have hfst : (papi.fates multiplex (Strtok.tokens isLaterDelim requested)).map Prod.fst =
      Strtok.tokens isLaterDelim requested := Greedy.map_fst_run _
  have hne' : papi.fates multiplex (Strtok.tokens isLaterDelim requested) ≠ [] := by
    intro hnil
    rw [hnil] at hfst
    exact hne hfst.symm
  refine ⟨⟨_, hfst, fun front name fate rest => fate_of_fates_eq, h.compEvents,
    h.unavailableEvents, h.incompatibleEvents⟩, ?_⟩
  rw [h.compEvents, h.unavailableEvents, h.incompatibleEvents]
  exact length_joined_labelled_le hne' hfst

/-- **The run over the names** gets through if and only if there is room for every event
that is tried. -/
theorem run_checkCompatible (hsetup : papi.SetsUp multiplex) (couldNotAddSomeEvents : Bool)
    (names : List Text) :
    ((∃ state, FallibleRun.run (checkCompatible papi multiplex) { couldNotAddSomeEvents } names =
        .ok state) ↔
      ∀ front name rest, names = front ++ name :: rest → papi.Mappable name →
        papi.Queryable name →
          (Greedy.labelled .accepted (papi.fates multiplex front)).length < maxCounters) ∧
    ∀ state, FallibleRun.run (checkCompatible papi multiplex) { couldNotAddSomeEvents } names =
      .ok state → Represents papi state (papi.fates multiplex names) := by
  constructor
  · refine FallibleRun.survives_iff_allowed (Represents papi)
      (Greedy.next .accepted (papi.fate multiplex))
      (fun fates name => papi.Mappable name → papi.Queryable name →
        (Greedy.labelled .accepted fates).length < maxCounters) (fun state fates name h => ?_)
      (represents_nil couldNotAddSomeEvents)
    obtain ⟨hroom, hfull⟩ := checkCompatible_cases name hsetup h
    rw [← h.index]
    exact ⟨hroom, fun hnot => ⟨_, hfull hnot⟩⟩
  · intro state hrun
    refine FallibleRun.run_simulation (Represents papi)
      (Greedy.next .accepted (papi.fate multiplex)) (fun name _ before after fates h hafter => ?_)
      (represents_nil couldNotAddSomeEvents) hrun
    obtain ⟨hroom, hfull⟩ := checkCompatible_cases name hsetup h
    by_cases hallowed : papi.Mappable name → papi.Queryable name → before.table.i < maxCounters
    · obtain ⟨next, hnext, hrepresents⟩ := hroom hallowed
      rw [hnext] at hafter
      cases hafter
      exact hrepresents
    · rw [hfull hallowed] at hafter
      cases hafter

theorem makeCompatible_eq (hinit : multiplex = true → papi.multiplexInit = papiOk)
    (couldNotAddSomeEvents : Bool) (hnames : Strtok.tokens isLaterDelim requested ≠ []) :
    makeCompatible papi multiplex couldNotAddSomeEvents requested =
      (FallibleRun.run (checkCompatible papi multiplex) { couldNotAddSomeEvents }
        (Strtok.tokens isLaterDelim requested)).map fun state => (state.compEvents, state) := by
  have hinits : ¬ (multiplex = true ∧ papi.multiplexInit ≠ papiOk) :=
    fun hfail => hfail.2 (hinit hfail.1)
  have hrequested : requested ≠ [] := by
    rintro rfl
    exact hnames Strtok.tokens_nil
  obtain ⟨tmp, rest, hcons⟩ := List.exists_cons_of_ne_nil hnames
  rw [makeCompatible, if_neg hinits, if_neg hrequested, hcons]

/-- Nothing else ends the loop. -/
theorem eq_overrun_of_run_checkCompatible (hsetup : papi.SetsUp multiplex)
    {couldNotAddSomeEvents : Bool} {names : List Text} {stop : TableStop}
    (h : FallibleRun.run (checkCompatible papi multiplex) { couldNotAddSomeEvents } names =
      .error stop) : stop = .overrun := by
  obtain ⟨front, name, rest, before, rfl, hfront, hstop⟩ := FallibleRun.run_eq_error_iff.mp h
  have hrepresents := (run_checkCompatible hsetup couldNotAddSomeEvents front).2 before hfront
  obtain ⟨hroom, hfull⟩ := checkCompatible_cases name hsetup hrepresents
  by_cases hallowed : papi.Mappable name → papi.Queryable name → before.table.i < maxCounters
  · obtain ⟨next, hnext, -⟩ := hroom hallowed
    rw [hnext] at hstop
    cases hstop
  · rw [hfull hallowed] at hstop
    cases hstop
    rfl

/-- At most the names that come before it are accepted before a name. -/
theorem length_accepted_le (papi : EventLibrary) (multiplex : Bool) (names : List Text) :
    (Greedy.labelled .accepted (papi.fates multiplex names)).length ≤ names.length := by
  have hfst : (papi.fates multiplex names).map Prod.fst = names := Greedy.map_fst_run names
  have hlength := congrArg List.length hfst
  rw [List.length_map] at hlength
  rw [Greedy.labelled, List.length_map, ← hlength]
  exact List.length_filter_le _ _

/-! ## A library with room for so many events -/

/-- A library that has every event and adds up to `PAPIEX_MAX_COUNTERS` of them. -/
def roomyLibrary : EventLibrary where
  eventNameToCode _ := (papiOk, 1)
  queryEvent _ := papiOk
  multiplexInit := papiOk
  createEventset := papiOk
  assignEventsetComponent := papiOk
  setMultiplex := papiOk
  addEvents _ codes := if codes.length ≤ maxCounters then papiOk else -1

theorem roomyLibrary_setsUp (multiplex : Bool) : roomyLibrary.SetsUp multiplex :=
  ⟨⟨rfl, fun _ => rfl, fun _ => rfl⟩, fun _ => rfl⟩

/-- One event asked for many times is accepted until the library has no more room. -/
theorem length_accepted_replicate (multiplex : Bool) (name : Text) (n : ℕ) :
    (Greedy.labelled .accepted
      (roomyLibrary.fates multiplex (List.replicate n name))).length = min n maxCounters := by
  induction n with
  | zero => simp [EventLibrary.fates, Greedy.run]
  | succ n ih =>
      rw [EventLibrary.fates] at ih
      rw [EventLibrary.fates, List.replicate_succ', Greedy.run_concat, labelled_next]
      generalize Greedy.labelled .accepted
        (Greedy.run .accepted (roomyLibrary.fate multiplex) (List.replicate n name)) = kept at *
      have hadd : roomyLibrary.Addable multiplex kept name ↔ kept.length + 1 ≤ maxCounters := by
        have hlength : ((kept ++ [name]).map roomyLibrary.code).length = kept.length + 1 := by simp
        show (if ((kept ++ [name]).map roomyLibrary.code).length ≤ maxCounters then papiOk
          else -1) = papiOk ↔ _
        rw [hlength]
        split
        · exact iff_of_true rfl ‹_›
        · exact iff_of_false (by decide) ‹_›
      have hfate : roomyLibrary.fate multiplex kept name = .accepted ↔
          kept.length + 1 ≤ maxCounters := by
        have hmap : roomyLibrary.Mappable name := rfl
        rw [← hadd, EventLibrary.fate, if_pos hmap]
        by_cases h : roomyLibrary.Addable multiplex kept name
        · rw [if_pos ⟨rfl, h⟩]
          exact iff_of_true rfl h
        · rw [if_neg fun hboth => h hboth.2]
          exact iff_of_false (by decide) h
      rw [List.length_append]
      split
      · rename_i hlabel
        have hroom := hfate.mp hlabel
        rw [List.length_singleton]
        omega
      · rename_i hlabel
        have hroom := mt hfate.mpr hlabel
        rw [List.length_nil]
        omega

/-! ## Every event is accounted for -/

/-- **`make_compatible_eventset` is the greedy choice and accounts for every event** if and
only if no name that can be mapped and queried comes when the table is full of accepted
names. -/
theorem make_compatible_accounts_iff (papi : EventLibrary) (multiplex couldNotAddSomeEvents : Bool)
    (requested : Text) (hnames : Strtok.tokens isLaterDelim requested ≠ [])
    (hsetup : papi.SetsUp multiplex) :
    (∃ events state, makeCompatible papi multiplex couldNotAddSomeEvents requested =
        .ok (events, state) ∧ AccountsFor papi multiplex requested events state) ↔
      ∀ front name rest, Strtok.tokens isLaterDelim requested = front ++ name :: rest →
        papi.Mappable name → papi.Queryable name →
          (Greedy.labelled .accepted (papi.fates multiplex front)).length < maxCounters := by
  obtain ⟨hruns, hrepresents⟩ := run_checkCompatible hsetup couldNotAddSomeEvents
    (Strtok.tokens isLaterDelim requested)
  rw [makeCompatible_eq hsetup.multiplexInit couldNotAddSomeEvents hnames, ← hruns]
  constructor
  · rintro ⟨events, state, hrun, -⟩
    cases hstate : FallibleRun.run (checkCompatible papi multiplex) { couldNotAddSomeEvents }
        (Strtok.tokens isLaterDelim requested) with
    | ok state => exact ⟨state, rfl⟩
    | error stop => rw [hstate] at hrun; cases hrun
  · rintro ⟨state, hrun⟩
    exact ⟨state.compEvents, state, by rw [hrun]; rfl, (hrepresents state hrun).accountsFor hnames⟩

/-- Two events that can be counted together. -/
theorem make_compatible_accounts_two :
    ∃ events state, makeCompatible roomyLibrary true false "PAPI_TOT_CYC,PAPI_TOT_INS".toList =
        .ok (events, state) ∧
      AccountsFor roomyLibrary true "PAPI_TOT_CYC,PAPI_TOT_INS".toList events state := by
  refine (make_compatible_accounts_iff roomyLibrary true false _ (by decide)
    (roomyLibrary_setsUp true)).mpr fun front name rest hsplit _ _ => ?_
  have hlength := congrArg List.length hsplit
  have htwo : (Strtok.tokens isLaterDelim "PAPI_TOT_CYC,PAPI_TOT_INS".toList).length = 2 := by
    decide
  have haccepted := length_accepted_le roomyLibrary true front
  have hmax : maxCounters = 128 := rfl
  rw [htwo, List.length_append, List.length_cons] at hlength
  omega

/-- **The write past the end.**  `PAPIEX_MAX_COUNTERS` events are accepted and no more, but
trying the next one writes behind the tables. -/
theorem compatible_table_overrun :
    roomyLibrary.SetsUp true ∧
      Strtok.tokens isLaterDelim (joined (List.replicate 129 "PAPI_TOT_CYC".toList)) =
        List.replicate 129 "PAPI_TOT_CYC".toList ∧
      (Greedy.labelled .accepted
        (roomyLibrary.fates true (List.replicate 129 "PAPI_TOT_CYC".toList))).length =
          maxCounters ∧
      makeCompatible roomyLibrary true false (joined (List.replicate 129 "PAPI_TOT_CYC".toList)) =
        .error .overrun := by
  have hsetup := roomyLibrary_setsUp true
  have htokens : Strtok.tokens isLaterDelim (joined (List.replicate 129 "PAPI_TOT_CYC".toList)) =
      List.replicate 129 "PAPI_TOT_CYC".toList := by
    refine tokens_joined fun name hname => ?_
    rw [List.eq_of_mem_replicate hname]
    decide
  refine ⟨hsetup, htokens, length_accepted_replicate true _ 129, ?_⟩
  rw [makeCompatible_eq hsetup.multiplexInit false (by rw [htokens]; simp), htokens]
  cases hrun : FallibleRun.run (checkCompatible roomyLibrary true)
      { couldNotAddSomeEvents := false } (List.replicate 129 "PAPI_TOT_CYC".toList) with
  | error stop =>
      rw [eq_overrun_of_run_checkCompatible hsetup hrun]
      rfl
  | ok state =>
      -- there would have to be room for the last one
      have hroom := (run_checkCompatible hsetup false _).1.mp ⟨state, hrun⟩
        (List.replicate 128 "PAPI_TOT_CYC".toList) "PAPI_TOT_CYC".toList [] List.replicate_succ'
        rfl rfl
      rw [length_accepted_replicate] at hroom
      exact absurd hroom (by decide)

end Papiex
