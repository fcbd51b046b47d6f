import Papiex.Options.Channel
import Papiex.Options.EventTables
import Mathlib.Algebra.Order.BigOperators.Group.List

/-!
# The buffers for the command lines

The library joins the arguments of the program by blanks in `process_args`, and the driver
joins what its options say by commas in `events` and `option_string`.  Each of the three
has `PATH_MAX` characters, and `strcat` does not look at how many are left.  Here a
`strcat` that needs more is an overrun.

## Main results

* `argumentsHold_iff`: the arguments of the program.
* `buffersHold_iff`: the option string and the list of events.
* `buffers_hold_iff`: all three buffers together.

## Design notes

The buffers are followed twice, with their bound and without.  Without it a buffer is the
texts joined, whose length is a sum; the calls go through with the bound exactly if no front
of them is too long without it.  Texts grow, so it is enough to look at the end.
-/

namespace Papiex

open Chars

/-- There is no room in a buffer. -/
inductive BufferStop where
  | overrun
  deriving DecidableEq

/-- `strcat` on a buffer of `PATH_MAX` characters, one of which ends the text. -/
def strcat (buf text : Text) : Except BufferStop Text :=
  if (buf ++ text).length < pathMax then .ok (buf ++ text) else .error .overrun

/-- `strcpy` into such a buffer. -/
def strcpy (text : Text) : Except BufferStop Text :=
  if text.length < pathMax then .ok text else .error .overrun

/-! ## `monitor_init_process` -/

/-- `i` and `process_args`. -/
structure ArgsLoop where
  i : ℕ := 1
  processArgs : Text := []

namespace ArgsLoop

/-- The body of the loop over `argv`. -/
def addArg (state : ArgsLoop) (arg : Text) : Except BufferStop ArgsLoop :=
  let blank := if 1 < state.i then strcat state.processArgs [' '] else .ok state.processArgs
  (blank.bind fun processArgs => strcat processArgs arg).map fun processArgs =>
    { i := state.i + 1, processArgs }

/-- The same in a buffer without end. -/
def pushArg (state : ArgsLoop) (arg : Text) : ArgsLoop :=
  { i := state.i + 1
    processArgs := state.processArgs ++ if 1 < state.i then ' ' :: arg else arg }

end ArgsLoop

/-- What `monitor_init_process` leaves in `process_args`. -/
def processArgs (argv : List Text) : Except BufferStop Text :=
  (FallibleRun.run ArgsLoop.addArg {} (argv.drop 1)).map ArgsLoop.processArgs

/-- `process_args` ends up as the arguments joined by blanks, within its buffer. -/
def ArgumentsHold (argv : List Text) : Prop :=
  ∃ text, processArgs argv = .ok text ∧ text = [' '].intercalate (argv.drop 1) ∧
    text.length < pathMax

/-! ## `append_option` -/

/-- `append_option` on a buffer of `PATH_MAX` characters. -/
def appendBounded (optStr option : Text) : Except BufferStop Text :=
  let comma := if optStr ≠ [] then strcat optStr [','] else .ok optStr
  comma.bind fun optStr => strcat optStr option

/-- `events` and `option_string`. -/
structure Buffers where
  events : Text := []
  optionString : Text := []

/-- What `parse_args` does to its buffers. -/
inductive BufferCall where
  /-- `append_option (events, ..)`. -/
  | appendEvents (text : Text)
  /-- `append_option (option_string, ..)`. -/
  | appendOptions (text : Text)
  /-- The tests leave these events in `events`. -/
  | leaveEvents (text : Text)

namespace Buffers

/-- A call, if its buffer has room. -/
def exec (buffers : Buffers) : BufferCall → Except BufferStop Buffers
  | .appendEvents text =>
      (appendBounded buffers.events text).map fun events => { buffers with events }
  | .appendOptions text =>
      (appendBounded buffers.optionString text).map fun optionString =>
        { buffers with optionString }
  | .leaveEvents text => (strcpy text).map fun events => { buffers with events }

/-- The same in buffers without end. -/
def call (buffers : Buffers) : BufferCall → Buffers
  | .appendEvents text => { buffers with events := appendOption buffers.events text }
  | .appendOptions text =>
      { buffers with optionString := appendOption buffers.optionString text }
  | .leaveEvents text => { buffers with events := text }

/-- Both texts are shorter than `PATH_MAX`. -/
structure Within (buffers : Buffers) : Prop where
  events : buffers.events.length < pathMax
  optionString : buffers.optionString.length < pathMax

instance : DecidablePred Within := fun buffers =>
  decidable_of_iff (buffers.events.length < pathMax ∧ buffers.optionString.length < pathMax)
    ⟨fun h => ⟨h.1, h.2⟩, fun h => ⟨h.events, h.optionString⟩⟩

end Buffers

/-- The options that the loop comes through, and the one that ends the driver. -/
def readOptions (context : DriverContext) :
    DriverState → List DriverOption → List DriverOption × Option DriverOption
  | _, [] => ([], none)
  | state, option :: rest =>
      match parseOption context state option with
      | .error _ => ([], some option)
      | .ok next =>
          let read := readOptions context next rest
          (option :: read.1, read.2)

/-- What an option appends to `events`. -/
def DriverOption.eventArgs : DriverOption → List Text
  | .event arg => [arg]
  | _ => []

/-- What an option appends to `option_string` before it ends the driver. -/
def DriverOption.lastPieces (context : DriverContext) : DriverOption → List Text
  -- the number is looked at afterwards
  | .multiplex (some _) => [Keyword.multiplex.text]
  -- `spec_file` was too short for it
  | .spec arg => if context.fileExists arg = true then [specMarker ++ arg] else []
  | _ => []

/-- The calls of an option. -/
def DriverOption.calls (option : DriverOption) : List BufferCall :=
  option.eventArgs.map .appendEvents ++ option.pieces.map .appendOptions

/-- The presets that `-a` appends to `events`. -/
def DriverState.presets (state : DriverState) : List Text :=
  if state.autoStats then [papiUsefulPresets] else []

/-- What is appended to `option_string` after the events were tested. -/
def DriverState.finalPieces (state : DriverState) (events : Text) : List Text :=
  (if state.requestedEvents = [] then [] else [events]) ++ state.longKeywords.map Keyword.text

/-- The calls after the loop. -/
def DriverState.finalCalls (papi : PapiLibrary) (state : DriverState) : List BufferCall :=
  state.presets.map .appendEvents ++
    match state.testedEvents papi with
    | .error _ => []
    | .ok events => .leaveEvents events :: (state.finalPieces events).map .appendOptions

/-- The calls of `parse_args`, in this order. -/
def parseCalls (context : DriverContext) (opts : List DriverOption) : List BufferCall :=
  let read := readOptions context (.initial context.build) opts
  read.1.flatMap DriverOption.calls ++
    (read.2.toList.flatMap (DriverOption.lastPieces context)).map .appendOptions ++
    match FallibleRun.run (parseOption context) (.initial context.build) opts with
    | .error _ => []
    | .ok state => state.finalCalls context.papi

/-- **Both buffers hold at every step**: no call up to any point needs more room. -/
def BuffersHold (context : DriverContext) (opts : List DriverOption) : Prop :=
  ∀ front, front <+: parseCalls context opts →
    ∃ buffers, FallibleRun.run Buffers.exec {} front = .ok buffers ∧ buffers.Within

/-! ## The condition -/

/-- The length of texts with one character between any two. -/
def spacedLength (texts : List Text) : ℕ := (texts.map List.length).sum + (texts.length - 1)

/-- The length of texts joined by commas: empty texts at the front leave no comma. -/
def joinedLength (texts : List Text) : ℕ := spacedLength (texts.dropWhile List.isEmpty)

/-- What the options say goes into `events`. -/
def appendedEvents (context : DriverContext) (opts : List DriverOption) : List Text :=
  (readOptions context (.initial context.build) opts).1.flatMap DriverOption.eventArgs ++
    match FallibleRun.run (parseOption context) (.initial context.build) opts with
    | .error _ => []
    | .ok state => state.presets

/-- What the options say goes into `option_string`. -/
def appendedOptions (context : DriverContext) (opts : List DriverOption) : List Text :=
  let read := readOptions context (.initial context.build) opts
  read.1.flatMap DriverOption.pieces ++
    read.2.toList.flatMap (DriverOption.lastPieces context) ++
    match FallibleRun.run (parseOption context) (.initial context.build) opts with
    | .error _ => []
    | .ok state =>
        match state.testedEvents context.papi with
        | .error _ => []
        | .ok events => state.finalPieces events

/-! ## The texts without end -/

section Texts

variable {texts : List Text} {text : Text} {d : Char}

theorem intercalate_cons_eq :
    [d].intercalate (text :: texts) = text ++ texts.flatMap fun next => d :: next := by
  induction texts generalizing text with
  | nil => simp
  | cons next texts ih => simp [ih]

theorem length_intercalate : ([d].intercalate texts).length = spacedLength texts := by
  induction texts with
  | nil => rfl
  | cons text texts ih =>
      rcases List.eq_nil_or_concat texts with rfl | ⟨front, last, rfl⟩
      · simp [spacedLength]
      · rw [List.intercalate_cons_of_ne_nil (by simp), List.length_append, List.length_append, ih]
        simp [spacedLength]
        omega

/-- Texts that are appended one by one are joined by commas. -/
theorem foldl_appendOption_eq (hne : text ≠ []) :
    texts.foldl appendOption text = [','].intercalate (text :: texts) := by
  rw [intercalate_cons_eq]
  induction texts generalizing text with
  | nil => simp
  | cons next texts ih =>
      have hstep : appendOption text next = text ++ ',' :: next := if_neg hne
      rw [List.foldl_cons, hstep, ih (by simp), List.flatMap_cons, List.append_assoc]

/-- Joined texts have a comma between any two, if empty texts at the front are left out. -/
theorem joined_eq_intercalate :
    joined texts = [','].intercalate (texts.dropWhile List.isEmpty) := by
  induction texts with
  | nil => rfl
  | cons text texts ih =>
      cases text with
      | nil => exact ih
      | cons c text => exact foldl_appendOption_eq (List.cons_ne_nil c text)

theorem length_joined : (joined texts).length = joinedLength texts := by
  rw [joined_eq_intercalate, length_intercalate, joinedLength]

/-- What is appended stays. -/
theorem prefix_foldl_appendOption : text <+: texts.foldl appendOption text := by
  induction texts generalizing text with
  | nil => exact List.prefix_rfl
  | cons next texts ih =>
      refine List.IsPrefix.trans ?_ ih
      unfold appendOption
      split
      · rename_i hnil
        rw [hnil]
        exact List.nil_prefix
      · exact List.prefix_append _ _

end Texts

/-! ## The arguments of the program -/

section Strcat

variable {buf sep text : Text}

/-- Two calls need as much room as one call with both texts. -/
theorem strcat_bind_strcat :
    ((strcat buf sep).bind fun buf => strcat buf text) = strcat buf (sep ++ text) := by
  unfold strcat
  by_cases hsep : (buf ++ sep).length < pathMax
  · rw [if_pos hsep, ← List.append_assoc]
    rfl
  · have hboth : ¬ (buf ++ (sep ++ text)).length < pathMax := by
      rw [List.length_append] at hsep
      rw [List.length_append, List.length_append]
      omega
    rw [if_neg hsep, if_neg hboth]
    rfl

/-- A check of the text that is written, as a check of what it is written into. -/
theorem map_checked {α : Type*} {guard goal : Prop} [Decidable guard] [Decidable goal]
    (hiff : guard ↔ goal) (f : Text → α) :
    (if guard then .ok text else .error .overrun : Except BufferStop Text).map f =
      if goal then .ok (f text) else .error .overrun := by
  by_cases hguard : guard
  · rw [if_pos hguard, if_pos (hiff.mp hguard)]
    rfl
  · rw [if_neg hguard, if_neg (mt hiff.mpr hguard)]
    rfl

end Strcat

namespace ArgsLoop

variable {state : ArgsLoop} {args : List Text}

/-- **One turn of the loop** asks for the room that it needs. -/
theorem addArg_eq (state : ArgsLoop) (arg : Text) :
    state.addArg arg = if (state.pushArg arg).processArgs.length < pathMax
      then .ok (state.pushArg arg) else .error .overrun := by
  have hstrcat : (if 1 < state.i then strcat state.processArgs [' ']
      else .ok state.processArgs).bind (fun processArgs => strcat processArgs arg) =
        strcat state.processArgs (if 1 < state.i then ' ' :: arg else arg) := by
    split
    · exact strcat_bind_strcat
    · rfl
  unfold addArg pushArg
  dsimp only
  rw [hstrcat, strcat]
  exact map_checked Iff.rfl _

theorem foldl_pushArg (hi : 1 < state.i) :
    (args.foldl pushArg state).processArgs =
      state.processArgs ++ args.flatMap fun arg => ' ' :: arg := by
  induction args generalizing state with
  | nil => simp
  | cons arg args ih =>
      rw [List.foldl_cons, ih (Nat.lt_succ_of_lt hi), pushArg, if_pos hi, List.flatMap_cons,
        List.append_assoc]

/-- **The whole loop** joins the arguments. -/
theorem foldl_pushArg_start :
    (args.foldl pushArg {}).processArgs = [' '].intercalate args := by
  cases args with
  | nil => rfl
  | cons arg args =>
      rw [List.foldl_cons, foldl_pushArg Nat.one_lt_two, intercalate_cons_eq]
      rfl

theorem prefix_foldl_pushArg : state.processArgs <+: (args.foldl pushArg state).processArgs := by
  induction args generalizing state with
  | nil => exact List.prefix_rfl
  | cons arg args ih =>
      have hstep : state.processArgs <+: (state.pushArg arg).processArgs := List.prefix_append _ _
      exact hstep.trans ih

end ArgsLoop

/-- **The arguments are joined if and only if they have room**: each, and a blank between
any two. -/
theorem argumentsHold_iff (argv : List Text) :
    ArgumentsHold argv ↔ spacedLength (argv.drop 1) < pathMax := by
  have hlength : ((argv.drop 1).foldl ArgsLoop.pushArg {}).processArgs.length =
      spacedLength (argv.drop 1) := by
    rw [ArgsLoop.foldl_pushArg_start, length_intercalate]
  have hrun (final : ArgsLoop) : FallibleRun.run ArgsLoop.addArg {} (argv.drop 1) = .ok final ↔ _ :=
    FallibleRun.run_checked_eq_ok_iff (fun state => state.processArgs.length < pathMax)
      (fun state arg _ => ArgsLoop.addArg_eq state arg) (by decide)
  constructor
  · rintro ⟨text, -, rfl, hroom⟩
    rwa [length_intercalate] at hroom
  · intro hroom
    rw [← hlength] at hroom
    -- what is written before the end is a prefix of what is there at the end
    have hfronts : ∀ front, front <+: argv.drop 1 →
        (front.foldl ArgsLoop.pushArg {}).processArgs.length < pathMax := by
      rintro front ⟨rest, hrest⟩
      rw [← hrest, List.foldl_append] at hroom
      exact ArgsLoop.prefix_foldl_pushArg.length_le.trans_lt hroom
    refine ⟨_, ?_, ArgsLoop.foldl_pushArg_start, hroom⟩
    rw [processArgs, (hrun _).mpr ⟨hfronts, rfl⟩]
    rfl

/-! ## The calls of `parse_args` -/

section Calls

variable {buffers : Buffers} {calls front rest : List BufferCall} {texts : List Text}

/-- `append_option` asks for the room that it needs. -/
theorem appendBounded_eq (optStr option : Text) :
    appendBounded optStr option = if (appendOption optStr option).length < pathMax
      then .ok (appendOption optStr option) else .error .overrun := by
  unfold appendBounded appendOption
  by_cases hnil : optStr = []
  · subst hnil
    rfl
  · simp only [hnil, ne_eq, not_false_eq_true, if_true]
    exact strcat_bind_strcat

/-- **One call** goes through if and only if both texts are within their buffers after it. -/
theorem exec_eq (buffers : Buffers) (step : BufferCall) (hwithin : buffers.Within) :
    buffers.exec step = if (buffers.call step).Within
      then .ok (buffers.call step) else .error .overrun := by
  cases step with
  | appendEvents text =>
      rw [Buffers.exec, appendBounded_eq]
      exact map_checked ⟨fun hroom => ⟨hroom, hwithin.optionString⟩, fun h => h.events⟩ _
  | appendOptions text =>
      rw [Buffers.exec, appendBounded_eq]
      exact map_checked ⟨fun hroom => ⟨hwithin.events, hroom⟩, fun h => h.optionString⟩ _
  | leaveEvents text =>
      rw [Buffers.exec, strcpy]
      exact map_checked ⟨fun hroom => ⟨hroom, hwithin.optionString⟩, fun h => h.events⟩ _

theorem within_empty : Buffers.Within {} := by decide

/-- **The calls go through at every step** if and only if what they would write is within
the buffers at every step. -/
theorem forall_run_exec_iff :
    (∀ front, front <+: calls →
        ∃ buffers, FallibleRun.run Buffers.exec {} front = .ok buffers ∧ buffers.Within) ↔
      ∀ front, front <+: calls → (front.foldl Buffers.call {}).Within := by
  have hrun (front : List BufferCall) (final : Buffers) :
      FallibleRun.run Buffers.exec {} front = .ok final ↔ _ :=
    FallibleRun.run_checked_eq_ok_iff Buffers.Within exec_eq within_empty
  constructor
  · intro h front hfront
    obtain ⟨buffers, hok, hwithin⟩ := h front hfront
    rwa [((hrun front buffers).mp hok).2] at hwithin
  · intro h front hfront
    exact ⟨_, (hrun front _).mpr ⟨fun _ hbefore => h _ (hbefore.trans hfront), rfl⟩,
      h front hfront⟩

/-- The text that a call appends to `events`. -/
def BufferCall.eventText : BufferCall → Option Text
  | .appendEvents text => some text
  | _ => none

/-- The text that a call appends to `option_string`. -/
def BufferCall.optionText : BufferCall → Option Text
  | .appendOptions text => some text
  | _ => none

/-- The call appends nothing to `events`, and leaves at most so many characters there. -/
def BufferCall.Leaves (bound : ℕ) : BufferCall → Prop
  | .appendEvents _ => False
  | .appendOptions _ => True
  | .leaveEvents text => text.length ≤ bound

/-- The option string is what the calls appended to it, in order. -/
theorem optionString_foldl_call :
    (calls.foldl Buffers.call buffers).optionString =
      (calls.filterMap BufferCall.optionText).foldl appendOption buffers.optionString := by
  induction calls generalizing buffers with
  | nil => rfl
  | cons step calls ih =>
      rw [List.foldl_cons, ih]
      cases step <;> rfl

/-- The list of events is what the calls appended to it, in order. -/
theorem events_foldl_call (h : ∀ text, .leaveEvents text ∉ calls) :
    (calls.foldl Buffers.call buffers).events =
      (calls.filterMap BufferCall.eventText).foldl appendOption buffers.events := by
  induction calls generalizing buffers with
  | nil => rfl
  | cons step calls ih =>
      rw [List.foldl_cons, ih fun text hmem => h text (List.mem_cons_of_mem _ hmem)]
      cases step with
      | appendEvents text => rfl
      | appendOptions text => rfl
      | leaveEvents text => exact absurd List.mem_cons_self (h text)

/-- The list of events stays within a bound that each call keeps. -/
theorem length_events_foldl_call_le {bound : ℕ} (h : ∀ step ∈ calls, step.Leaves bound)
    (hstart : buffers.events.length ≤ bound) :
    (calls.foldl Buffers.call buffers).events.length ≤ bound := by
  induction calls generalizing buffers with
  | nil => exact hstart
  | cons step calls ih =>
      rw [List.forall_mem_cons] at h
      refine ih h.2 ?_
      cases step with
      | appendEvents text => exact h.1.elim
      | appendOptions text => exact hstart
      | leaveEvents text => exact h.1

/-- **The texts are longest at the end**, but for what the tests take out of `events`. -/
theorem forall_within_iff (hfront : ∀ text, .leaveEvents text ∉ front)
    (hrest : ∀ step ∈ rest, step.Leaves (joined (front.filterMap BufferCall.eventText)).length) :
    (∀ before, before <+: front ++ rest → (before.foldl Buffers.call {}).Within) ↔
      (joined (front.filterMap BufferCall.eventText)).length < pathMax ∧
        (joined ((front ++ rest).filterMap BufferCall.optionText)).length < pathMax := by
  constructor
  · intro h
    have hevents := (h front (List.prefix_append _ _)).events
    have hoptions := (h _ List.prefix_rfl).optionString
    rw [events_foldl_call hfront] at hevents
    rw [optionString_foldl_call] at hoptions
    exact ⟨hevents, hoptions⟩
  · rintro ⟨hevents, hoptions⟩ before hbefore
    refine ⟨lt_of_le_of_lt ?_ hevents, lt_of_le_of_lt ?_ hoptions⟩
    · rcases List.prefix_or_prefix_of_prefix hbefore (List.prefix_append front rest) with h | h
      · obtain ⟨more, rfl⟩ := h
        rw [events_foldl_call fun text hmem => hfront text (List.mem_append_left _ hmem), joined,
          List.filterMap_append, List.foldl_append]
        exact prefix_foldl_appendOption.length_le
      · -- the events have been appended, and the calls behind only leave fewer of them
        obtain ⟨more, rfl⟩ := h
        have hmore := (List.prefix_append_right_inj front).mp hbefore
        rw [List.foldl_append]
        refine length_events_foldl_call_le (fun step hstep => hrest step (hmore.subset hstep)) ?_
        rw [events_foldl_call hfront]
        exact le_rfl
    · obtain ⟨more, hmore⟩ := hbefore
      rw [← hmore, optionString_foldl_call, joined, List.filterMap_append, List.foldl_append]
      exact prefix_foldl_appendOption.length_le

end Calls

/-! ## The events that the tests leave -/

section Tests

variable {papi : PapiLibrary} {multiplex : Bool} {state : DriverState}
variable {kept names result : List Text} {events left : Text}

/-- Some of the names are kept, in their order. -/
theorem keepCompatible_sublist (h : keepCompatible papi multiplex kept names = .ok result) :
    ∃ more, more.Sublist names ∧ result = kept ++ more := by
  induction names generalizing kept with
  | nil =>
      cases h
      exact ⟨[], List.Sublist.refl _, (List.append_nil _).symm⟩
  | cons tmp names ih =>
      have hskip (h : keepCompatible papi multiplex kept names = .ok result) :
          ∃ more, more.Sublist (tmp :: names) ∧ result = kept ++ more := by
        obtain ⟨more, hmore, heq⟩ := ih h
        exact ⟨more, hmore.cons tmp, heq⟩
      rw [keepCompatible] at h
      split at h
      · split at h
        · cases h
        · split at h
          · cases h
          · split at h
            · obtain ⟨more, hmore, heq⟩ := ih h
              exact ⟨tmp :: more, hmore.cons_cons tmp, by rw [heq, List.append_assoc]; rfl⟩
            · exact hskip h
      · exact hskip h

/-- A part of the list takes no more room. -/
theorem room_le_of_sublist (h : kept.Sublist names) : room kept ≤ room names :=
  (h.map _).sum_le_sum fun _ _ => Nat.zero_le _

/-- The events left are no longer than the events tested. -/
theorem length_makeCompatibleEventset_le
    (h : makeCompatibleEventset papi multiplex events = .ok left) :
    left.length ≤ events.length := by
  unfold makeCompatibleEventset at h
  split at h
  · cases h
  · cases hkeep : keepCompatible papi multiplex [] (Strtok.tokens isLaterDelim events) with
    | error stop => rw [hkeep] at h; cases h
    | ok result =>
        rw [hkeep] at h
        cases h
        obtain ⟨more, hmore, rfl⟩ := keepCompatible_sublist hkeep
        have hjoined := length_joined_le result
        have hroom := room_le_of_sublist hmore
        have htokens : room (Strtok.tokens isLaterDelim events) ≤ events.length + 1 :=
          Strtok.sum_length_tokens_le isLaterDelim events
        change (joined result).length ≤ events.length
        omega

/-- The check of the events leaves no more than was asked for. -/
theorem length_testedEvents_le (h : state.testedEvents papi = .ok left) :
    left.length ≤ state.requestedEvents.length := by
  unfold DriverState.testedEvents at h
  split at h
  · cases h
    exact le_rfl
  · dsimp only at h
    split at h
    · cases h
    · cases h
      exact le_rfl
    · split at h
      · exact length_makeCompatibleEventset_le h
      · cases h
        exact le_rfl

end Tests

/-! ## The calls of a command line -/

section Line

variable {context : DriverContext} {state next final : DriverState} {option : DriverOption}
variable {opts : List DriverOption}

/-- Only `-e` appends to `events` in the loop, and only `-a` asks for the presets. -/
theorem parseOption_events (h : parseOption context state option = .ok next) :
    next.events = option.eventArgs.foldl appendOption state.events ∧
      next.autoStats = (decide (option = .auto) || state.autoStats) := by
  cases option with
  | pathscale arg =>
      simp only [parseOption, ite_error_eq_ok_iff] at h
      cases hprof : pathscaleOf arg with
      | none => rw [hprof] at h; cases h.2
      | some prof =>
          rw [hprof] at h
          cases h.2
          exact ⟨rfl, rfl⟩
  | multiplex interval =>
      cases interval with
      | none => cases h; exact ⟨rfl, rfl⟩
      | some arg =>
          simp only [parseOption, ite_error_eq_ok_iff, Except.ok.injEq] at h
          obtain ⟨-, rfl⟩ := h
          exact ⟨rfl, rfl⟩
  | spec arg =>
      simp only [parseOption, ite_error_eq_ok_iff, Except.ok.injEq] at h
      obtain ⟨-, -, rfl⟩ := h
      exact ⟨rfl, rfl⟩
  | info | unknown =>
      -- these end the driver
      cases h
  | debug | user | kernel | other | supervisor | auto | event | shellDump =>
      cases h
      exact ⟨rfl, rfl⟩
  | gnu | long | quiet | rusage | memory | noWrite | writeOnly | outputPrefix | outputDir |
      outputFile =>
      simp only [parseOption, ite_error_eq_ok_iff, Except.ok.injEq] at h
      obtain ⟨-, rfl⟩ := h
      exact ⟨rfl, rfl⟩

/-- **A loop that comes to its end** has read all options. -/
theorem readOptions_eq (h : FallibleRun.run (parseOption context) state opts = .ok final) :
    readOptions context state opts = (opts, none) ∧
      final.events = (opts.flatMap DriverOption.eventArgs).foldl appendOption state.events ∧
      final.autoStats = (decide (.auto ∈ opts) || state.autoStats) := by
  induction opts generalizing state with
  | nil =>
      cases h
      exact ⟨rfl, rfl, by simp⟩
  | cons option opts ih =>
      obtain ⟨next, hstep, hrest⟩ := FallibleRun.run_cons_eq_ok_iff.mp h
      obtain ⟨hread, hevents, hauto⟩ := ih hrest
      obtain ⟨hevent, hstats⟩ := parseOption_events hstep
      refine ⟨?_, ?_, ?_⟩
      · simp only [readOptions, hstep, hread]
      · rw [hevents, hevent, List.flatMap_cons, List.foldl_append]
      · rw [hauto, hstats]
        by_cases hopts : DriverOption.auto ∈ opts
        · simp [hopts]
        · simp [hopts, eq_comm]

/-- What goes into `events` if no option ends the driver. -/
theorem appendedEvents_eq
    (h : FallibleRun.run (parseOption context) (.initial context.build) opts = .ok final) :
    appendedEvents context opts =
      opts.flatMap DriverOption.eventArgs ++ if .auto ∈ opts then [papiUsefulPresets] else [] := by
  obtain ⟨hread, -, hauto⟩ := readOptions_eq h
  simp only [appendedEvents, hread, h, DriverState.presets, hauto]
  simp [DriverState.initial]

/-- The presets are appended to the events of the options. -/
theorem requestedEvents_eq :
    state.requestedEvents = state.presets.foldl appendOption state.events := by
  unfold DriverState.requestedEvents DriverState.presets
  split <;> rfl

/-- The pieces at the end are appended to the option string. -/
theorem finish_eq (events : Text) :
    state.finish events = (state.finalPieces events).foldl appendOption state.optionString := by
  unfold DriverState.finish DriverState.finalPieces
  dsimp only
  rw [List.foldl_append]
  split <;> rfl

/-! ### What the calls append -/

theorem eventText_appendEvents (texts : List Text) :
    (texts.map BufferCall.appendEvents).filterMap BufferCall.eventText = texts := by
  rw [List.filterMap_map]
  exact List.filterMap_some

theorem optionText_appendEvents (texts : List Text) :
    (texts.map BufferCall.appendEvents).filterMap BufferCall.optionText = [] := by
  rw [List.filterMap_map]
  exact List.filterMap_eq_nil_iff.mpr fun _ _ => rfl

theorem eventText_appendOptions (texts : List Text) :
    (texts.map BufferCall.appendOptions).filterMap BufferCall.eventText = [] := by
  rw [List.filterMap_map]
  exact List.filterMap_eq_nil_iff.mpr fun _ _ => rfl

theorem optionText_appendOptions (texts : List Text) :
    (texts.map BufferCall.appendOptions).filterMap BufferCall.optionText = texts := by
  rw [List.filterMap_map]
  exact List.filterMap_some

/-- What the options append to the list of events. -/
theorem eventText_calls (opts : List DriverOption) :
    (opts.flatMap DriverOption.calls).filterMap BufferCall.eventText =
      opts.flatMap DriverOption.eventArgs := by
  rw [List.filterMap_flatMap]
  refine List.flatMap_congr fun option _ => ?_
  rw [DriverOption.calls, List.filterMap_append, eventText_appendEvents, eventText_appendOptions,
    List.append_nil]

theorem optionText_calls (opts : List DriverOption) :
    (opts.flatMap DriverOption.calls).filterMap BufferCall.optionText =
      opts.flatMap DriverOption.pieces := by
  rw [List.filterMap_flatMap]
  refine List.flatMap_congr fun option _ => ?_
  rw [DriverOption.calls, List.filterMap_append, optionText_appendEvents,
    optionText_appendOptions, List.nil_append]

/-- At the end of the loop `events` is what the options appended to it. -/
theorem joined_appendedEvents
    (h : FallibleRun.run (parseOption context) (.initial context.build) opts = .ok final) :
    joined (appendedEvents context opts) = final.requestedEvents := by
  obtain ⟨hread, hevents, -⟩ := readOptions_eq h
  rw [appendedEvents, hread, h, joined, List.foldl_append, requestedEvents_eq, hevents]
  rfl

/-- **The calls split where the last text has been appended to `events`.** -/
theorem exists_parseCalls_eq (context : DriverContext) (opts : List DriverOption) :
    ∃ front rest, parseCalls context opts = front ++ rest ∧
      (∀ text, .leaveEvents text ∉ front) ∧
      front.filterMap BufferCall.eventText = appendedEvents context opts ∧
      (front ++ rest).filterMap BufferCall.optionText = appendedOptions context opts ∧
      ∀ step ∈ rest, step.Leaves (joined (appendedEvents context opts)).length := by
  cases hrun : FallibleRun.run (parseOption context) (.initial context.build) opts with
  | error stop =>
      refine ⟨parseCalls context opts, [], (List.append_nil _).symm, ?_, ?_, ?_, by simp⟩
      · simp [parseCalls, hrun, DriverOption.calls]
      · simp only [parseCalls, appendedEvents, hrun, List.append_nil, List.filterMap_append,
          eventText_calls, eventText_appendOptions]
      · simp only [parseCalls, appendedOptions, hrun, List.append_nil, List.filterMap_append,
          optionText_calls, optionText_appendOptions]
  | ok state =>
      obtain ⟨hread, -, -⟩ := readOptions_eq hrun
      have hjoined := joined_appendedEvents hrun
      have hbound : ∀ left, state.testedEvents context.papi = .ok left →
          left.length ≤ (joined (appendedEvents context opts)).length :=
        fun left hleft => hjoined ▸ length_testedEvents_le hleft
      refine ⟨opts.flatMap DriverOption.calls ++ state.presets.map .appendEvents,
        match state.testedEvents context.papi with
        | .error _ => []
        | .ok events => .leaveEvents events :: (state.finalPieces events).map .appendOptions,
        ?_, ?_, ?_, ?_, ?_⟩
      · simp only [parseCalls, hrun, hread, DriverState.finalCalls, List.append_assoc]
        rfl
      · simp [DriverOption.calls]
      · simp only [appendedEvents, hrun, hread, List.filterMap_append, eventText_calls,
          eventText_appendEvents]
      · simp only [appendedOptions, hrun, hread, List.filterMap_append, optionText_calls,
          optionText_appendEvents]
        cases state.testedEvents context.papi with
        | error stop => simp
        | ok events =>
            have htext : (BufferCall.leaveEvents events).optionText = none := rfl
            simp only [List.filterMap_cons_none htext, optionText_appendOptions]
            simp
      · cases htest : state.testedEvents context.papi with
        | error stop => simp
        | ok events =>
            simp only [List.forall_mem_cons, List.forall_mem_map]
            exact ⟨hbound events htest, fun _ _ => trivial⟩

/-- **The buffers of a command line hold if and only if the texts for them have room**, with
a comma between any two. -/
theorem buffersHold_iff (context : DriverContext) (opts : List DriverOption) :
    BuffersHold context opts ↔
      joinedLength (appendedEvents context opts) < pathMax ∧
        joinedLength (appendedOptions context opts) < pathMax := by
  obtain ⟨front, rest, hcalls, hfront, hevents, hoptions, hrest⟩ :=
    exists_parseCalls_eq context opts
  rw [← hevents] at hrest
  rw [BuffersHold, forall_run_exec_iff, hcalls, forall_within_iff hfront hrest, hevents,
    hoptions, length_joined, length_joined]

/-- At the end `option_string` is what was appended to it. -/
theorem joined_appendedOptions {events : Text}
    (h : FallibleRun.run (parseOption context) (.initial context.build) opts = .ok final)
    (htest : final.testedEvents context.papi = .ok events) :
    joined (appendedOptions context opts) = final.finish events := by
  obtain ⟨hread, -, -⟩ := readOptions_eq h
  obtain ⟨-, hstring, -⟩ := run_parseOption h
  have hnone : (none : Option DriverOption).toList.flatMap (DriverOption.lastPieces context) = [] :=
    rfl
  simp only [appendedOptions, hread, h, htest]
  rw [hnone, List.append_nil, joined, List.foldl_append, finish_eq, hstring]
  rfl

/-- The calls leave the tested events and the option string. -/
theorem foldl_parseCalls {events : Text}
    (h : FallibleRun.run (parseOption context) (.initial context.build) opts = .ok final)
    (htest : final.testedEvents context.papi = .ok events) :
    ((parseCalls context opts).foldl Buffers.call {}).events = events ∧
      ((parseCalls context opts).foldl Buffers.call {}).optionString = final.finish events := by
  obtain ⟨front, rest, hcalls, -, -, hoptions, -⟩ := exists_parseCalls_eq context opts
  constructor
  · -- only pieces are appended after the events were tested
    have hpieces : ∀ buffers : Buffers, (((final.finalPieces events).map
        BufferCall.appendOptions).foldl Buffers.call buffers).events = buffers.events := by
      intro buffers
      rw [events_foldl_call (by simp), eventText_appendOptions]
      rfl
    simp only [parseCalls, h, DriverState.finalCalls, htest, List.foldl_append, List.foldl_cons]
    rw [hpieces]
    rfl
  · rw [← joined_appendedOptions h htest, ← hoptions, ← hcalls]
    exact optionString_foldl_call

/-- **A command line that the driver accepts** has room all the time, and what comes out of
it is in the buffers at the end. -/
theorem buffersHold_of_parseArgs {result : List Text × Text}
    (h : parseArgs context opts = .ok result) :
    BuffersHold context opts ∧
      ∃ buffers, FallibleRun.run Buffers.exec {} (parseCalls context opts) = .ok buffers ∧
        result = (Strtok.tokens isLaterDelim buffers.events, buffers.optionString) := by
  unfold parseArgs at h
  cases hrun : FallibleRun.run (parseOption context) (.initial context.build) opts with
  | error stop => rw [hrun] at h; cases h
  | ok state =>
      simp only [hrun] at h
      cases htest : state.testedEvents context.papi with
      | error stop => rw [htest] at h; cases h
      | ok events =>
          simp only [htest] at h
          obtain ⟨hroom, h⟩ : ¬ (pathMax ≤ state.requestedEvents.length ∨
              pathMax ≤ (state.finish events).length) ∧
                result = (Strtok.tokens isLaterDelim events, state.finish events) := by
            split at h
            · cases h
            · split at h
              · cases h
              · rename_i hroom _
                exact ⟨hroom, (Except.ok.inj h).symm⟩
          rw [not_or, not_le, not_le] at hroom
          have hhold : BuffersHold context opts := by
            rw [buffersHold_iff, ← length_joined, ← length_joined, joined_appendedEvents hrun,
              joined_appendedOptions hrun htest]
            exact hroom
          obtain ⟨hevents, hoptions⟩ := foldl_parseCalls hrun htest
          refine ⟨hhold, _, (FallibleRun.run_checked_eq_ok_iff Buffers.Within exec_eq
            within_empty).mpr ⟨forall_run_exec_iff.mp hhold, rfl⟩, ?_⟩
          rw [hevents, hoptions]
          exact h

end Line

/-- **All three buffers**: each holds what is collected in it if and only if the texts for
it, and the blanks or commas between them, are shorter than `PATH_MAX`. -/
theorem buffers_hold_iff (argv : List Text) (context : DriverContext)
    (opts : List DriverOption) :
    (ArgumentsHold argv ↔ spacedLength (argv.drop 1) < pathMax) ∧
      (BuffersHold context opts ↔
        joinedLength (appendedEvents context opts) < pathMax ∧
          joinedLength (appendedOptions context opts) < pathMax) :=
  ⟨argumentsHold_iff argv, buffersHold_iff context opts⟩

/-- A text as long as the buffer. -/
def longText : Text := List.replicate pathMax 'x'

/-- One argument of the program, or one of `-e`, can be longer than the buffer. -/
theorem long_argument_overruns :
    ¬ ArgumentsHold ["cmd".toList, longText] ∧
      ¬ BuffersHold (readyContext ⟨true, true⟩) [.event longText] := by
  have hlength : longText.length = pathMax := List.length_replicate
  have hroom : ¬ spacedLength [longText] < pathMax := by simp [spacedLength, hlength]
  have hempty : longText.isEmpty = false := by simp [longText, pathMax]
  constructor
  · rw [argumentsHold_iff]
    exact hroom
  · rw [buffersHold_iff]
    rintro ⟨hevents, -⟩
    have hjoined : joinedLength [longText] < pathMax := hevents
    rw [joinedLength, List.dropWhile_cons_of_neg (by simp [hempty])] at hjoined
    exact hroom hjoined

end Papiex
