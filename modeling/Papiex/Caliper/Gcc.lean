import Papiex.Caliper.Api

/-!
# Automatic gcc instrumentation

The two hooks of `gcc.c`.  They map function addresses to caliper points
through a hash table of the thread, whose keys are meant to be the addresses in
hexadecimal.  `ultohexstr` writes the digits at the end of its buffer and
returns where they begin, but the hooks drop that pointer and use the whole
buffer, which was never initialised.  So a hook also takes what the stack held
there, and the key is what the buffer spells up to its first NUL.

Enter and exit decide independently.  What has to hold for them to stay paired
is said about the trace alone (`Tolerated`), and the hash table, the points and
their depths are shown to mirror it (`Mirrors`).

## Main results

* `cygProfileFuncEnter`, `cygProfileFuncExit`: the hooks.
* `Mirrors`: what a trace says of the table of functions and of the points that are open.
* `keeps`: one event keeps the mirror, or ends the program.
* `gcc_hooks_survive_iff`: which traces a program survives.

## Design notes

What the stack held is part of an event, so nothing is assumed about it: a trace may spell
one address by several keys, and several addresses by one.  The condition goes by the keys.
The functions that have a point are the first 31 different keys of the trace, and whether
one of them is open is read off the trace too.
-/

namespace Papiex

/-! ## Keys -/

/-- `ULTOHEXSTR_SZ`. -/
def ultohexstrSz : ℕ := 34

/-- `ultohexstr`: the digits go to the end of the buffer, before a final NUL.
The result is the buffer. -/
def ultohexstr (val : UInt64) (buf : Text) : Text :=
  let digits := Nat.toDigits 16 val.toNat
  buf.take (ultohexstrSz - 1 - digits.length) ++ digits ++ ['\x00']

/-- The string a buffer holds: everything before the first NUL. -/
def cString (buf : Text) : Text := buf.takeWhile (· ≠ '\x00')

/-- The key a hook looks up: the string that starts at the beginning of the buffer. -/
def keyOf (fn : UInt64) (stack : Text) : Text := cString (ultohexstr fn stack)

/-- `sprintf(label,":%p",this_fn)`. -/
def functionLabel (fn : UInt64) : Text :=
  if fn = 0 then ":(nil)".toList else ":0x".toList ++ Nat.toDigits 16 fn.toNat

/-! ## The hash table -/

namespace HsearchData

/-- `hcreate_r`, which may round the capacity up. -/
def hcreate (nel : ℕ) : HsearchData where
  size := nel
  entries := []

/-- `hsearch_r` with `FIND`. -/
def find (tab : HsearchData) (key : Text) : Option ℕ := tab.entries.lookup key

/-- `hsearch_r` with `ENTER` for a key the table does not have; it fails when
the table is full. -/
def enter (tab : HsearchData) (key : Text) (point : ℕ) : Option HsearchData :=
  if tab.entries.length < tab.size then
    some { tab with entries := tab.entries ++ [(key, point)] }
  else none

end HsearchData

/-! ## The hooks -/

/-- `__cyg_profile_func_enter`. -/
def cygProfileFuncEnter (cfg : Config) (papiexGccEnable : ℤ) (tls : Option PerthreadData)
    (thisFn : UInt64) (stack : Text) (io : Sampling) :
    Except LibpapiexError (Option PerthreadData) :=
  if papiexGccEnable = 0 then .ok tls
  else
    match tls with
    | none => .error .nullThreadData
    | some found =>
        let thread :=
          if found.htab.size = 0 then
            { found with htab := .hcreate found.maxCaliperEntries }
          else found
        let key := keyOf thisFn stack
        match thread.htab.find key with
        | some point => papiexStart cfg (some thread) point none io
        | none =>
            -- a function for which the table has no room left is not measured
            if thread.maxCaliperEntries ≤ thread.maxCaliperUsed + 1 then .ok (some thread)
            else
              match thread.htab.enter key (thread.maxCaliperUsed + 1) with
              | none => .error (.hashFull key)
              | some htab =>
                  papiexStart cfg (some { thread with htab }) (thread.maxCaliperUsed + 1 : ℕ)
                    (some (functionLabel thisFn)) io

/-- `__cyg_profile_func_exit`. -/
def cygProfileFuncExit (cfg : Config) (papiexGccEnable : ℤ) (tls : Option PerthreadData)
    (thisFn : UInt64) (stack : Text) (io : Sampling) :
    Except LibpapiexError (Option PerthreadData) :=
  if papiexGccEnable = 0 then .ok tls
  else
    match tls with
    | none => .error .nullThreadData
    | some thread =>
        let key := keyOf thisFn stack
        match thread.htab.find key with
        | some point => papiexStop cfg (some thread) point io
        | none => .error (.functionNotFound key)

/-- One event of an instrumented program: entry into or exit from a function,
with what the key buffer of the hook held and what the caliper call samples. -/
inductive FuncEvent where
  | enter (thisFn : UInt64) (stack : Text) (io : Sampling)
  | exit (thisFn : UInt64) (stack : Text) (io : Sampling)

namespace FuncEvent

/-- Run the hook of an event. -/
def exec (cfg : Config) (papiexGccEnable : ℤ) (tls : Option PerthreadData) :
    FuncEvent → Except LibpapiexError (Option PerthreadData)
  | .enter thisFn stack io => cygProfileFuncEnter cfg papiexGccEnable tls thisFn stack io
  | .exit thisFn stack io => cygProfileFuncExit cfg papiexGccEnable tls thisFn stack io

/-- The event enters a function under this key. -/
def Enters (key : Text) : FuncEvent → Prop
  | .enter thisFn stack _ => keyOf thisFn stack = key
  | .exit _ _ _ => False

/-- The event exits from a function under this key. -/
def Exits (key : Text) : FuncEvent → Prop
  | .enter _ _ _ => False
  | .exit thisFn stack _ => keyOf thisFn stack = key

/-- The key of an entry. -/
def enteredKey : FuncEvent → Option Text
  | .enter thisFn stack _ => some (keyOf thisFn stack)
  | .exit _ _ _ => none

end FuncEvent

/-- Traces of complete calls: every call enters a function, runs a trace of
complete calls and exits from the same function. -/
inductive WellNested : List FuncEvent → Prop where
  | nil : WellNested []
  | call {inner rest : List FuncEvent} (thisFn : UInt64) (stack stack' : Text)
      (io io' : Sampling) (hinner : WellNested inner) (hrest : WellNested rest) :
      WellNested (.enter thisFn stack io :: inner ++ .exit thisFn stack' io' :: rest)

/-! ## What a trace may do -/

/-- The keys that have a point after the events: the first 31 distinct keys
entered, in the order of their first entry. -/
def mappedKeys (front : List FuncEvent) : List Text :=
  (front.filterMap FuncEvent.enteredKey).eraseDups.take (maxCalipers - 1)

/-- The last event under the key, other than a repeated one, was an entry. -/
def IsOpen (front : List FuncEvent) (key : Text) : Prop :=
  ∃ before event after, front = before ++ event :: after ∧ event.Enters key ∧
    ∀ later ∈ after, ¬ later.Exits key

/-- The hooks tolerate an event after these others: an entry must not be under a
mapped key that is open, and an exit must be under one that is. -/
def Tolerated (front : List FuncEvent) : FuncEvent → Prop
  | .enter thisFn stack _ =>
      ¬ (keyOf thisFn stack ∈ mappedKeys front ∧ IsOpen front (keyOf thisFn stack))
  | .exit thisFn stack _ =>
      keyOf thisFn stack ∈ mappedKeys front ∧ IsOpen front (keyOf thisFn stack)

theorem isOpen_concat_iff {front : List FuncEvent} {event : FuncEvent} {key : Text} :
    IsOpen (front ++ [event]) key ↔
      event.Enters key ∨ IsOpen front key ∧ ¬ event.Exits key := by
  constructor
  · rintro ⟨before, first, after, hsplit, henter, hafter⟩
    rcases List.eq_nil_or_concat after with rfl | ⟨after, last, rfl⟩
    · obtain ⟨-, hlast⟩ := List.append_inj' hsplit rfl
      cases hlast
      exact .inl henter
    · rw [List.concat_eq_append] at hsplit hafter
      rw [← List.cons_append, ← List.append_assoc] at hsplit
      obtain ⟨hfront, hlast⟩ := List.append_inj' hsplit rfl
      cases hlast
      refine .inr ⟨⟨before, first, after, hfront, henter, fun later hlater => ?_⟩, ?_⟩
      · exact hafter later (List.mem_append_left _ hlater)
      · exact hafter event (List.mem_append_right _ List.mem_cons_self)
  · rintro (henter | ⟨⟨before, first, after, rfl, henter, hafter⟩, hexit⟩)
    · exact ⟨front, event, [], rfl, henter, by simp⟩
    · refine ⟨before, first, after ++ [event], by simp, henter, fun later hlater => ?_⟩
      rcases List.mem_append.mp hlater with hin | hlast
      · exact hafter later hin
      · rw [List.mem_singleton.mp hlast]
        exact hexit

/-! ### Interning the first distinct keys -/

section Interning

variable {α : Type*} [BEq α] [LawfulBEq α] (keys : List α) (key : α) (bound : ℕ)

/-- One more key enters the first `bound` distinct ones if it is new and there is
room. -/
theorem take_eraseDups_concat :
    (keys ++ [key]).eraseDups.take bound =
      if key ∈ keys.eraseDups.take bound ∨ bound ≤ (keys.eraseDups.take bound).length then
        keys.eraseDups.take bound
      else keys.eraseDups.take bound ++ [key] := by
  rw [List.eraseDups_append]
  by_cases hmem : key ∈ keys
  · have hold : [key].removeAll keys = [] := by simp [List.removeAll, hmem]
    rw [hold, List.eraseDups_nil, List.append_nil]
    split
    · rfl
    · rename_i hnew
      push Not at hnew
      -- with room left the whole list of distinct keys was taken
      have hshort : keys.eraseDups.length ≤ bound := by
        have := hnew.2
        rw [List.length_take] at this
        omega
      rw [List.take_of_length_le hshort] at hnew
      exact absurd (List.mem_eraseDups.mpr hmem) hnew.1
  · have hnew : [key].removeAll keys = [key] := by simp [List.removeAll, hmem]
    have hsingle : [key].eraseDups = [key] := by simp [List.eraseDups_cons]
    rw [hnew, hsingle, List.take_append, List.length_take]
    have hnotin : key ∉ keys.eraseDups.take bound := fun h =>
      hmem (List.mem_eraseDups.mp (List.mem_of_mem_take h))
    by_cases hroom : keys.eraseDups.length < bound
    · rw [if_neg (by simp only [hnotin, false_or]; omega)]
      congr 1
      exact List.take_of_length_le (by simp only [List.length_singleton]; omega)
    · rw [if_pos (.inr (by omega)), Nat.sub_eq_zero_of_le (not_lt.mp hroom), List.take_zero,
        List.append_nil]

theorem lookup_zipIdx (start : ℕ) :
    (keys.zipIdx start).lookup key =
      if key ∈ keys then some (keys.idxOf key + start) else none := by
  induction keys generalizing start with
  | nil => rfl
  | cons head tail ih =>
      rw [List.zipIdx_cons, List.lookup_cons, ih]
      by_cases h : key = head
      · simp [h]
      · have hne : (key == head) = false := beq_eq_false_iff_ne.mpr h
        simp only [hne, List.mem_cons, h, false_or, List.idxOf_cons_ne tail (Ne.symm h)]
        split
        · congr 1
          omega
        · rfl

end Interning

variable {front : List FuncEvent} {thisFn : UInt64} {stack : Text} {io : Sampling}

/-- There are only so many points to give away. -/
theorem mappedKeys_length_le (front : List FuncEvent) :
    (mappedKeys front).length ≤ maxCalipers - 1 :=
  List.length_take_le _ _

theorem mappedKeys_concat_exit :
    mappedKeys (front ++ [.exit thisFn stack io]) = mappedKeys front := by
  unfold mappedKeys
  rw [List.filterMap_append]
  exact congrArg (fun keys => (List.eraseDups keys).take _) (List.append_nil _)

/-- A function that is entered for the first time gets the next point, if there is one. -/
theorem mappedKeys_concat_enter :
    mappedKeys (front ++ [.enter thisFn stack io]) =
      if keyOf thisFn stack ∈ mappedKeys front ∨
          maxCalipers - 1 ≤ (mappedKeys front).length then mappedKeys front
      else mappedKeys front ++ [keyOf thisFn stack] := by
  unfold mappedKeys
  rw [List.filterMap_append]
  exact take_eraseDups_concat _ _ _

/-! ## The thread mirrors the trace -/

/-- The depth of a point says whether its key is open. -/
def DepthSays (depth : ℤ) (opened : Prop) : Prop := opened ∧ depth = 1 ∨ ¬ opened ∧ depth = 0

/-- The depth of a record tells whether it is open. -/
theorem DepthSays.ne_zero_iff {depth : ℤ} {opened : Prop} (h : DepthSays depth opened) :
    depth ≠ 0 ↔ opened := by
  rcases h with ⟨hopen, hdepth⟩ | ⟨hclosed, hdepth⟩
  · simp [hopen, hdepth]
  · simp [hclosed, hdepth]

theorem DepthSays.congr {depth : ℤ} {opened opened' : Prop} (h : DepthSays depth opened)
    (hiff : opened' ↔ opened) : DepthSays depth opened' := by
  rw [DepthSays, hiff]
  exact h

/-- The record of the thread after a trace that was tolerated so far: the table
maps the mapped keys to the points 1, 2, … in order, and of these points exactly
those whose key is open have been started. -/
structure Mirrors (thread : PerthreadData) (front : List FuncEvent) : Prop where
  entries_eq : thread.htab.entries = (mappedKeys front).zipIdx 1
  size_eq : thread.htab.size = 0 ∧ mappedKeys front = [] ∨ thread.htab.size = maxCalipers
  maxCaliperUsed_eq : thread.maxCaliperUsed = (mappedKeys front).length
  maxCaliperEntries_eq : thread.maxCaliperEntries = maxCalipers
  mapped : ∀ key ∈ mappedKeys front,
    DepthSays (thread.data ((mappedKeys front).idxOf key + 1)).depth (IsOpen front key)
  unmapped : ∀ point, (mappedKeys front).length < point → (thread.data point).depth = 0

namespace Mirrors

variable {cfg : Config} {thread : PerthreadData} {gate : ℤ}

/-- The table of functions finds the point of a key. -/
theorem find_eq (h : Mirrors thread front) (key : Text) :
    thread.htab.find key =
      if key ∈ mappedKeys front then some ((mappedKeys front).idxOf key + 1) else none := by
  rw [HsearchData.find, h.entries_eq, lookup_zipIdx]

theorem point_lt (h : Mirrors thread front) {key : Text} (hkey : key ∈ mappedKeys front) :
    (mappedKeys front).idxOf key + 1 < thread.maxCaliperEntries := by
  have hidx := List.idxOf_lt_length_of_mem hkey
  have hlen := mappedKeys_length_le front
  have hmax : maxCalipers = 32 := rfl
  rw [h.maxCaliperEntries_eq]
  omega

/-- Creating the table changes nothing that is mirrored. -/
theorem create (h : Mirrors thread front) :
    Mirrors (if thread.htab.size = 0 then
      { thread with htab := .hcreate thread.maxCaliperEntries } else thread) front ∧
    (if thread.htab.size = 0 then
      { thread with htab := .hcreate thread.maxCaliperEntries } else thread).htab.size =
        maxCalipers := by
  by_cases hsize : thread.htab.size = 0
  · have hempty : mappedKeys front = [] := by
      rcases h.size_eq with ⟨-, hempty⟩ | hfull
      · exact hempty
      · rw [hsize] at hfull
        cases hfull
    rw [if_pos hsize]
    refine ⟨⟨?_, .inr h.maxCaliperEntries_eq, h.maxCaliperUsed_eq, h.maxCaliperEntries_eq,
      h.mapped, h.unmapped⟩, h.maxCaliperEntries_eq⟩
    rw [hempty]
    rfl
  · rw [if_neg hsize]
    exact ⟨h, h.size_eq.resolve_left fun hcreated => hsize hcreated.1⟩

/-- An update of the point of a mapped key that leaves it open exactly as the
extended trace does keeps the mirror. -/
theorem update (h : Mirrors thread front) {event : FuncEvent} {key : Text}
    (hsame : mappedKeys (front ++ [event]) = mappedKeys front) (hkey : key ∈ mappedKeys front)
    (hother : ∀ other, other ≠ key → (¬ event.Enters other ∧ ¬ event.Exits other))
    {thread' : PerthreadData} (hhtab : thread'.htab = thread.htab)
    (hused : thread'.maxCaliperUsed = thread.maxCaliperUsed)
    (hentries : thread'.maxCaliperEntries = thread.maxCaliperEntries)
    (hdata : ∀ point, point ≠ (mappedKeys front).idxOf key + 1 →
      thread'.data point = thread.data point)
    (hdepth : DepthSays (thread'.data ((mappedKeys front).idxOf key + 1)).depth
      (IsOpen (front ++ [event]) key)) :
    Mirrors thread' (front ++ [event]) where
  entries_eq := by rw [hhtab, hsame, h.entries_eq]
  size_eq := by rw [hhtab, hsame]; exact h.size_eq
  maxCaliperUsed_eq := by rw [hused, hsame, h.maxCaliperUsed_eq]
  maxCaliperEntries_eq := by rw [hentries, h.maxCaliperEntries_eq]
  mapped := by
    rw [hsame]
    intro other hmem
    by_cases heq : other = key
    · rw [heq]
      exact hdepth
    · have hidx : (mappedKeys front).idxOf other ≠ (mappedKeys front).idxOf key :=
        fun hidx => heq ((List.idxOf_inj hmem).mp hidx)
      rw [hdata _ (by omega)]
      refine (h.mapped other hmem).congr ?_
      rw [isOpen_concat_iff]
      simp [hother other heq]
  unmapped := by
    rw [hsame]
    intro point hpoint
    have hidx := List.idxOf_lt_length_of_mem hkey
    rw [hdata point (by omega)]
    exact h.unmapped point hpoint

/-- What the mirror says of one event: a tolerated one succeeds and keeps it, any
other ends in an error. -/
def Keeps (cfg : Config) (gate : ℤ) (thread : PerthreadData) (front : List FuncEvent)
    (event : FuncEvent) : Prop :=
  (Tolerated front event → ∃ thread', event.exec cfg gate (some thread) = .ok (some thread') ∧
      Mirrors thread' (front ++ [event])) ∧
    (¬ Tolerated front event → ∃ stop, event.exec cfg gate (some thread) = .error stop)

/-- Entry under a key that has a point. -/
theorem start_mapped (hev : cfg.eventcnt ≠ 0) (h : Mirrors thread front)
    (hkey : keyOf thisFn stack ∈ mappedKeys front)
    (hclosed : ¬ IsOpen front (keyOf thisFn stack)) :
    ∃ thread', papiexStart cfg (some thread)
        ((mappedKeys front).idxOf (keyOf thisFn stack) + 1 : ℕ) none io = .ok (some thread') ∧
      Mirrors thread' (front ++ [.enter thisFn stack io]) := by
  have hdepth : (thread.data ((mappedKeys front).idxOf (keyOf thisFn stack) + 1)).depth = 0 := by
    by_contra hopen
    exact hclosed ((h.mapped _ hkey).ne_zero_iff.mp hopen)
  refine ⟨_, papiexStart_of_closed hev (h.point_lt hkey) hdepth, ?_⟩
  refine h.update ?_ hkey (fun other hne => ⟨?_, id⟩) rfl ?_ rfl ?_ ?_
  · rw [mappedKeys_concat_enter, if_pos (.inl hkey)]
  · intro henter
    exact hne henter.symm
  · have hidx := List.idxOf_lt_length_of_mem hkey
    have hused := h.maxCaliperUsed_eq
    simp only [PerthreadData.startPoint]
    omega
  · intro point hne
    exact PerthreadData.setCaliper_data_of_ne _ _ _ _ hne
  · refine .inl ⟨isOpen_concat_iff.mpr (.inl rfl), ?_⟩
    simp [PerthreadData.startPoint, hdepth]

/-- Entry under a new key when the table is full. -/
theorem skip_full (h : Mirrors thread front) (hkey : keyOf thisFn stack ∉ mappedKeys front)
    (hfull : maxCalipers - 1 ≤ (mappedKeys front).length) :
    Mirrors thread (front ++ [.enter thisFn stack io]) := by
  have hsame : mappedKeys (front ++ [.enter thisFn stack io]) = mappedKeys front := by
    rw [mappedKeys_concat_enter, if_pos (.inr hfull)]
  refine ⟨?_, ?_, ?_, h.maxCaliperEntries_eq, ?_, ?_⟩
  · rw [hsame, h.entries_eq]
  · rw [hsame]
    exact h.size_eq
  · rw [hsame, h.maxCaliperUsed_eq]
  · rw [hsame]
    intro other hother
    have hne : keyOf thisFn stack ≠ other := fun heq => hkey (heq ▸ hother)
    refine (h.mapped other hother).congr ?_
    rw [isOpen_concat_iff]
    simp [FuncEvent.Enters, FuncEvent.Exits, hne]
  · rw [hsame]
    exact h.unmapped

/-- Entry under a new key when there is room: the key gets the next point. -/
theorem start_new (hev : cfg.eventcnt ≠ 0) (h : Mirrors thread front)
    (hsize : thread.htab.size = maxCalipers) (hkey : keyOf thisFn stack ∉ mappedKeys front)
    (hroom : (mappedKeys front).length < maxCalipers - 1) (label : Option Text) :
    ∃ htab thread', thread.htab.enter (keyOf thisFn stack) (thread.maxCaliperUsed + 1) =
        some htab ∧
      papiexStart cfg (some { thread with htab }) (thread.maxCaliperUsed + 1 : ℕ) label io =
        .ok (some thread') ∧
      Mirrors thread' (front ++ [.enter thisFn stack io]) := by
  have hmax : maxCalipers = 32 := rfl
  have hused := h.maxCaliperUsed_eq
  have hnew : mappedKeys (front ++ [.enter thisFn stack io]) =
      mappedKeys front ++ [keyOf thisFn stack] := by
    rw [mappedKeys_concat_enter, if_neg]
    rintro (hin | hfull)
    · exact hkey hin
    · omega
  have hentered : thread.htab.enter (keyOf thisFn stack) (thread.maxCaliperUsed + 1) =
      some { thread.htab with entries := thread.htab.entries ++
        [(keyOf thisFn stack, thread.maxCaliperUsed + 1)] } := by
    rw [HsearchData.enter, if_pos]
    rw [h.entries_eq, List.length_zipIdx, hsize]
    omega
  -- the next point is in the table and was never started
  have hlt : thread.maxCaliperUsed + 1 < thread.maxCaliperEntries := by
    rw [h.maxCaliperEntries_eq]
    omega
  have hclosed : (thread.data (thread.maxCaliperUsed + 1)).depth = 0 :=
    h.unmapped _ (by omega)
  refine ⟨_, _, hentered, papiexStart_of_closed hev hlt hclosed, ?_⟩
  constructor
  case size_eq => exact .inr hsize
  case maxCaliperEntries_eq => exact h.maxCaliperEntries_eq
  case entries_eq =>
    rw [hnew, List.zipIdx_append]
    simp [PerthreadData.startPoint, h.entries_eq, hused, Nat.add_comm]
  case maxCaliperUsed_eq =>
    rw [hnew, List.length_append, ← hused]
    simp [PerthreadData.startPoint]
  case mapped =>
    rw [hnew]
    intro other hother
    by_cases heq : other = keyOf thisFn stack
    · -- the new key: its point has just been opened
      rw [heq, List.idxOf_append_of_notMem hkey]
      refine .inl ⟨isOpen_concat_iff.mpr (.inl rfl), ?_⟩
      simp [PerthreadData.startPoint, ← hused, h.unmapped (thread.maxCaliperUsed + 1) (by omega)]
    · -- an older key has another point, and its calls are the same
      have hold : other ∈ mappedKeys front :=
        (List.mem_append.mp hother).resolve_right (by simpa using heq)
      have hidx := List.idxOf_lt_length_of_mem hold
      have hkeys : keyOf thisFn stack ≠ other := fun heq' => heq heq'.symm
      rw [List.idxOf_append_of_mem hold, PerthreadData.startPoint]
      simp only
      rw [PerthreadData.setCaliper_data_of_ne _ _ _ _ (by omega)]
      refine (h.mapped other hold).congr ?_
      rw [isOpen_concat_iff]
      simp [FuncEvent.Enters, FuncEvent.Exits, hkeys]
  case unmapped =>
    rw [hnew, List.length_append]
    intro point hpoint
    rw [List.length_singleton] at hpoint
    rw [PerthreadData.startPoint]
    simp only
    rw [PerthreadData.setCaliper_data_of_ne _ _ _ _ (by omega)]
    exact h.unmapped point (by omega)

/-- **An entry keeps the mirror or is fatal.** -/
theorem keeps_enter (hev : cfg.eventcnt ≠ 0) (hgate : gate ≠ 0) (h : Mirrors thread front) :
    Keeps cfg gate thread front (.enter thisFn stack io) := by
  obtain ⟨hmirror, hsize⟩ := h.create
  unfold Keeps FuncEvent.exec cygProfileFuncEnter
  simp only [hgate, if_false]
  generalize (if thread.htab.size = 0 then
      { thread with htab := .hcreate thread.maxCaliperEntries } else thread) = created
    at hmirror hsize ⊢
  rw [hmirror.find_eq]
  by_cases hkey : keyOf thisFn stack ∈ mappedKeys front
  · simp only [if_pos hkey]
    constructor
    · intro htolerated
      exact hmirror.start_mapped hev hkey fun hopen => htolerated ⟨hkey, hopen⟩
    · intro hnot
      have hopen := (hmirror.mapped _ hkey).ne_zero_iff.mpr (not_not.mp hnot).2
      exact ⟨_, papiexStart_of_open hev (hmirror.point_lt hkey) hopen⟩
  · simp only [if_neg hkey]
    have htolerated : Tolerated front (.enter thisFn stack io) := fun hmapped => hkey hmapped.1
    refine ⟨fun _ => ?_, fun hnot => absurd htolerated hnot⟩
    have hused := hmirror.maxCaliperUsed_eq
    have hentries := hmirror.maxCaliperEntries_eq
    have hmax : maxCalipers = 32 := rfl
    by_cases hfull : maxCalipers - 1 ≤ (mappedKeys front).length
    · rw [if_pos (by omega)]
      exact ⟨created, rfl, hmirror.skip_full hkey hfull⟩
    · obtain ⟨htab, thread', hentered, hstart, hkept⟩ := hmirror.start_new hev hsize hkey
        (not_le.mp hfull) (some (functionLabel thisFn))
      rw [if_neg (by omega), hentered]
      exact ⟨thread', hstart, hkept⟩

/-- **An exit keeps the mirror or is fatal.** -/
theorem keeps_exit (hev : cfg.eventcnt ≠ 0) (hgate : gate ≠ 0) (h : Mirrors thread front) :
    Keeps cfg gate thread front (.exit thisFn stack io) := by
  unfold Keeps FuncEvent.exec cygProfileFuncExit
  simp only [hgate, if_false]
  rw [h.find_eq]
  by_cases hkey : keyOf thisFn stack ∈ mappedKeys front
  · simp only [if_pos hkey]
    have hdepth := h.mapped _ hkey
    constructor
    · rintro ⟨-, hopen⟩
      have hone := hdepth.resolve_right fun hclosed => hclosed.1 hopen
      refine ⟨_, papiexStop_of_open hev (h.point_lt hkey) (hdepth.ne_zero_iff.mpr hopen), ?_⟩
      refine h.update mappedKeys_concat_exit hkey (fun other hne => ⟨id, ?_⟩) rfl rfl rfl ?_ ?_
      · intro hexit
        exact hne hexit.symm
      · intro point hne
        exact PerthreadData.setCaliper_data_of_ne _ _ _ _ hne
      · -- the depth was one, so the stop closes the point
        refine .inr ⟨?_, ?_⟩
        · rw [isOpen_concat_iff]
          simp [FuncEvent.Enters, FuncEvent.Exits]
        · simp [PerthreadData.stopPoint, hone.2]
    · intro hnot
      have hclosed : ¬ IsOpen front (keyOf thisFn stack) := fun hopen => hnot ⟨hkey, hopen⟩
      rw [← hdepth.ne_zero_iff, not_not] at hclosed
      exact ⟨_, papiexStop_of_closed hev (h.point_lt hkey) hclosed⟩
  · simp only [if_neg hkey]
    refine ⟨fun htolerated => absurd htolerated.1 hkey, fun _ => ⟨_, rfl⟩⟩

/-- **A tolerated event keeps the mirror, and any other stops with an error.** -/
theorem keeps (hev : cfg.eventcnt ≠ 0) (hgate : gate ≠ 0) (h : Mirrors thread front)
    (event : FuncEvent) : Keeps cfg gate thread front event := by
  cases event with
  | enter thisFn stack io => exact h.keeps_enter hev hgate
  | exit thisFn stack io => exact h.keeps_exit hev hgate

/-- A fresh thread mirrors the empty trace. -/
theorem initialised (cfg : Config) (stamp : ℤ) (io : Sampling) :
    Mirrors (.initialised cfg stamp io) [] where
  entries_eq := rfl
  size_eq := .inl ⟨rfl, rfl⟩
  maxCaliperUsed_eq := rfl
  maxCaliperEntries_eq := rfl
  mapped key hkey := absurd hkey List.not_mem_nil
  unmapped point hpoint := by
    rw [PerthreadData.initialised_data_of_pos cfg stamp io hpoint]

end Mirrors

/-! ## Which traces survive -/

/-- **The hooks survive a trace exactly when every event of it is tolerated.**
With the gate open and the thread initialised, no event of the trace reaches an
error branch if and only if no function is entered under a key that is mapped and
open, and every exit is under a key that is. -/
theorem gcc_hooks_survive_iff (fpOps fpIns : Bool) (settings : Config) (gate : ℤ)
    (hgate : gate ≠ 0) (stamp : ℤ) (io : Sampling) (trace : List FuncEvent) :
    FallibleRun.Survives
        (FuncEvent.exec (settings.withDefaultEvents fpOps fpIns) gate)
        (some (.initialised (settings.withDefaultEvents fpOps fpIns) stamp io)) trace ↔
      ∀ front event rest, trace = front ++ event :: rest → Tolerated front event := by
  have hev : (settings.withDefaultEvents fpOps fpIns).eventcnt ≠ 0 :=
    (Config.eventcnt_withDefaultEvents_pos fpOps fpIns settings).ne'
  refine FallibleRun.survives_iff_allowed_after
    (fun tls front => ∃ thread, tls = some thread ∧ Mirrors thread front) Tolerated ?_
    ⟨_, rfl, Mirrors.initialised (settings.withDefaultEvents fpOps fpIns) stamp io⟩
  rintro _ front event ⟨thread, rfl, hmirror⟩
  obtain ⟨hgood, hbad⟩ := hmirror.keeps hev hgate event
  refine ⟨fun htolerated => ?_, hbad⟩
  obtain ⟨thread', hexec, hkept⟩ := hgood htolerated
  exact ⟨_, hexec, thread', rfl, hkept⟩

/-! ### A recursive function -/

/-- A stack that held no NUL where the key buffers of the hooks are. -/
def dirtyStack : Text := List.replicate ultohexstrSz 'x'

/-- Two functions that follow each other, the second called from the first. -/
def nestedTrace : List FuncEvent :=
  [.enter 0x400500 dirtyStack (.ofReading 0), .enter 0x400600 dirtyStack (.ofReading 0),
    .exit 0x400600 dirtyStack (.ofReading 0), .exit 0x400500 dirtyStack (.ofReading 0)]

/-- A function that calls itself once. -/
def recursiveTrace : List FuncEvent :=
  [.enter 0x400500 dirtyStack (.ofReading 0), .enter 0x400500 dirtyStack (.ofReading 0),
    .exit 0x400500 dirtyStack (.ofReading 0), .exit 0x400500 dirtyStack (.ofReading 0)]

/-- A call of another function is tolerated. -/
theorem gcc_hooks_survive_nested :
    FallibleRun.Survives
        (FuncEvent.exec (plainSettings.withDefaultEvents true true) 1)
        (some (.initialised (plainSettings.withDefaultEvents true true) 0 (.ofReading 0)))
        nestedTrace ∧
      ∀ front event rest, nestedTrace = front ++ event :: rest → Tolerated front event := by
  have hsurvives : FallibleRun.Survives
      (FuncEvent.exec (plainSettings.withDefaultEvents true true) 1)
      (some (.initialised (plainSettings.withDefaultEvents true true) 0 (.ofReading 0)))
      nestedTrace := ⟨_, rfl⟩
  exact ⟨hsurvives, (gcc_hooks_survive_iff true true plainSettings 1 (by decide) 0
    (.ofReading 0) nestedTrace).mp hsurvives⟩

/-- **Recursion ends the program.**  The second entry starts the point of the
function again, which `papiex_start` reports as a fatal error. -/
theorem gcc_hooks_recursion_fatal :
    WellNested recursiveTrace ∧
      ¬ FallibleRun.Survives
        (FuncEvent.exec (plainSettings.withDefaultEvents true true) 1)
        (some (.initialised (plainSettings.withDefaultEvents true true) 0 (.ofReading 0)))
        recursiveTrace := by
  constructor
  · have hinner : WellNested
        ([.enter 0x400500 dirtyStack (.ofReading 0)] ++
          [.exit 0x400500 dirtyStack (.ofReading 0)]) :=
      .call 0x400500 dirtyStack dirtyStack (.ofReading 0) (.ofReading 0) .nil .nil
    exact .call 0x400500 dirtyStack dirtyStack (.ofReading 0) (.ofReading 0) hinner .nil
  · rw [FallibleRun.not_survives_iff]
    exact ⟨.pointAlreadyInUse 1, rfl⟩

end Papiex
