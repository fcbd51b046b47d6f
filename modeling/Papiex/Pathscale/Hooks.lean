import Papiex.Caliper.Gcc
import Papiex.Pathscale.Points

/-!
# The Pathscale hooks at run time

A compiled program unit calls `__profile_loop` when it enters a loop,
`__profile_loop_iter` after each iteration, and `__profile_call_entry` and
`__profile_call_exit` around a call.  The hooks start, accumulate and stop the
caliper points the initialisation gave the loops and the call sites.  Nothing
tells them that a loop is over, so its point stays open once it was entered.

As for the gcc hooks, what has to hold for no call of the library to be fatal is
said about the trace alone (`Tolerated`), and the arrays and the records of the
thread are shown to mirror it (`Mirrors`).

## Main results

* `Mirrors`: what a trace says of the arrays of points and of the points that are open.
* `keeps`: one hook keeps the mirror, or ends the program.
* `pathscale_hooks_survive_iff`: which traces a program survives.

## Design notes

An entry of an array is negative until its first use, when the hook turns it and gives the
point a label; so the sign of an entry tells whether its loop or call site was seen before.
The trace says the same, and `Mirrors` puts both side by side.  What a compiled program can
produce is a condition on traces (`Producible`): an array is initialised once, before its
hooks, and an iteration belongs to a loop that was entered.
-/

namespace Papiex

namespace Pathscale

variable {ι : Type*} [DecidableEq ι]

/-! ## The hooks -/

/-- Where a hook leaves the program: in an error of the library, or by reading
an entry of an array that was never written. -/
inductive HookStop where
  | fatal (error : LibpapiexError)
  | wildRead

/-- What the hooks of one thread work on: the arrays of the program units and the
record of the thread. -/
structure Instrumented (ι : Type*) where
  points : Points ι
  tls : Option PerthreadData

namespace Instrumented

/-- Go on after a call of the library. -/
def call (s : Instrumented ι) (result : Except LibpapiexError (Option PerthreadData)) :
    Except HookStop (Instrumented ι) :=
  match result with
  | .ok tls => .ok { s with tls }
  | .error error => .error (.fatal error)

/-- Write an entry of an array. -/
def write (s : Instrumented ι) (pu : ι) (kind : PointKind) (id : ℕ) (point : ℤ) :
    Instrumented ι :=
  { s with points := s.points.setArray pu kind ((s.points.array pu kind).write id point) }

/-- The two initialisations of a program unit.  The calipers they look at are those
of the thread. -/
def init (enable : ℕ) (request : Init ι) (s : Instrumented ι) :
    Except HookStop (Instrumented ι) :=
  if enable &&& request.kind.gate = 0 then .ok s
  else
    match s.tls with
    | none => .error (.fatal .nullThreadData)
    | some thread =>
        .ok { s with points := request.exec enable thread.maxCaliperEntries s.points }

end Instrumented

/-- `sprintf(label,"L%d:%p",loop_id,pc)`, or the same with a `C`. -/
def hookLabel (letter : Char) (id : ℕ) (pc : UInt64) : Text :=
  letter :: Nat.toDigits 10 id ++ functionLabel pc

/-- What `__profile_loop` and `__profile_call_entry` do.  An entry is negative until
its first use, which turns it over and labels the point. -/
def profileEnter (kind : PointKind) (letter : Char) (cfg : Config) (enable : ℕ) (pu : ι)
    (id : ℕ) (pc : UInt64) (io : Sampling) (s : Instrumented ι) :
    Except HookStop (Instrumented ι) :=
  if enable &&& kind.gate = 0 then .ok s
  else if (s.points.array pu kind).num ≤ id then .ok s
  else
    match (s.points.array pu kind).point? id with
    | none => .error .wildRead
    | some point =>
        if point < 0 then
          (s.write pu kind id (int32 (-point))).call
            (papiexStart cfg s.tls (int32 (-point)) (some (hookLabel letter id pc)) io)
        else s.call (papiexStart cfg s.tls point none io)

/-- What `__profile_loop_iter` and `__profile_call_exit` do: one call of the library
on the point as it stands in the array. -/
def profileUse (kind : PointKind)
    (use : Option PerthreadData → ℤ → Except LibpapiexError (Option PerthreadData))
    (enable : ℕ) (pu : ι) (id : ℕ) (s : Instrumented ι) : Except HookStop (Instrumented ι) :=
  if enable &&& kind.gate = 0 then .ok s
  else if (s.points.array pu kind).num ≤ id then .ok s
  else
    match (s.points.array pu kind).point? id with
    | none => .error .wildRead
    | some point => s.call (use s.tls point)

/-- `__profile_loop`. -/
def profileLoop (cfg : Config) (enable : ℕ) (pu : ι) (loopId : ℕ) (pc : UInt64)
    (io : Sampling) (s : Instrumented ι) : Except HookStop (Instrumented ι) :=
  profileEnter .loops 'L' cfg enable pu loopId pc io s

/-- `__profile_loop_iter`. -/
def profileLoopIter (cfg : Config) (enable : ℕ) (pu : ι) (loopId : ℕ) (io : Sampling)
    (s : Instrumented ι) : Except HookStop (Instrumented ι) :=
  profileUse .loops (fun tls point => papiexAccum cfg tls point io) enable pu loopId s

/-- `__profile_call_entry`. -/
def profileCallEntry (cfg : Config) (enable : ℕ) (pu : ι) (callId : ℕ) (pc : UInt64)
    (io : Sampling) (s : Instrumented ι) : Except HookStop (Instrumented ι) :=
  profileEnter .calls 'C' cfg enable pu callId pc io s

/-- `__profile_call_exit`. -/
def profileCallExit (cfg : Config) (enable : ℕ) (pu : ι) (callId : ℕ) (io : Sampling)
    (s : Instrumented ι) : Except HookStop (Instrumented ι) :=
  profileUse .calls (fun tls point => papiexStop cfg tls point io) enable pu callId s

/-- One hook of an instrumented program, with the return address it sees and what the
call of the library samples. -/
inductive HookEvent (ι : Type*) where
  | init (request : Init ι)
  | loop (pu : ι) (loopId : ℕ) (pc : UInt64) (io : Sampling)
  | loopIter (pu : ι) (loopId : ℕ) (io : Sampling)
  | callEntry (pu : ι) (callId : ℕ) (pc : UInt64) (io : Sampling)
  | callExit (pu : ι) (callId : ℕ) (io : Sampling)

namespace HookEvent

/-- Run the hook. -/
def exec (cfg : Config) (enable : ℕ) (s : Instrumented ι) :
    HookEvent ι → Except HookStop (Instrumented ι)
  | .init request => s.init enable request
  | .loop pu loopId pc io => profileLoop cfg enable pu loopId pc io s
  | .loopIter pu loopId io => profileLoopIter cfg enable pu loopId io s
  | .callEntry pu callId pc io => profileCallEntry cfg enable pu callId pc io s
  | .callExit pu callId io => profileCallExit cfg enable pu callId io s

/-- The initialisation of an event. -/
def init? : HookEvent ι → Option (Init ι)
  | .init request => some request
  | _ => none

/-- The calls that are active after an event, the innermost first. -/
def nest (active : List (ι × ℕ)) : HookEvent ι → List (ι × ℕ)
  | .callEntry pu callId _ _ => (pu, callId) :: active
  | .callExit _ _ _ => active.tail
  | _ => active

end HookEvent

/-! ## What a trace may do -/

/-- The initialisations of a trace. -/
def initsOf (front : List (HookEvent ι)) : List (Init ι) := front.filterMap HookEvent.init?

/-- The array of a unit was initialised. -/
def Initialised (front : List (HookEvent ι)) (pu : ι) (kind : PointKind) : Prop :=
  ∃ request ∈ initsOf front, request.pu = pu ∧ request.kind = kind

/-- The initialisations of the trace gave this entry a point. -/
def Measured (enable : ℕ) (front : List (HookEvent ι)) (pu : ι) (kind : PointKind)
    (id : ℕ) : Prop :=
  (id : ℤ) < ((runInits enable maxCalipers (initsOf front)).array pu kind).num

/-- The loop was entered before. -/
def Entered (front : List (HookEvent ι)) (pu : ι) (loopId : ℕ) : Prop :=
  ∃ pc io, HookEvent.loop pu loopId pc io ∈ front

/-- The calls that are active after a trace, the innermost first. -/
def callStack (front : List (HookEvent ι)) : List (ι × ℕ) := front.foldl HookEvent.nest []

/-- A compiled program can go on with this event.  An array is initialised at most
once, before the hooks that use it, and for fewer points than an `int` can number;
an iteration belongs to a loop that was entered; an exit belongs to the innermost
active call. -/
def Emitted (front : List (HookEvent ι)) : HookEvent ι → Prop
  | .init request =>
      ¬ Initialised front request.pu request.kind ∧ request.count + maxCalipers < 2 ^ 31
  | .loop pu _ _ _ => Initialised front pu .loops
  | .loopIter pu loopId _ => Entered front pu loopId
  | .callEntry pu _ _ _ => Initialised front pu .calls
  | .callExit pu callId _ => (callStack front).head? = some (pu, callId)

/-- The traces of a compiled program. -/
def Producible (trace : List (HookEvent ι)) : Prop :=
  ∀ front event rest, trace = front ++ event :: rest → Emitted front event

/-- The hooks tolerate an event after these others: a loop with a point must not have
been entered before, and a call site with a point must have no active call. -/
def Tolerated (enable : ℕ) (front : List (HookEvent ι)) : HookEvent ι → Prop
  | .loop pu loopId _ _ =>
      ¬ (Measured enable front pu .loops loopId ∧ Entered front pu loopId)
  | .callEntry pu callId _ _ =>
      ¬ (Measured enable front pu .calls callId ∧ (pu, callId) ∈ callStack front)
  | _ => True

/-! ### Traces grow -/

/-- The hooks consider a loop open from its first entry on, and a call site while it
has an active call. -/
def Active (front : List (HookEvent ι)) (pu : ι) : PointKind → ℕ → Prop
  | .loops, loopId => Entered front pu loopId
  | .calls, callId => (pu, callId) ∈ callStack front

variable {enable : ℕ} {front : List (HookEvent ι)}

omit [DecidableEq ι] in
theorem callStack_concat (event : HookEvent ι) :
    callStack (front ++ [event]) = event.nest (callStack front) := by
  rw [callStack, List.foldl_append]
  rfl

omit [DecidableEq ι] in
theorem initsOf_concat_init (request : Init ι) :
    initsOf (front ++ [.init request]) = initsOf front ++ [request] := by
  rw [initsOf, List.filterMap_append]
  rfl

/-- An initialisation is run on what those before it have left. -/
theorem runInits_concat_init (maxCaliperEntries : ℤ) (request : Init ι) :
    runInits enable maxCaliperEntries (initsOf (front ++ [.init request])) =
      request.exec enable maxCaliperEntries
        (runInits enable maxCaliperEntries (initsOf front)) := by
  rw [initsOf_concat_init, runInits, List.foldl_append]
  rfl

omit [DecidableEq ι] in
theorem initsOf_concat_of_none {event : HookEvent ι} (hnone : event.init? = none) :
    initsOf (front ++ [event]) = initsOf front := by
  have hevent : [event].filterMap HookEvent.init? = [] := by simp [hnone]
  rw [initsOf, List.filterMap_append, hevent, List.append_nil]
  rfl

omit [DecidableEq ι] in
theorem initialised_concat_init {request : Init ι} {pu : ι} {kind : PointKind} :
    Initialised (front ++ [.init request]) pu kind ↔
      Initialised front pu kind ∨ pu = request.pu ∧ kind = request.kind := by
  unfold Initialised
  rw [initsOf_concat_init]
  simp only [List.mem_append, List.mem_singleton, or_and_right, exists_or, exists_eq_left',
    eq_comm]

omit [DecidableEq ι] in
theorem entered_concat_iff {event : HookEvent ι} {pu : ι} {loopId : ℕ} :
    Entered (front ++ [event]) pu loopId ↔
      Entered front pu loopId ∨ ∃ pc io, event = .loop pu loopId pc io := by
  unfold Entered
  simp only [List.mem_append, List.mem_singleton, exists_or, eq_comm]

omit [DecidableEq ι] in
/-- Only the entry of a loop enters it. -/
theorem entered_concat_of_ne {event : HookEvent ι} {pu : ι} {loopId : ℕ}
    (hne : ∀ pc io, event ≠ .loop pu loopId pc io) :
    Entered (front ++ [event]) pu loopId ↔ Entered front pu loopId := by
  refine entered_concat_iff.trans (or_iff_left ?_)
  rintro ⟨pc, io, heq⟩
  exact hne pc io heq

/-- What one hook event on the entry `id` of an array changes in the trace: the
initialisations and the other entries stay as they are. -/
structure Frames (enable : ℕ) (front front' : List (HookEvent ι)) (pu : ι) (kind : PointKind)
    (id : ℕ) : Prop where
  inits : initsOf front' = initsOf front
  others : ∀ pu' kind' id', ¬ (pu' = pu ∧ kind' = kind ∧ id' = id) →
    (Active front' pu' kind' id' ↔ Active front pu' kind' id')
  initialised : Active front' pu kind id → Initialised front pu kind
  count_le_one : ∀ pu' id', Measured enable front pu' .calls id' →
    (callStack front').count (pu', id') ≤ 1

namespace Frames

variable {front' : List (HookEvent ι)} {pu pu' : ι} {kind kind' : PointKind} {id id' : ℕ}

/-- An event of a loop or a call initialises nothing. -/
theorem initialised_iff (h : Frames enable front front' pu kind id) :
    Initialised front' pu' kind' ↔ Initialised front pu' kind' := by
  rw [Initialised, Initialised, h.inits]

/-- What is active was initialised, also after the event. -/
theorem initialised_of_active (h : Frames enable front front' pu kind id)
    (hfront : ∀ pu' kind' id', Active front pu' kind' id' → Initialised front pu' kind')
    (hactive : Active front' pu' kind' id') : Initialised front' pu' kind' := by
  rw [h.initialised_iff]
  by_cases hslot : pu' = pu ∧ kind' = kind ∧ id' = id
  · obtain ⟨rfl, rfl, rfl⟩ := hslot
    exact h.initialised hactive
  · exact hfront _ _ _ ((h.others _ _ _ hslot).mp hactive)

/-- The limit on the active calls holds again. -/
theorem count_callStack_le (h : Frames enable front front' pu kind id)
    (hmeasured : Measured enable front' pu' .calls id') :
    (callStack front').count (pu', id') ≤ 1 := by
  rw [Measured, h.inits] at hmeasured
  exact h.count_le_one pu' id' hmeasured

end Frames

section Frames

variable {pu : ι} {id : ℕ} {pc : UInt64} {io : Sampling}

section

variable (hcount : ∀ pu' id', Measured enable front pu' .calls id' →
  (callStack front).count (pu', id') ≤ 1)

include hcount

theorem frames_loop (hinit : Initialised front pu .loops) :
    Frames enable front (front ++ [.loop pu id pc io]) pu .loops id where
  inits := initsOf_concat_of_none rfl
  others pu' kind' id' hne := by
    cases kind' with
    | loops =>
        refine entered_concat_of_ne fun pc' io' heq => ?_
        cases heq
        exact hne ⟨rfl, rfl, rfl⟩
    | calls => simp only [Active, callStack_concat, HookEvent.nest]
  initialised _ := hinit
  count_le_one pu' id' hmeasured := by
    rw [callStack_concat]
    exact hcount pu' id' hmeasured

theorem frames_loopIter (hinit : Initialised front pu .loops) :
    Frames enable front (front ++ [.loopIter pu id io]) pu .loops id where
  inits := initsOf_concat_of_none rfl
  others pu' kind' id' _ := by
    cases kind' with
    | loops => exact entered_concat_of_ne nofun
    | calls => simp only [Active, callStack_concat, HookEvent.nest]
  initialised _ := hinit
  count_le_one pu' id' hmeasured := by
    rw [callStack_concat]
    exact hcount pu' id' hmeasured

theorem frames_callEntry (hinit : Initialised front pu .calls)
    (hidle : Measured enable front pu .calls id → (pu, id) ∉ callStack front) :
    Frames enable front (front ++ [.callEntry pu id pc io]) pu .calls id where
  inits := initsOf_concat_of_none rfl
  others pu' kind' id' hne := by
    cases kind' with
    | loops => exact entered_concat_of_ne nofun
    | calls =>
        simp only [Active, callStack_concat, HookEvent.nest, List.mem_cons, Prod.mk.injEq]
        refine or_iff_right fun heq => hne ⟨heq.1, rfl, heq.2⟩
  initialised _ := hinit
  count_le_one pu' id' hmeasured := by
    rw [callStack_concat, HookEvent.nest]
    by_cases heq : (pu', id') = (pu, id)
    · obtain ⟨rfl, rfl⟩ := Prod.mk.inj heq
      rw [List.count_cons_self, List.count_eq_zero_of_not_mem (hidle hmeasured)]
    · rw [List.count_cons_of_ne (Ne.symm heq)]
      exact hcount pu' id' hmeasured

/-- Where the call on top of the stack is left all else stays. -/
theorem frames_callExit (hinit : Initialised front pu .calls)
    (hhead : (callStack front).head? = some (pu, id)) :
    Frames enable front (front ++ [.callExit pu id io]) pu .calls id where
  inits := initsOf_concat_of_none rfl
  others pu' kind' id' hne := by
    cases kind' with
    | loops => exact entered_concat_of_ne nofun
    | calls =>
        obtain ⟨outer, hstack⟩ := List.head?_eq_some_iff.mp hhead
        simp only [Active, callStack_concat, HookEvent.nest, hstack, List.tail_cons,
          List.mem_cons, Prod.mk.injEq]
        exact (or_iff_right fun heq => hne ⟨heq.1, rfl, heq.2⟩).symm
  initialised _ := hinit
  count_le_one pu' id' hmeasured := by
    rw [callStack_concat, HookEvent.nest]
    exact ((List.tail_sublist _).count_le _).trans (hcount pu' id' hmeasured)

end

/-- With at most one active call of the site, its exit leaves none. -/
theorem not_active_callExit
    (hcount : (callStack front).count (pu, id) ≤ 1)
    (hhead : (callStack front).head? = some (pu, id)) :
    ¬ Active (front ++ [.callExit pu id io]) pu .calls id := by
  obtain ⟨outer, hstack⟩ := List.head?_eq_some_iff.mp hhead
  rw [hstack, List.count_cons_self] at hcount
  simp only [Active, callStack_concat, HookEvent.nest, hstack, List.tail_cons]
  exact List.count_eq_zero.mp (by omega)

end Frames

/-! ## The thread mirrors the trace -/

/-- The arrays and the record of the thread after a trace that was tolerated so far.
The arrays are those the initialisations made, up to the signs of their entries; and
of the points in them exactly those the trace has left open have been started, and
their entries are positive. -/
structure Mirrors (enable : ℕ) (points : Points ι) (thread : PerthreadData)
    (front : List (HookEvent ι)) : Prop where
  totalPoints_eq :
    points.totalPoints = (runInits enable maxCalipers (initsOf front)).totalPoints
  num_eq : ∀ pu kind, (points.array pu kind).num =
    ((runInits enable maxCalipers (initsOf front)).array pu kind).num
  belowMark : BelowMark maxCalipers points
  totalPoints_le : points.totalPoints ≤ maxCalipers
  gated : ∀ pu kind, enable &&& kind.gate = 0 → (points.array pu kind).num = 0
  untouched : ∀ pu kind, ¬ Initialised front pu kind → (points.array pu kind).num = 0
  written : ∀ pu kind i, (∃ point, (points.array pu kind).point? i = some point) ↔
    (i : ℤ) < (points.array pu kind).num
  active_initialised : ∀ pu kind id, Active front pu kind id → Initialised front pu kind
  count_le_one : ∀ pu id, Measured enable front pu .calls id →
    (callStack front).count (pu, id) ≤ 1
  entries_eq : thread.maxCaliperEntries = maxCalipers
  depth : ∀ pu kind i point, (points.array pu kind).point? i = some point →
    DepthSays (thread.data point.natAbs).depth (Active front pu kind i)
  positive : ∀ pu kind i point, (points.array pu kind).point? i = some point →
    Active front pu kind i → 0 < point
  unused : ∀ point : ℕ, points.totalPoints ≤ point → (thread.data point).depth = 0

/-- The arrays after a hook has written the entry `id` of an array, or left it. -/
structure Rewrites (points points' : Points ι) (pu : ι) (kind : PointKind) (id : ℕ)
    (new : ℤ) : Prop where
  totalPoints_eq : points'.totalPoints = points.totalPoints
  num_eq : ∀ pu' kind', (points'.array pu' kind').num = (points.array pu' kind').num
  point?_eq : ∀ pu' kind' i, (points'.array pu' kind').point? i =
    if pu' = pu ∧ kind' = kind ∧ i = id then some new else (points.array pu' kind').point? i

theorem Rewrites.refl {points : Points ι} {pu : ι} {kind : PointKind} {id : ℕ} {old : ℤ}
    (hold : (points.array pu kind).point? id = some old) :
    Rewrites points points pu kind id old where
  totalPoints_eq := rfl
  num_eq _ _ := rfl
  point?_eq pu' kind' i := by
    split
    · rename_i hslot
      rw [hslot.1, hslot.2.1, hslot.2.2, hold]
    · rfl

/-- A write to the entry of a loop or a call rewrites it alone. -/
theorem Rewrites.of_write {points : Points ι} {pu : ι} {kind : PointKind} {id : ℕ} {old : ℤ}
    (hold : (points.array pu kind).point? id = some old) (new : ℤ) :
    Rewrites points (points.setArray pu kind ((points.array pu kind).write id new))
      pu kind id new where
  totalPoints_eq := rfl
  num_eq pu' kind' := by
    rw [Points.array_setArray]
    split
    · rename_i hslot
      rw [hslot.1, hslot.2]
      rfl
    · rfl
  point?_eq pu' kind' i := by
    rw [Points.array_setArray]
    by_cases hslot : pu' = pu ∧ kind' = kind
    · rw [if_pos hslot, PointArray.point?_write hold, hslot.1, hslot.2]
      simp
    · rw [if_neg hslot, if_neg fun hsame => hslot ⟨hsame.1, hsame.2.1⟩]

namespace Mirrors

variable {points points' : Points ι} {thread thread' : PerthreadData}
variable {front' : List (HookEvent ι)} {pu : ι} {kind : PointKind} {id : ℕ} {old new : ℤ}

/-- **The array has an entry exactly for what is measured.** -/
theorem measured_iff (h : Mirrors enable points thread front) :
    Measured enable front pu kind id ↔ (id : ℤ) < (points.array pu kind).num := by
  rw [h.num_eq]
  rfl

/-- The point of an entry is a caliper of the table. -/
theorem natAbs_lt (h : Mirrors enable points thread front)
    (hold : (points.array pu kind).point? id = some old) :
    0 < old.natAbs ∧ old.natAbs < thread.maxCaliperEntries ∧ old.natAbs < maxCalipers ∧
      (old.natAbs : ℤ) < points.totalPoints := by
  have hrange := h.belowMark.range pu kind id old hold
  have hbelow := h.belowMark.below pu kind id old hold
  rw [Int.abs_eq_natAbs] at hrange hbelow
  rw [h.entries_eq]
  omega

/-- What has a point is not the entry that has none. -/
theorem ne_of_unmeasured (h : Mirrors enable points thread front)
    (hunmeasured : ¬ Measured enable front pu kind id) {pu' : ι} {kind' : PointKind} {id' : ℕ}
    {point : ℤ} (hpoint : (points.array pu' kind').point? id' = some point) :
    ¬ (pu' = pu ∧ kind' = kind ∧ id' = id) := by
  rintro ⟨rfl, rfl, rfl⟩
  exact hunmeasured (h.measured_iff.mpr ((h.written _ _ _).mp ⟨point, hpoint⟩))

/-- An entry without a point may be entered and left at will. -/
theorem skip (h : Mirrors enable points thread front)
    (hframes : Frames enable front front' pu kind id)
    (hunmeasured : ¬ Measured enable front pu kind id) :
    Mirrors enable points thread front' where
  totalPoints_eq := by
    rw [hframes.inits]
    exact h.totalPoints_eq
  num_eq := by
    rw [hframes.inits]
    exact h.num_eq
  belowMark := h.belowMark
  totalPoints_le := h.totalPoints_le
  gated := h.gated
  untouched pu' kind' huninit := h.untouched pu' kind' (mt hframes.initialised_iff.mpr huninit)
  written := h.written
  active_initialised _ _ _ := hframes.initialised_of_active h.active_initialised
  count_le_one _ _ := hframes.count_callStack_le
  entries_eq := h.entries_eq
  depth pu' kind' i point hpoint :=
    (h.depth pu' kind' i point hpoint).congr
      (hframes.others _ _ _ (h.ne_of_unmeasured hunmeasured hpoint))
  positive pu' kind' i point hpoint hactive :=
    h.positive pu' kind' i point hpoint
      ((hframes.others _ _ _ (h.ne_of_unmeasured hunmeasured hpoint)).mp hactive)
  unused := h.unused

/-- A hook that keeps the point of an entry up to its sign, changes the record of that
point only and leaves it open exactly as the trace does, keeps the mirror. -/
theorem update (h : Mirrors enable points thread front)
    (hframes : Frames enable front front' pu kind id)
    (hold : (points.array pu kind).point? id = some old) (habs : new.natAbs = old.natAbs)
    (hpoints : Rewrites points points' pu kind id new)
    (hentries : thread'.maxCaliperEntries = thread.maxCaliperEntries)
    (hdata : ∀ other, other ≠ old.natAbs → thread'.data other = thread.data other)
    (hdepth : DepthSays (thread'.data old.natAbs).depth (Active front' pu kind id))
    (hpos : Active front' pu kind id → 0 < new) : Mirrors enable points' thread' front' where
  totalPoints_eq := by
    rw [hpoints.totalPoints_eq, hframes.inits]
    exact h.totalPoints_eq
  num_eq pu' kind' := by
    rw [hpoints.num_eq, hframes.inits]
    exact h.num_eq pu' kind'
  belowMark := by
    refine h.belowMark.of_abs hpoints.totalPoints_eq hpoints.num_eq fun pu' kind' i point hp => ?_
    rw [hpoints.point?_eq] at hp
    split at hp
    · rename_i hslot
      obtain ⟨rfl, rfl, rfl⟩ := hslot
      cases hp
      exact ⟨old, hold, by rw [Int.abs_eq_natAbs, Int.abs_eq_natAbs, habs]⟩
    · exact ⟨point, hp, rfl⟩
  totalPoints_le := by rw [hpoints.totalPoints_eq]; exact h.totalPoints_le
  gated pu' kind' hgate := by rw [hpoints.num_eq]; exact h.gated pu' kind' hgate
  untouched pu' kind' huninit := by
    rw [hpoints.num_eq]
    exact h.untouched pu' kind' (mt hframes.initialised_iff.mpr huninit)
  written pu' kind' i := by
    rw [hpoints.num_eq, hpoints.point?_eq, ← h.written]
    split
    · rename_i hslot
      obtain ⟨rfl, rfl, rfl⟩ := hslot
      simp [hold]
    · rfl
  active_initialised _ _ _ := hframes.initialised_of_active h.active_initialised
  count_le_one _ _ := hframes.count_callStack_le
  entries_eq := by rw [hentries, h.entries_eq]
  depth pu' kind' i point hp := by
    rw [hpoints.point?_eq] at hp
    split at hp
    · rename_i hslot
      obtain ⟨rfl, rfl, rfl⟩ := hslot
      cases hp
      rw [habs]
      exact hdepth
    · -- another entry has another point
      rename_i hslot
      have hne : point.natAbs ≠ old.natAbs := by
        intro heq
        refine hslot (h.belowMark.distinct _ _ _ _ _ _ _ _ hp hold ?_)
        rw [Int.abs_eq_natAbs, Int.abs_eq_natAbs, heq]
      rw [hdata _ hne]
      exact (h.depth _ _ _ _ hp).congr (hframes.others _ _ _ hslot)
  positive pu' kind' i point hp hactive := by
    rw [hpoints.point?_eq] at hp
    split at hp
    · rename_i hslot
      obtain ⟨rfl, rfl, rfl⟩ := hslot
      cases hp
      exact hpos hactive
    · rename_i hslot
      exact h.positive _ _ _ _ hp ((hframes.others _ _ _ hslot).mp hactive)
  unused point hpoint := by
    rw [hpoints.totalPoints_eq] at hpoint
    have hbelow := (h.natAbs_lt hold).2.2.2
    rw [hdata point (by omega)]
    exact h.unused point hpoint

/-! ### What a hook finds -/

/-- A hook that finds no point returns at once. -/
theorem closed_of_unmeasured (h : Mirrors enable points thread front)
    (hunmeasured : ¬ Measured enable front pu kind id) :
    enable &&& kind.gate = 0 ∨ (points.array pu kind).num ≤ id := by
  rw [h.measured_iff, not_lt] at hunmeasured
  exact .inr hunmeasured

/-- For an entry with a point the gate is open, and the entry is there. -/
theorem entry_of_measured (h : Mirrors enable points thread front)
    (hmeasured : Measured enable front pu kind id) :
    ¬ enable &&& kind.gate = 0 ∧ ¬ (points.array pu kind).num ≤ id ∧
      ∃ old, (points.array pu kind).point? id = some old := by
  have hlt := h.measured_iff.mp hmeasured
  refine ⟨fun hgate => ?_, not_le.mpr hlt, (h.written pu kind id).mpr hlt⟩
  have hnum := h.gated pu kind hgate
  omega

variable {cfg : Config} {letter : Char} {pc : UInt64} {io : Sampling}

/-- What the mirror says of one event: a tolerated one succeeds and keeps it, any
other ends in an error of the library. -/
def Keeps (cfg : Config) (enable : ℕ) (points : Points ι) (thread : PerthreadData)
    (front : List (HookEvent ι)) (event : HookEvent ι) : Prop :=
  (Tolerated enable front event → ∃ points' thread',
      event.exec cfg enable ⟨points, some thread⟩ = .ok ⟨points', some thread'⟩ ∧
        Mirrors enable points' thread' (front ++ [event])) ∧
    (¬ Tolerated enable front event → ∃ error,
      event.exec cfg enable ⟨points, some thread⟩ = .error (.fatal error))

/-- An entry that is not open is entered: its point is started and its sign is plus. -/
theorem enter (hev : cfg.eventcnt ≠ 0) (h : Mirrors enable points thread front)
    (hframes : Frames enable front front' pu kind id) (hactive : Active front' pu kind id)
    (hidle : ¬ (Measured enable front pu kind id ∧ Active front pu kind id)) :
    ∃ points' thread', profileEnter kind letter cfg enable pu id pc io ⟨points, some thread⟩ =
        .ok ⟨points', some thread'⟩ ∧ Mirrors enable points' thread' front' := by
  by_cases hmeasured : Measured enable front pu kind id
  · have hclosed : ¬ Active front pu kind id := fun hopen => hidle ⟨hmeasured, hopen⟩
    obtain ⟨hgate, hnum, old, hold⟩ := h.entry_of_measured hmeasured
    obtain ⟨hone, hentries, hmax, -⟩ := h.natAbs_lt hold
    have hmax' : maxCalipers = 32 := rfl
    have hdepth : (thread.data old.natAbs).depth = 0 := by
      by_contra hopen
      exact hclosed ((h.depth _ _ _ _ hold).ne_zero_iff.mp hopen)
    -- the start opens the point and touches no other
    have hstarted : ∀ label points' new, new.natAbs = old.natAbs → 0 < new →
        Rewrites points points' pu kind id new →
          Mirrors enable points' (thread.startPoint cfg old.natAbs label io) front' := by
      intro label points' new habs hpos hpoints
      refine h.update hframes hold habs hpoints rfl (fun other hne => ?_) ?_ fun _ => hpos
      · exact PerthreadData.setCaliper_data_of_ne _ _ _ _ hne
      · refine .inl ⟨hactive, ?_⟩
        simp [PerthreadData.startPoint, hdepth]
    unfold profileEnter
    simp only [hgate, hnum, hold, if_false]
    by_cases hneg : old < 0
    · have hflip : int32 (-old) = (old.natAbs : ℤ) := by
        rw [int32_of_range (by omega) (by omega)]
        omega
      rw [if_pos hneg, hflip, papiexStart_of_closed hev hentries hdepth]
      refine ⟨_, _, rfl, hstarted _ _ _ ?_ ?_ (.of_write hold _)⟩
      · exact Int.natAbs_natCast _
      · exact_mod_cast hone
    · have hkeep : old = (old.natAbs : ℤ) := by omega
      rw [if_neg hneg]
      refine ⟨points, thread.startPoint cfg old.natAbs none io, ?_,
        hstarted none points old rfl (by omega) (.refl hold)⟩
      rw [hkeep, papiexStart_of_closed hev hentries hdepth]
      rfl
  · refine ⟨points, thread, ?_, h.skip hframes hmeasured⟩
    unfold profileEnter
    rcases h.closed_of_unmeasured hmeasured with hgate | hnum
    · simp only [hgate, if_true]
    · simp only [hnum, if_true, ite_self]

/-- An entry whose point is open may not be entered. -/
theorem enter_fatal (hev : cfg.eventcnt ≠ 0) (h : Mirrors enable points thread front)
    (hmeasured : Measured enable front pu kind id) (hopen : Active front pu kind id) :
    ∃ error, profileEnter kind letter cfg enable pu id pc io ⟨points, some thread⟩ =
      .error (.fatal error) := by
  obtain ⟨hgate, hnum, old, hold⟩ := h.entry_of_measured hmeasured
  obtain ⟨-, hentries, -, -⟩ := h.natAbs_lt hold
  have hpos := h.positive _ _ _ _ hold hopen
  have hdepth := (h.depth _ _ _ _ hold).ne_zero_iff.mpr hopen
  have hkeep : old = (old.natAbs : ℤ) := by omega
  unfold profileEnter
  simp only [hgate, hnum, hold, if_false]
  rw [if_neg (by omega), hkeep, papiexStart_of_open hev hentries hdepth]
  exact ⟨_, rfl⟩

/-- The other two hooks on an entry that is open: the call of the library succeeds. -/
theorem use (h : Mirrors enable points thread front)
    (hframes : Frames enable front front' pu kind id) (hopen : Active front pu kind id)
    (call : Option PerthreadData → ℤ → Except LibpapiexError (Option PerthreadData))
    (hcall : ∀ point : ℕ, 0 < point → point < thread.maxCaliperEntries →
      (thread.data point).depth = 1 → (Measured enable front pu kind id) →
      ∃ thread', call (some thread) point = .ok (some thread') ∧
        thread'.maxCaliperEntries = thread.maxCaliperEntries ∧
        (∀ other, other ≠ point → thread'.data other = thread.data other) ∧
        DepthSays (thread'.data point).depth (Active front' pu kind id)) :
    ∃ points' thread', profileUse kind call enable pu id ⟨points, some thread⟩ =
        .ok ⟨points', some thread'⟩ ∧ Mirrors enable points' thread' front' := by
  by_cases hmeasured : Measured enable front pu kind id
  · obtain ⟨hgate, hnum, old, hold⟩ := h.entry_of_measured hmeasured
    obtain ⟨hone, hentries, -, -⟩ := h.natAbs_lt hold
    have hpos := h.positive _ _ _ _ hold hopen
    have hkeep : old = (old.natAbs : ℤ) := by omega
    have hdepth := ((h.depth _ _ _ _ hold).resolve_right fun hclosed => hclosed.1 hopen).2
    obtain ⟨thread', hdone, hsame, hdata, hdepth'⟩ := hcall _ hone hentries hdepth hmeasured
    refine ⟨points, thread', ?_,
      h.update hframes hold rfl (.refl hold) hsame hdata hdepth' fun _ => hpos⟩
    unfold profileUse
    simp only [hgate, hnum, hold, if_false]
    rw [hkeep, hdone]
    rfl
  · refine ⟨points, thread, ?_, h.skip hframes hmeasured⟩
    unfold profileUse
    rcases h.closed_of_unmeasured hmeasured with hgate | hnum
    · simp only [hgate, if_true]
    · simp only [hnum, if_true, ite_self]

/-! ### One event -/

omit [DecidableEq ι] in
/-- An initialisation opens and closes nothing. -/
theorem active_concat_init {request : Init ι} :
    Active (front ++ [.init request]) pu kind id ↔ Active front pu kind id := by
  cases kind with
  | loops => exact entered_concat_of_ne nofun
  | calls => simp only [Active, callStack_concat, HookEvent.nest]

/-- An array that was not initialised is empty. -/
theorem point?_eq_none (h : Mirrors enable points thread front)
    (hnew : ¬ Initialised front pu kind) (i : ℕ) : (points.array pu kind).point? i = none := by
  refine Option.eq_none_iff_forall_ne_some.mpr fun point hpoint => ?_
  have hlt := (h.written pu kind i).mp ⟨point, hpoint⟩
  rw [h.untouched pu kind hnew] at hlt
  omega

/-- The first initialisation of an array, granted or not, keeps the mirror. -/
theorem init (h : Mirrors enable points thread front) {request : Init ι}
    (hemitted : Emitted front (.init request)) :
    Mirrors enable (request.exec enable maxCalipers points) thread
      (front ++ [.init request]) := by
  obtain ⟨hnew, hcount⟩ := hemitted
  have hmax : maxCalipers = 32 := rfl
  have hle := h.totalPoints_le
  have hlt : points.totalPoints + request.count < 2 ^ 31 := by omega
  have hnum := h.untouched _ _ hnew
  obtain ⟨granted, hgranted, hgrants⟩ :=
    h.belowMark.exec_first enable hnum (h.point?_eq_none hnew) hlt
  -- the arrays differ from those of the initialisations alone in signs only
  obtain ⟨htotals, hnums⟩ := Init.exec_congr enable maxCalipers h.totalPoints_eq h.num_eq
    request
  have hidle : ∀ id, ¬ Active front request.pu request.kind id := fun id hactive =>
    hnew (h.active_initialised _ _ _ hactive)
  constructor
  case belowMark => exact h.belowMark.exec (.inr ⟨hnum, hlt⟩)
  case entries_eq => exact h.entries_eq
  case totalPoints_eq => rw [runInits_concat_init, htotals]
  case num_eq =>
    intro pu kind
    rw [runInits_concat_init, hnums]
  case totalPoints_le =>
    rw [hgrants.totalPoints_eq]
    rcases hgranted with rfl | ⟨-, hroom⟩
    · simpa using hle
    · exact hroom
  case gated =>
    intro pu kind hgate
    by_cases hslot : pu = request.pu ∧ kind = request.kind
    · obtain ⟨rfl, rfl⟩ := hslot
      rw [hgrants.num_eq]
      rcases hgranted with rfl | ⟨hopen, -⟩
      · rfl
      · exact absurd hgate hopen
    · rw [hgrants.array_of_ne _ _ hslot]
      exact h.gated pu kind hgate
  case untouched =>
    intro pu kind huninit
    obtain ⟨hbefore, hslot⟩ := not_or.mp (mt initialised_concat_init.mpr huninit)
    rw [hgrants.array_of_ne _ _ hslot]
    exact h.untouched pu kind hbefore
  case written =>
    intro pu kind i
    by_cases hslot : pu = request.pu ∧ kind = request.kind
    · obtain ⟨rfl, rfl⟩ := hslot
      rw [hgrants.num_eq, hgrants.point?_eq]
      by_cases hi : i < granted
      · simp [hi]
      · simp [hi]
    · rw [hgrants.array_of_ne _ _ hslot]
      exact h.written pu kind i
  case active_initialised =>
    intro pu kind id hactive
    exact initialised_concat_init.mpr
      (.inl (h.active_initialised _ _ _ (active_concat_init.mp hactive)))
  case count_le_one =>
    intro pu id hmeasured
    rw [callStack_concat]
    by_cases hslot : pu = request.pu ∧ PointKind.calls = request.kind
    · obtain ⟨rfl, hkind⟩ := hslot
      have hnone : (request.pu, id) ∉ callStack front := by
        have := hidle id
        rwa [← hkind] at this
      exact (List.count_eq_zero_of_not_mem hnone).le.trans zero_le_one
    · refine h.count_le_one pu id (h.measured_iff.mpr ?_)
      rw [Measured, runInits_concat_init, ← hnums, hgrants.array_of_ne _ _ hslot] at hmeasured
      exact hmeasured
  case depth =>
    intro pu kind i point hpoint
    rcases hgrants.new_or_old hpoint with ⟨⟨rfl, rfl⟩, -, rfl⟩ | hold
    · -- the new points are those from the mark on, which nobody has started
      refine .inr ⟨fun hactive => hidle i (active_concat_init.mp hactive), ?_⟩
      have hone := h.belowMark.one_le
      exact h.unused _ (by omega)
    · exact (h.depth _ _ _ _ hold).congr active_concat_init
  case positive =>
    intro pu kind i point hpoint hactive
    rcases hgrants.new_or_old hpoint with ⟨⟨rfl, rfl⟩, -⟩ | hold
    · exact absurd (active_concat_init.mp hactive) (hidle i)
    · exact h.positive _ _ _ _ hold (active_concat_init.mp hactive)
  case unused =>
    intro point hpoint
    rw [hgrants.totalPoints_eq] at hpoint
    exact h.unused point (by omega)

/-- **Every hook keeps the mirror or is fatal.** -/
theorem keeps (hev : cfg.eventcnt ≠ 0) (h : Mirrors enable points thread front)
    (event : HookEvent ι) (hemitted : Emitted front event) :
    Keeps cfg enable points thread front event := by
  cases event with
  | init request =>
      refine ⟨fun _ => ⟨_, thread, ?_, h.init hemitted⟩, fun hnot => absurd trivial hnot⟩
      rw [HookEvent.exec, Instrumented.init]
      split
      · rename_i hgate
        rw [Init.exec_eq, profileInit, if_pos hgate]
      · simp only [h.entries_eq]
  | loop pu loopId pc io =>
      have hframes : Frames enable front (front ++ [.loop pu loopId pc io]) pu .loops loopId :=
        frames_loop h.count_le_one hemitted
      constructor
      · intro htolerated
        exact h.enter hev hframes (entered_concat_iff.mpr (.inr ⟨pc, io, rfl⟩)) htolerated
      · intro hnot
        obtain ⟨hmeasured, hopen⟩ := not_not.mp hnot
        exact h.enter_fatal hev hmeasured hopen
  | callEntry pu callId pc io =>
      constructor
      · intro htolerated
        have hframes : Frames enable front (front ++ [.callEntry pu callId pc io]) pu .calls
            callId :=
          frames_callEntry h.count_le_one hemitted fun hmeasured hin =>
            htolerated ⟨hmeasured, hin⟩
        refine h.enter hev hframes ?_ htolerated
        rw [Active, callStack_concat]
        exact List.mem_cons_self
      · intro hnot
        obtain ⟨hmeasured, hopen⟩ := not_not.mp hnot
        exact h.enter_fatal hev hmeasured hopen
  | loopIter pu loopId io =>
      have hopen : Active front pu .loops loopId := hemitted
      have hframes : Frames enable front (front ++ [.loopIter pu loopId io]) pu .loops loopId :=
        frames_loopIter h.count_le_one (h.active_initialised _ _ _ hopen)
      refine ⟨fun _ => ?_, fun hnot => absurd trivial hnot⟩
      refine h.use hframes hopen (fun tls point => papiexAccum cfg tls point io)
        fun point hpos hlt hdepth _ => ?_
      refine ⟨_, papiexAccum_of_open hev hpos hlt (by omega), rfl, fun other hne => ?_, ?_⟩
      · exact PerthreadData.setCaliper_data_of_ne _ _ _ _ hne
      · refine .inl ⟨entered_concat_iff.mpr (.inl hopen), ?_⟩
        simp [PerthreadData.accumPoint, hdepth]
  | callExit pu callId io =>
      have hopen : Active front pu .calls callId := List.mem_of_mem_head? hemitted
      have hframes : Frames enable front (front ++ [.callExit pu callId io]) pu .calls callId :=
        frames_callExit h.count_le_one (h.active_initialised _ _ _ hopen) hemitted
      refine ⟨fun _ => ?_, fun hnot => absurd trivial hnot⟩
      refine h.use hframes hopen (fun tls point => papiexStop cfg tls point io)
        fun point hpos hlt hdepth hmeasured => ?_
      refine ⟨_, papiexStop_of_open hev hlt (by omega), rfl, fun other hne => ?_, ?_⟩
      · exact PerthreadData.setCaliper_data_of_ne _ _ _ _ hne
      · -- the depth was one, so the stop closes the point
        refine .inr ⟨not_active_callExit (h.count_le_one _ _ hmeasured) hemitted, ?_⟩
        simp [PerthreadData.stopPoint, hdepth]

/-- Before any hook, a fresh thread mirrors the empty trace. -/
theorem start (enable : ℕ) (cfg : Config) (stamp : ℤ) (io : Sampling) :
    Mirrors enable (Points.start : Points ι) (.initialised cfg stamp io) [] where
  totalPoints_eq := rfl
  num_eq _ _ := rfl
  belowMark := .start _
  totalPoints_le := by norm_num [Points.start, maxCalipers]
  gated pu kind _ := by simp [Points.array, Points.start]
  untouched pu kind _ := by simp [Points.array, Points.start]
  written pu kind i := by simp [Points.array, Points.start, PointArray.point?]
  active_initialised pu kind id hactive := by
    cases kind with
    | loops =>
        obtain ⟨pc, io, hmem⟩ := hactive
        cases hmem
    | calls => cases hactive
  count_le_one _ _ _ := zero_le_one
  entries_eq := rfl
  depth pu kind i point hpoint := by
    simp [Points.array, Points.start, PointArray.point?] at hpoint
  positive pu kind i point hpoint := by
    simp [Points.array, Points.start, PointArray.point?] at hpoint
  unused point hpoint := by
    have hpos : 0 < point := by
      simp only [Points.start] at hpoint
      omega
    rw [PerthreadData.initialised_data_of_pos cfg stamp io hpos]

end Mirrors

/-! ## Which traces end the program -/

/-- **The hooks end a program exactly when it comes back to a loop or recurs through a
call site.**  For any trace of a compiled program, with the thread initialised, no hook
reaches an error of the library if and only if no loop that has a point is entered a
second time and no call site that has one is entered while a call from it is active. -/
theorem pathscale_hooks_survive_iff (fpOps fpIns : Bool) (settings : Config) (enable : ℕ)
    (stamp : ℤ) (io : Sampling) (trace : List (HookEvent ι)) (htrace : Producible trace) :
    (∀ error, FallibleRun.run (HookEvent.exec (settings.withDefaultEvents fpOps fpIns) enable)
        ⟨Points.start, some (.initialised (settings.withDefaultEvents fpOps fpIns) stamp io)⟩
        trace ≠ .error (.fatal error)) ↔
      ∀ front event rest, trace = front ++ event :: rest → Tolerated enable front event := by
  have hev : (settings.withDefaultEvents fpOps fpIns).eventcnt ≠ 0 :=
    (Config.eventcnt_withDefaultEvents_pos fpOps fpIns settings).ne'
  have hstart : ∃ thread, (⟨Points.start, some (.initialised (settings.withDefaultEvents fpOps
      fpIns) stamp io)⟩ : Instrumented ι).tls = some thread ∧
        Mirrors enable (Points.start : Points ι) thread [] := ⟨_, rfl, .start enable _ stamp io⟩
  rw [← FallibleRun.never_bad_iff_allowed_after (fun stop => ∃ error, stop = HookStop.fatal error)
    (fun (s : Instrumented ι) front => ∃ thread, s.tls = some thread ∧
      Mirrors enable s.points thread front) Emitted (Tolerated enable) ?_ hstart htrace]
  · constructor
    · rintro hnever _ ⟨error, rfl⟩
      exact hnever error
    · intro hnever error
      exact hnever _ ⟨error, rfl⟩
  · rintro ⟨points, tls⟩ front event ⟨thread, rfl, hmirror⟩ hemitted
    obtain ⟨hgood, hbad⟩ := hmirror.keeps hev event hemitted
    refine ⟨fun htolerated => ?_, fun hnot => ?_⟩
    · obtain ⟨points', thread', hexec, hkept⟩ := hgood htolerated
      exact ⟨_, hexec, thread', rfl, hkept⟩
    · obtain ⟨error, hexec⟩ := hbad hnot
      exact ⟨_, ⟨error, rfl⟩, hexec⟩

/-! ### A loop that is entered twice -/

omit [DecidableEq ι] in
theorem producible_nil : Producible ([] : List (HookEvent ι)) := by
  intro front event rest hsplit
  exact absurd hsplit (by simp)

omit [DecidableEq ι] in
theorem producible_concat (event : HookEvent ι) (hfront : Producible front)
    (hevent : Emitted front event) : Producible (front ++ [event]) := by
  intro before other after hsplit
  rcases List.eq_nil_or_concat after with rfl | ⟨after, last, rfl⟩
  · obtain ⟨rfl, hlast⟩ := List.append_inj' hsplit rfl
    cases hlast
    exact hevent
  · rw [List.concat_eq_append, ← List.cons_append, ← List.append_assoc] at hsplit
    obtain ⟨hbefore, -⟩ := List.append_inj' hsplit rfl
    exact hfront before other after hbefore

/-- A unit with one loop, entered once and with one iteration. -/
def oneLoop : List (HookEvent Unit) :=
  [.init ⟨.loops, (), 1, true⟩, .loop () 0 0x400500 (.ofReading 0),
    .loopIter () 0 (.ofReading 0)]

theorem oneLoop_producible : Producible oneLoop := by
  have hinit : Producible ([] ++ [HookEvent.init (⟨.loops, (), 1, true⟩ : Init Unit)]) := by
    refine producible_concat _ producible_nil ⟨?_, by decide⟩
    rintro ⟨request, hmem, -⟩
    cases hmem
  have hloop := producible_concat (.loop () 0 0x400500 (.ofReading 0)) hinit
    ⟨⟨.loops, (), 1, true⟩, List.mem_cons_self, rfl, rfl⟩
  exact producible_concat (.loopIter () 0 (.ofReading 0)) hloop
    ⟨0x400500, .ofReading 0, List.mem_cons_of_mem _ List.mem_cons_self⟩

/-- The first entry into a loop and its iterations are fine. -/
theorem pathscale_hooks_survive_oneLoop :
    Producible oneLoop ∧
      (∀ error, FallibleRun.run (HookEvent.exec (plainSettings.withDefaultEvents true true) 3)
          ⟨Points.start,
            some (.initialised (plainSettings.withDefaultEvents true true) 0 (.ofReading 0))⟩
          oneLoop ≠ .error (.fatal error)) ∧
      ∀ front event rest, oneLoop = front ++ event :: rest → Tolerated 3 front event := by
  have hnever : ∀ error,
      FallibleRun.run (HookEvent.exec (plainSettings.withDefaultEvents true true) 3)
        ⟨Points.start,
          some (.initialised (plainSettings.withDefaultEvents true true) 0 (.ofReading 0))⟩
        oneLoop ≠ .error (.fatal error) := fun error heq => by cases heq
  exact ⟨oneLoop_producible, hnever, (pathscale_hooks_survive_iff true true plainSettings 3 0
    (.ofReading 0) oneLoop oneLoop_producible).mp hnever⟩

/-- **Coming back to a loop ends the program.**  Its point is still open from the first
time, and `papiex_start` reports that as a fatal error. -/
theorem pathscale_hooks_second_entry_fatal :
    Producible (oneLoop ++ [.loop () 0 0x400500 (.ofReading 0)]) ∧
      FallibleRun.run (HookEvent.exec (plainSettings.withDefaultEvents true true) 3)
          ⟨Points.start,
            some (.initialised (plainSettings.withDefaultEvents true true) 0 (.ofReading 0))⟩
          (oneLoop ++ [.loop () 0 0x400500 (.ofReading 0)]) =
        .error (.fatal (.pointAlreadyInUse 1)) :=
  ⟨producible_concat _ oneLoop_producible ⟨_, List.mem_cons_self, rfl, rfl⟩, rfl⟩

end Pathscale

end Papiex
