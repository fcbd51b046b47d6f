import Papiex.Monitor.Exit

/-!
# The callbacks of a thread

`monitor_fini_thread` is called where the thread ends, in the handler of the shootdown
signal, and in the shootdown for the thread that exits itself.  `tn_fini_started` is to make
sure that it is called once.  The flag is tested and then written, in two statements, so the
handler can come between them; in a run where it does not, the client hears of each thread's
start and then of its end, once each (`thread_callbacks_once`).

A thread that waits in `sigwait` gets the shootdown signal there, and
`monitor_sigwait_helper` makes the same tests and the call in place of the handler.  This
fourth call is not modelled: no thread of the model is in `sigwait`.

## Main results

* `ThreadPhase.In.of_self`, `ThreadPhase.In.of_other`: a move of the thread, and of another one.
* `thread_callbacks_once`: what the client hears of a thread.

## Design notes

The phases of a thread are what the client has been told of it.  A thread can be in the code
around its callback twice, in the handler and in what the handler has interrupted, so a
phase says which pairs of statements are possible (`ThreadPhase.Frames`).  A move of a thread
keeps its phase or takes it to the next one, and a move of another thread leaves it alone.
-/

namespace Papiex

open Interleaving

variable {ι : Type*}

/-- Where the thread is in the code around its `monitor_fini_thread`, the handler aside. -/
def ThreadPc.fini : ThreadPc ι → Option FiniPc
  | .cleanup statement => some statement
  | .exit (.own statement) => some statement
  | _ => none

/-- The tests are passed, and `tn_fini_started` is not written yet. -/
def FiniPc.InWindow : FiniPc → Prop
  | .testDone | .mark => True
  | _ => False

instance : DecidablePred FiniPc.InWindow := fun statement => by
  cases statement <;> unfold FiniPc.InWindow <;> infer_instance

/-- The statement the thread is at in the code around `monitor_fini_thread`, in the handler
or below it. -/
def MonitorThread.top (me : MonitorThread ι) : Option FiniPc := me.handler.or me.pc.fini

/-- The statement of that code which the handler has interrupted. -/
def MonitorThread.below (me : MonitorThread ι) : Option FiniPc :=
  if me.handler.isSome then me.pc.fini else none

section About

variable [DecidableEq ι]

/-- The callback tells the client of the start or of the end of this thread. -/
def MonitorCallback.IsAbout (t : ι) : MonitorCallback ι → Bool
  | .initThread u _ => u = t
  | .finiThread u _ => u = t
  | _ => false

/-- What the client was told of a thread. -/
def MonitorShared.about (shared : MonitorShared ι) (t : ι) : List (MonitorCallback ι) :=
  shared.callbacks.filter (MonitorCallback.IsAbout t)

variable {t u : ι} {shared after : MonitorShared ι} {callback : MonitorCallback ι}

theorem MonitorShared.about_call_of_isAbout (h : callback.IsAbout t = true) :
    (shared.call callback).about t = shared.about t ++ [callback] := by
  show (shared.callbacks ++ [callback]).filter _ = _
  rw [List.filter_append, List.filter_cons_of_pos h, List.filter_nil]
  rfl

theorem MonitorShared.about_call_of_not (h : callback.IsAbout t = false) :
    (shared.call callback).about t = shared.about t := by
  show (shared.callbacks ++ [callback]).filter _ = _
  rw [List.filter_append, List.filter_cons_of_neg (by simp [h]), List.filter_nil, List.append_nil]
  rfl

theorem MonitorShared.about_callThreadSupport (shared : MonitorShared ι) (t : ι) :
    shared.callThreadSupport.about t = shared.about t := by
  unfold callThreadSupport
  split
  · rfl
  · exact about_call_of_not rfl

theorem MonitorShared.about_create (shared : MonitorShared ι) (child t : ι) :
    (shared.create child).about t = shared.about t := by
  unfold create
  dsimp only
  split
  · exact about_callThreadSupport _ t
  · rfl

theorem MonitorShared.about_release (shared : MonitorShared ι) (t : ι) :
    shared.release.about t = shared.about t := by
  unfold release
  dsimp only
  split
  · exact about_callThreadSupport _ t
  · rfl

/-! ## What a move leaves alone -/

theorem MonitorShared.link_self : (shared.link t).node t = { tid := shared.threadNum + 1 } :=
  Function.update_self t _ _

theorem MonitorShared.setNode_self (tn : ThreadNode) : (shared.setNode t tn).node t = tn := by
  simp [setNode]

theorem MonitorShared.setNode_of_ne {tn : ThreadNode} (h : u ≠ t) :
    (shared.setNode t tn).node u = shared.node u := by
  simp [setNode, Function.update_of_ne h]

/-- The statements around `monitor_fini_thread` are about their own thread. -/
theorem FiniStep.others {α : Type*} {go : FiniPc → α} {leave finish next : α}
    {statement : FiniPc} (h : FiniStep t shared go leave finish statement next after)
    (hu : u ≠ t) : after.node u = shared.node u ∧ after.about u = shared.about u := by
  cases h with
  | marks | returns => exact ⟨MonitorShared.setNode_of_ne hu, rfl⟩
  | calls =>
      exact ⟨rfl, MonitorShared.about_call_of_not (by simp [MonitorCallback.IsAbout, hu.symm])⟩
  | _ => exact ⟨rfl, rfl⟩

/-- The same statement, seen from where the code is called. -/
theorem FiniStep.map {α β : Type*} {go : FiniPc → α} {leave finish next : α}
    {statement : FiniPc} (f : α → β)
    (h : FiniStep t shared go leave finish statement next after) :
    FiniStep t shared (fun statement => f (go statement)) (f leave) (f finish) statement
      (f next) after := by
  cases h with
  | skips hskip => exact .skips hskip
  | passes happl hfini => exact .passes happl hfini
  | tooLate hdone => exact .tooLate hdone
  | inTime hdone => exact .inTime hdone
  | marks => exact .marks
  | calls => exact .calls
  | returns => exact .returns

/-- **A move is about the thread that makes it.**  The nodes of the others stay as they
are, and the client is told nothing about them. -/
theorem MonitorStep.others {main : ι} {me next : MonitorThread ι} {move : ThreadMove ι}
    (h : MonitorStep main t me shared move next after) (hu : u ≠ t) :
    after.node u = shared.node u ∧ after.about u = shared.about u := by
  cases h with
  | handler hhandler hfini => exact hfini.others hu
  | statement hhandler hpc =>
      generalize me.pc = pc at hpc
      cases hpc with
      | links => exact ⟨Function.update_of_ne hu _ _, rfl⟩
      | callsInit =>
          exact ⟨rfl, MonitorShared.about_call_of_not (by simp [MonitorCallback.IsAbout, hu.symm])⟩
      | setsApplStarted | marksEnded => exact ⟨MonitorShared.setNode_of_ne hu, rfl⟩
      | unlinks => exact ⟨Function.update_of_ne hu _ _, rfl⟩
      | cleanup hfini => exact hfini.others hu
      | callsInitProcess => exact ⟨rfl, MonitorShared.about_call_of_not rfl⟩
      | releases =>
          refine ⟨?_, shared.about_release u⟩
          rw [MonitorShared.release_frame]
      | exits hexit =>
          cases hexit with
          | winsRace => exact ⟨Function.update_of_ne hu _ _, rfl⟩
          | begins | callsFiniProcess => exact ⟨rfl, MonitorShared.about_call_of_not rfl⟩
          | own hfini => exact hfini.others hu
          | _ => exact ⟨rfl, rfl⟩
      | starts | supported | polls | refused => exact ⟨rfl, rfl⟩
  | creates =>
      refine ⟨?_, shared.about_create _ u⟩
      rw [MonitorShared.create_frame]
  | blocks => exact ⟨MonitorShared.setNode_of_ne hu, rfl⟩
  | _ => exact ⟨rfl, rfl⟩

end About

/-! ## The phases of a thread -/

/-- What the client has been told of a thread, and what comes next. -/
inductive ThreadPhase where
  /-- Nothing. -/
  | fresh
  /-- Its start, and `tn_appl_started` is to be written. -/
  | initialised
  /-- Its start. -/
  | running
  /-- Its start, and its end is about to be told. -/
  | finishing
  /-- Its start and its end. -/
  | finished
  deriving DecidableEq

namespace ThreadPhase

/-- What the client has been told. -/
def callbacks (t : ι) (tid : ℕ) : ThreadPhase → List (MonitorCallback ι)
  | .fresh => []
  | .initialised | .running | .finishing => [.initThread t tid]
  | .finished => [.initThread t tid, .finiThread t tid]

/-- The flags of the node. -/
def Flags (tn : ThreadNode) : ThreadPhase → Prop
  | .fresh | .initialised =>
      tn.applStarted = false ∧ tn.finiStarted = false ∧ tn.finiDone = false
  | .running => tn.applStarted = true ∧ tn.finiStarted = false ∧ tn.finiDone = false
  | .finishing => tn.finiStarted = true ∧ tn.finiDone = false
  | .finished => tn.finiStarted = true

/-- Where the thread can be in the code around `monitor_fini_thread`. -/
def Frames (top below : Option FiniPc) : ThreadPhase → Prop
  | .fresh | .initialised => (top = none ∨ top = some .test) ∧ below = none
  | .running =>
      (top = none ∨ top = some .test ∨ top = some .testDone ∨ top = some .mark) ∧
        (below = none ∨ below = some .test)
  | .finishing =>
      (top = some .callback ∧ (below = none ∨ below = some .test)) ∨
        (top = some .test ∧ below = some .callback)
  | .finished =>
      (top = none ∨ top = some .test ∨ top = some .returns) ∧
        (below = none ∨ below = some .test ∨ below = some .returns)

/-- Where the thread can be. -/
def Place (main t : ι) (pc : ThreadPc ι) : ThreadPhase → Prop
  | .fresh => pc.fini = none ∧
      (t = main ∨ pc = .absent ∨ pc = .awaitSupport ∨ pc = .link ∨ pc = .refused ∨
        pc = .initThread)
  | .initialised => pc = .setApplStarted
  | .running | .finishing => t ≠ main ∧
      (pc = .running ∨ pc = .ended ∨ (∃ statement, pc = .cleanup statement) ∨
        ∃ statement, pc = .exit statement)
  | .finished => t ≠ main ∧
      (pc = .running ∨ pc = .ended ∨ pc = .unlink ∨ pc = .unlinked ∨
        (∃ statement, pc = .cleanup statement) ∨ ∃ statement, pc = .exit statement)

/-- The phase goes on, or the end is being told. -/
inductive Next : ThreadPhase → ThreadPhase → Prop
  | stays (phase : ThreadPhase) : Next phase phase
  | marks : Next .running .finishing
  | tells : Next .finishing .finished

end ThreadPhase

section Phases

variable [DecidableEq ι] {main t : ι} {me next : MonitorThread ι} {late : Bool}
variable {shared after : MonitorShared ι} {move : ThreadMove ι} {phase : ThreadPhase}

/-- Only a running thread, or one whose end is being told, is past the test. -/
theorem ThreadPhase.Frames.of_past {statement : FiniPc} {below : Option FiniPc}
    (h : phase.Frames (some statement) below) (hpast : statement ≠ .test) :
    phase = .running ∧ statement.InWindow ∧ (below = none ∨ below = some .test) ∨
      phase = .finishing ∧ statement = .callback ∧ (below = none ∨ below = some .test) ∨
      phase = .finished ∧ statement = .returns ∧
        (below = none ∨ below = some .test ∨ below = some .returns) := by
  cases phase with
  | fresh | initialised => simp [ThreadPhase.Frames, hpast] at h
  | running =>
      simp only [ThreadPhase.Frames, reduceCtorEq, Option.some.injEq, hpast, false_or] at h
      rcases h with ⟨rfl | rfl, hbelow⟩
      · exact .inl ⟨rfl, trivial, hbelow⟩
      · exact .inl ⟨rfl, trivial, hbelow⟩
  | finishing =>
      simp only [ThreadPhase.Frames, Option.some.injEq, hpast, false_and, or_false] at h
      exact .inr (.inl ⟨rfl, h.1, h.2⟩)
  | finished =>
      simp only [ThreadPhase.Frames, reduceCtorEq, Option.some.injEq, hpast, false_or] at h
      exact .inr (.inr ⟨rfl, h.1, h.2⟩)

/-- A thread that leaves the code at a test goes on with what it had interrupted. -/
theorem ThreadPhase.Frames.leave {below : Option FiniPc}
    (h : phase.Frames (some .test) below) : phase.Frames below none := by
  cases phase with
  | fresh | initialised => exact ⟨.inl h.2, rfl⟩
  | running => exact ⟨h.2.imp_right .inl, .inl rfl⟩
  | finishing =>
      rcases h with ⟨htop, -⟩ | ⟨-, hbelow⟩
      · cases htop
      · exact .inl ⟨hbelow, .inl rfl⟩
  | finished => exact ⟨h.2, .inl rfl⟩

/-- The statements around `monitor_fini_thread`: the phase goes on, and the thread is at
another statement of them, or back where it was. -/
theorem FiniStep.phase_next {α : Type*} {go : FiniPc → α} {leave finish next : α}
    {statement : FiniPc} {below : Option FiniPc}
    (h : FiniStep t shared go leave finish statement next after)
    (hflags : phase.Flags (shared.node t)) (hframes : phase.Frames (some statement) below)
    (habout : shared.about t = phase.callbacks t (shared.node t).tid) :
    ∃ phase', phase.Next phase' ∧ phase'.Flags (after.node t) ∧
      after.about t = phase'.callbacks t (after.node t).tid ∧
      ((∃ statement', next = go statement' ∧ phase'.Frames (some statement') below) ∨
        next = leave ∧ phase'.Frames below none ∨
        next = finish ∧ phase'.Frames below none ∧ phase' = .finished) := by
  cases h with
  | skips =>
      exact ⟨phase, .stays _, hflags, habout, .inr (.inl ⟨rfl, hframes.leave⟩)⟩
  | passes happl hfini =>
      have hphase : phase = .running := by
        cases phase <;> simp_all [ThreadPhase.Flags]
      subst hphase
      exact ⟨_, .stays _, hflags, habout, .inl ⟨_, rfl, .inr (.inr (.inl rfl)), hframes.2⟩⟩
  | tooLate | inTime =>
      rcases hframes.of_past nofun with ⟨rfl, -, hbelow⟩ | ⟨-, hnot, -⟩ | ⟨-, hnot, -⟩
      · first
          | exact ⟨_, .stays _, hflags, habout,
              .inl ⟨_, rfl, .inr (.inr (.inr rfl)), hbelow⟩⟩
          | exact ⟨_, .stays _, hflags, habout,
              .inr (.inl ⟨rfl, hbelow.imp_right .inl, .inl rfl⟩)⟩
      · cases hnot
      · cases hnot
  | marks =>
      rcases hframes.of_past nofun with ⟨rfl, -, hbelow⟩ | ⟨-, hnot, -⟩ | ⟨-, hnot, -⟩
      · refine ⟨.finishing, .marks, ?_, ?_, .inl ⟨_, rfl, .inl ⟨rfl, hbelow⟩⟩⟩
        · rw [MonitorShared.setNode_self]
          exact ⟨rfl, hflags.2.2⟩
        · rw [MonitorShared.setNode_self]
          exact habout
      · cases hnot
      · cases hnot
  | calls =>
      rcases hframes.of_past nofun with ⟨-, hnot, -⟩ | ⟨rfl, -, hbelow⟩ | ⟨-, hnot, -⟩
      · cases hnot
      · refine ⟨.finished, .tells, hflags.1, ?_,
          .inl ⟨_, rfl, .inr (.inr rfl), hbelow.imp_right .inl⟩⟩
        rw [MonitorShared.about_call_of_isAbout (by simp [MonitorCallback.IsAbout]), habout]
        rfl
      · cases hnot
  | returns =>
      rcases hframes.of_past nofun with ⟨-, hnot, -⟩ | ⟨-, hnot, -⟩ | ⟨rfl, -, hbelow⟩
      · cases hnot
      · cases hnot
      · refine ⟨.finished, .stays _, ?_, ?_, .inr (.inr ⟨rfl, ⟨hbelow, .inl rfl⟩, rfl⟩)⟩
        · rw [MonitorShared.setNode_self]
          exact hflags
        · rw [MonitorShared.setNode_self]
          exact habout

/-! ## The invariant -/

/-- The thread is in this phase. -/
structure ThreadPhase.In (main t : ι) (me : MonitorThread ι) (shared : MonitorShared ι)
    (phase : ThreadPhase) : Prop where
  place : phase.Place main t me.pc
  frames : phase.Frames me.top me.below
  idle : me.pc = .unlinked → me.handler = none
  flags : me.pc ≠ .unlinked → phase.Flags (shared.node t)
  about : ∃ tid, shared.about t = phase.callbacks t tid ∧
    (me.pc ≠ .unlinked → tid = (shared.node t).tid)

/-- A thread that does not move. -/
theorem ThreadPhase.In.of_other {u : ι} {other : MonitorThread ι} (hne : u ≠ t)
    (h : MonitorStep main t me shared move next after) (hu : phase.In main u other shared) :
    phase.In main u other after := by
  obtain ⟨hnode, habout⟩ := h.others hne
  exact ⟨hu.place, hu.frames, hu.idle, hnode ▸ hu.flags, hnode ▸ habout ▸ hu.about⟩

/-- A phase of a thread that has not been unlinked. -/
theorem ThreadPhase.In.of_linked (hplace : phase.Place main t me.pc)
    (hframes : phase.Frames me.top me.below) (hpc : me.pc ≠ .unlinked)
    (hflags : phase.Flags (shared.node t))
    (habout : shared.about t = phase.callbacks t (shared.node t).tid) :
    phase.In main t me shared :=
  ⟨hplace, hframes, fun h => absurd h hpc, fun _ => hflags, ⟨_, habout, fun _ => rfl⟩⟩

/-- A move within a phase, of a thread that is not in the code around
`monitor_fini_thread`. -/
theorem ThreadPhase.In.moves {pc : ThreadPc ι} (hme : phase.In main t me shared)
    (hhandler : me.handler = none) (hplace : phase.Place main t pc)
    (hfini : pc.fini = me.pc.fini) (hpc : me.pc ≠ .unlinked) (hnext : pc ≠ .unlinked)
    (hflags : phase.Flags (shared.node t) → phase.Flags (after.node t))
    (htid : (after.node t).tid = (shared.node t).tid) (habout : after.about t = shared.about t) :
    phase.In main t { pc := pc } after := by
  obtain ⟨tid, habout', htid'⟩ := hme.about
  refine .of_linked hplace ?_ hnext (hflags (hme.flags hpc)) ?_
  · have hframes := hme.frames
    simp only [MonitorThread.top, MonitorThread.below, hhandler, Option.none_or] at hframes ⊢
    rw [hfini]
    exact hframes
  · rw [habout, habout', htid' hpc, htid]

/-! ## The places of a phase -/

/-- The thread runs the application, or exits, but not in its own callback. -/
def ThreadPc.Live (pc : ThreadPc ι) : Prop :=
  pc.fini = none ∧ (pc = .running ∨ ∃ statement, pc = .exit statement)

/-- The application of the thread has not been told to start. -/
def ThreadPc.BeforeInit : ThreadPc ι → Prop
  | .absent | .awaitSupport | .link | .refused | .initThread | .initProcess | .release => True
  | _ => False

omit [DecidableEq ι]

/-- Before `monitor_init_thread` the client has heard nothing of a thread. -/
theorem ThreadPhase.Place.eq_fresh {pc : ThreadPc ι} (h : phase.Place main t pc)
    (hpc : pc.BeforeInit) : phase = .fresh := by
  cases phase with
  | fresh => rfl
  | initialised =>
      rw [show pc = .setApplStarted from h] at hpc
      cases hpc
  | running | finishing =>
      rcases h.2 with rfl | rfl | ⟨_, rfl⟩ | ⟨_, rfl⟩ <;> cases hpc
  | finished =>
      rcases h.2 with rfl | rfl | rfl | rfl | ⟨_, rfl⟩ | ⟨_, rfl⟩ <;> cases hpc

/-- A live thread may be at any live statement. -/
theorem ThreadPhase.Place.live {pc next : ThreadPc ι} (h : phase.Place main t pc)
    (hpc : pc.Live) (hnext : next.Live) : phase.Place main t next := by
  obtain ⟨-, hpc⟩ := hpc
  obtain ⟨hfini, hnext⟩ := hnext
  cases phase with
  | fresh =>
      refine ⟨hfini, h.2.imp_right fun hother => ?_⟩
      rcases hpc with rfl | ⟨_, rfl⟩ <;> simp at hother
  | initialised =>
      rw [show pc = .setApplStarted from h] at hpc
      rcases hpc with hpc | ⟨_, hpc⟩ <;> cases hpc
  | running | finishing =>
      exact ⟨h.1, hnext.elim .inl fun h => .inr (.inr (.inr h))⟩
  | finished =>
      exact ⟨h.1, hnext.elim .inl fun h => .inr (.inr (.inr (.inr (.inr h))))⟩

/-- A created thread in a phase in which it can be told of its end. -/
theorem ThreadPhase.Place.of_created {pc : ThreadPc ι} (hmain : t ≠ main)
    (hphase : phase = .running ∨ phase = .finishing ∨ phase = .finished)
    (hpc : pc = .ended ∨ (∃ statement, pc = .cleanup statement) ∨
      ∃ statement, pc = .exit statement) : phase.Place main t pc := by
  rcases hphase with rfl | rfl | rfl
  · exact ⟨hmain, .inr hpc⟩
  · exact ⟨hmain, .inr hpc⟩
  · refine ⟨hmain, .inr (hpc.imp_right fun h => .inr (.inr h))⟩

/-- A phase that has gone on allows for the same statements. -/
theorem ThreadPhase.Place.goesOn {phase' : ThreadPhase} {pc : ThreadPc ι}
    (h : phase.Place main t pc) (hnext : phase.Next phase') : phase'.Place main t pc := by
  cases hnext with
  | stays => exact h
  | marks => exact h
  | tells =>
      refine ⟨h.1, ?_⟩
      rcases h.2 with hpc | hpc | hpc
      · exact .inl hpc
      · exact .inr (.inl hpc)
      · exact .inr (.inr (.inr (.inr hpc)))

/-- A thread in the code around `monitor_fini_thread` has been told of its start. -/
theorem ThreadPhase.Place.told {pc : ThreadPc ι} {statement : FiniPc}
    (h : phase.Place main t pc) (hfini : pc.fini = some statement) :
    t ≠ main ∧ (phase = .running ∨ phase = .finishing ∨ phase = .finished) := by
  cases phase with
  | fresh =>
      rw [h.1] at hfini
      cases hfini
  | initialised =>
      rw [show pc = .setApplStarted from h] at hfini
      cases hfini
  | running => exact ⟨h.1, .inl rfl⟩
  | finishing => exact ⟨h.1, .inr (.inl rfl)⟩
  | finished => exact ⟨h.1, .inr (.inr rfl)⟩

/-- The phase goes by three flags of the node. -/
theorem ThreadPhase.Flags.of_eq {tn tn' : ThreadNode} (h : phase.Flags tn)
    (happl : tn'.applStarted = tn.applStarted) (hfini : tn'.finiStarted = tn.finiStarted)
    (hdone : tn'.finiDone = tn.finiDone) : phase.Flags tn' := by
  cases phase <;> simpa only [ThreadPhase.Flags, happl, hfini, hdone] using h

end Phases

/-! ## One move -/

section Step

variable [DecidableEq ι] {main t : ι} {me next : MonitorThread ι} {late : Bool}
variable {shared after : MonitorShared ι} {move : ThreadMove ι} {phase : ThreadPhase}

/-- The frames of a thread that is not in the handler. -/
theorem ThreadPhase.In.frames_of_none (hme : phase.In main t me shared)
    (hhandler : me.handler = none) : phase.Frames me.pc.fini none := by
  have hframes := hme.frames
  simpa only [MonitorThread.top, MonitorThread.below, hhandler, Option.none_or,
    Option.isSome_none, Bool.false_eq_true, if_false] using hframes

/-- What the client was told of a thread that is linked. -/
theorem ThreadPhase.In.about_of_linked (hme : phase.In main t me shared)
    (hpc : me.pc ≠ .unlinked) : shared.about t = phase.callbacks t (shared.node t).tid := by
  obtain ⟨tid, habout, htid⟩ := hme.about
  rw [habout, htid hpc]

/-- The thread is in the code around `monitor_fini_thread`, outside the handler. -/
theorem ThreadPhase.In.of_finiStep {pc : ThreadPc ι} {go : FiniPc → ThreadPc ι}
    {leave finish : ThreadPc ι} {statement : FiniPc} (hme : phase.In main t me shared)
    (hhandler : me.handler = none) (hfini : me.pc.fini = some statement)
    (h : FiniStep t shared go leave finish statement pc after)
    (hgo : ∀ statement', (go statement').fini = some statement' ∧
      ((∃ at', go statement' = .cleanup at') ∨ ∃ at', go statement' = .exit at'))
    (hleave : leave = .ended ∨ ∃ at', leave = .exit at' ∧ leave.fini = none)
    (hfinish : finish = .unlink ∨ ∃ at', finish = .exit at' ∧ finish.fini = none) :
    ∃ phase' : ThreadPhase, phase'.In main t { pc := pc } after := by
  have hpc : me.pc ≠ .unlinked := fun heq => by
    rw [heq] at hfini
    cases hfini
  have hframes := hme.frames_of_none hhandler
  rw [hfini] at hframes
  obtain ⟨phase', hnext, hflags, habout, hplace⟩ :=
    h.phase_next (hme.flags hpc) hframes (hme.about_of_linked hpc)
  obtain ⟨hmain, hphase⟩ := hme.place.told hfini
  have hphase' : phase' = .running ∨ phase' = .finishing ∨ phase' = .finished := by
    cases hnext with
    | stays => exact hphase
    | marks => exact .inr (.inl rfl)
    | tells => exact .inr (.inr rfl)
  refine ⟨phase', ?_⟩
  rcases hplace with ⟨statement', rfl, hframes'⟩ | ⟨rfl, hframes'⟩ | ⟨rfl, hframes', hdone⟩
  · obtain ⟨hfini', hpc'⟩ := hgo statement'
    refine .of_linked (.of_created hmain hphase' (.inr hpc')) ?_ ?_ hflags habout
    · simpa only [MonitorThread.top, MonitorThread.below, hfini', Option.none_or,
        Option.isSome_none, Bool.false_eq_true, if_false] using hframes'
    · rcases hpc' with ⟨_, heq⟩ | ⟨_, heq⟩ <;> simp [heq]
  · have hfini' : pc.fini = none := by
      rcases hleave with rfl | ⟨_, -, h⟩
      · rfl
      · exact h
    refine .of_linked (.of_created hmain hphase' ?_) ?_ ?_ hflags habout
    · rcases hleave with h | ⟨at', h, -⟩
      · exact .inl h
      · exact .inr (.inr ⟨at', h⟩)
    · simpa only [MonitorThread.top, MonitorThread.below, hfini', Option.none_or,
        Option.isSome_none, Bool.false_eq_true, if_false] using hframes'
    · rcases hleave with rfl | ⟨_, rfl, -⟩ <;> simp
  · subst hdone
    have hfini' : pc.fini = none := by
      rcases hfinish with rfl | ⟨_, -, h⟩
      · rfl
      · exact h
    refine .of_linked ⟨hmain, ?_⟩ ?_ ?_ hflags habout
    · rcases hfinish with h | ⟨at', h, -⟩
      · exact .inr (.inr (.inl h))
      · exact .inr (.inr (.inr (.inr (.inr ⟨at', h⟩))))
    · simpa only [MonitorThread.top, MonitorThread.below, hfini', Option.none_or,
        Option.isSome_none, Bool.false_eq_true, if_false] using hframes'
    · rcases hfinish with rfl | ⟨_, rfl, -⟩ <;> simp

/-- A statement of `monitor_end_process_fcn`. -/
theorem ThreadPhase.In.of_exitStep {statement at' : ExitPc ι} (hme : phase.In main t me shared)
    (hlist : ListOk main t me shared) (hhandler : me.handler = none)
    (hpc : me.pc = .exit statement) (h : ExitStep t late shared statement at' after) :
    ∃ phase' : ThreadPhase, phase'.In main t { pc := .exit at' } after := by
  have hlinked : me.pc ≠ .unlinked := by simp [hpc]
  -- outside its own callback the phase stays as it is
  have hmoves : (ThreadPc.exit statement).fini = none → (ThreadPc.exit at').fini = none →
      (after.node t).applStarted = (shared.node t).applStarted →
      (after.node t).finiStarted = (shared.node t).finiStarted →
      (after.node t).finiDone = (shared.node t).finiDone →
      (after.node t).tid = (shared.node t).tid → after.about t = shared.about t →
        ∃ phase' : ThreadPhase, phase'.In main t { pc := .exit at' } after := by
    intro hfini hfini' happl hstarted hdone htid habout
    refine ⟨phase, hme.moves hhandler ?_ (by rw [hpc, hfini, hfini']) hlinked nofun
      (fun h => h.of_eq happl hstarted hdone) htid habout⟩
    exact hme.place.live (hpc ▸ ⟨hfini, .inr ⟨_, rfl⟩⟩) ⟨hfini', .inr ⟨_, rfl⟩⟩
  cases h with
  | own hfini =>
      exact hme.of_finiStep hhandler (by rw [hpc]; rfl) (hfini.map ThreadPc.exit)
        (fun statement' => ⟨rfl, .inr ⟨_, rfl⟩⟩) (.inr ⟨_, rfl, rfl⟩) (.inr ⟨_, rfl, rfl⟩)
  | ownLeft hfini =>
      have hmem := (hlist.exit _ hpc).own rfl
      have hmain := (hlist.mem.mp hmem).1
      have hframes := hme.frames_of_none hhandler
      have hflags := hme.flags hlinked
      have hplace := hme.place
      rw [hpc] at hframes hplace
      cases phase with
      | fresh => exact absurd hplace.2 (by simp [hmain])
      | initialised => cases hplace
      | running =>
          exact ⟨.running, .of_linked ⟨hmain, .inr (.inr (.inr ⟨_, rfl⟩))⟩
            ⟨.inr (.inr (.inr rfl)), .inl rfl⟩ nofun hflags (hme.about_of_linked hlinked)⟩
      | finishing => rcases hframes with ⟨h, -⟩ | ⟨h, -⟩ <;> cases h
      | finished =>
          rw [show (shared.node t).finiStarted = true from hflags] at hfini
          cases hfini
  | winsRace =>
      have hnode := shared.setNode_self (t := t) { shared.node t with exitWin := true }
      exact hmoves rfl rfl (congrArg (·.applStarted) hnode) (congrArg (·.finiStarted) hnode)
        (congrArg (·.finiDone) hnode) (congrArg (·.tid) hnode) rfl
  | begins | callsFiniProcess =>
      exact hmoves rfl rfl rfl rfl rfl rfl (MonitorShared.about_call_of_not rfl)
  | _ => exact hmoves rfl rfl rfl rfl rfl rfl rfl

/-- A statement outside the handler. -/
theorem ThreadPhase.In.of_threadStep {pc : ThreadPc ι} (hme : phase.In main t me shared)
    (hlist : ListOk main t me shared) (hhandler : me.handler = none)
    (h : ThreadStep t late shared me.pc pc after) :
    ∃ phase' : ThreadPhase, phase'.In main t { pc := pc } after := by
  generalize hpc : me.pc = before at h
  have hlinked : before ≠ .unlinked → me.pc ≠ .unlinked := fun hne => hpc ▸ hne
  have hplace := hme.place
  have hofMain := hlist.ofMain
  rw [hpc] at hplace hofMain
  -- nothing has been told yet
  have hfresh : before.BeforeInit → before.fini = none → pc.fini = none → pc ≠ .unlinked →
      (t = main ∨ pc = .absent ∨ pc = .awaitSupport ∨ pc = .link ∨ pc = .refused ∨
        pc = .initThread) → after.node t = shared.node t → after.about t = shared.about t →
        ∃ phase' : ThreadPhase, phase'.In main t { pc := pc } after := by
    intro hbefore hfini hfini' hne hpc' hnode habout
    have hphase := hplace.eq_fresh hbefore
    subst hphase
    have hstays : before ≠ .unlinked := by rintro rfl; cases hbefore
    exact ⟨.fresh, hme.moves hhandler ⟨hfini', hpc'⟩ (by rw [hpc, hfini, hfini'])
      (hlinked hstays) hne (fun h => hnode ▸ h) (congrArg (·.tid) hnode) habout⟩
  cases h with
  | starts => exact hfresh trivial rfl rfl nofun (by simp) rfl rfl
  | supported => exact hfresh trivial rfl rfl nofun (by simp) rfl rfl
  | polls => exact hfresh trivial rfl rfl nofun (by simp) rfl rfl
  | refused => exact hfresh trivial rfl rfl nofun (by simp) rfl rfl
  | links =>
      have hphase := hplace.eq_fresh trivial
      subst hphase
      refine ⟨.fresh, .of_linked ⟨rfl, by simp⟩ ⟨.inl rfl, rfl⟩ nofun ?_ ?_⟩
      · rw [MonitorShared.link_self]
        exact ⟨rfl, rfl, rfl⟩
      · exact (hme.about_of_linked (hlinked nofun)).trans rfl
  | callsInit =>
      have hphase := hplace.eq_fresh trivial
      subst hphase
      refine ⟨.initialised, .of_linked rfl ⟨.inl rfl, rfl⟩ nofun (hme.flags (hlinked nofun)) ?_⟩
      rw [MonitorShared.about_call_of_isAbout (by simp [MonitorCallback.IsAbout]),
        hme.about_of_linked (hlinked nofun)]
      rfl
  | setsApplStarted =>
      have hmain : t ≠ main := fun hmain => hofMain hmain
      have hphase : phase = .initialised := by
        cases phase <;> simp [ThreadPhase.Place, hmain] at hplace ⊢
      subst hphase
      have hflags := hme.flags (hlinked nofun)
      refine ⟨.running, .of_linked ⟨hmain, .inl rfl⟩ ⟨.inl rfl, .inl rfl⟩ nofun ?_ ?_⟩
      · rw [MonitorShared.setNode_self]
        exact ⟨rfl, hflags.2⟩
      · rw [MonitorShared.setNode_self]
        exact hme.about_of_linked (hlinked nofun)
  | cleanup hfini =>
      exact hme.of_finiStep hhandler (by rw [hpc]; rfl) hfini
        (fun statement' => ⟨rfl, .inl ⟨_, rfl⟩⟩) (.inl rfl) (.inl rfl)
  | marksEnded =>
      have hmain : t ≠ main := fun hmain => hofMain hmain
      have hphase : phase = .finished := by
        cases phase <;> simp [ThreadPhase.Place, hmain] at hplace ⊢
      subst hphase
      refine ⟨.finished, .of_linked ⟨hmain, .inr (.inl rfl)⟩ ⟨.inl rfl, .inl rfl⟩ nofun ?_ ?_⟩
      · rw [MonitorShared.setNode_self]
        rfl
      · rw [MonitorShared.setNode_self]
        exact hme.about_of_linked (hlinked nofun)
  | unlinks =>
      have hmain : t ≠ main := fun hmain => hofMain hmain
      have hphase : phase = .finished := by
        cases phase <;> simp [ThreadPhase.Place, hmain] at hplace ⊢
      subst hphase
      exact ⟨.finished, ⟨hmain, .inr (.inr (.inr (.inl rfl)))⟩, ⟨.inl rfl, .inl rfl⟩,
        fun _ => rfl, fun h => absurd rfl h,
        ⟨_, hme.about_of_linked (hlinked nofun), fun h => absurd rfl h⟩⟩
  | callsInitProcess =>
      have hmain : t = main := not_not.mp fun hne => by
        have hcreated := hlist.ofCreated hne
        rw [hpc] at hcreated
        exact hcreated
      exact hfresh trivial rfl rfl nofun (.inl hmain) rfl (MonitorShared.about_call_of_not rfl)
  | releases =>
      have hmain : t = main := not_not.mp fun hne => by
        have hcreated := hlist.ofCreated hne
        rw [hpc] at hcreated
        exact hcreated
      refine hfresh trivial rfl rfl nofun (.inl hmain) ?_ (shared.about_release t)
      rw [MonitorShared.release_frame]
  | exits hexit => exact hme.of_exitStep hlist hhandler hpc hexit

/-- The thread that moves.  No shootdown signal comes between the tests and the mark. -/
theorem ThreadPhase.In.of_self (hme : phase.In main t me shared)
    (hlist : ListOk main t me shared) (h : MonitorStep main t me shared move next after)
    (hwindow : move = .deliver → ∀ statement, me.pc.fini = some statement →
      ¬ statement.InWindow) :
    ∃ phase' : ThreadPhase, phase'.In main t next after := by
  cases h with
  | @handler _ statement _ _ hhandler hfini =>
      have hpc : me.pc ≠ .unlinked := fun heq => by
        rw [hme.idle heq] at hhandler
        cases hhandler
      have hframes := hme.frames
      simp only [MonitorThread.top, MonitorThread.below, hhandler, Option.some_or,
        Option.isSome_some, if_true] at hframes
      obtain ⟨phase', hnext, hflags, habout, hplace⟩ :=
        hfini.phase_next (hme.flags hpc) hframes (hme.about_of_linked hpc)
      have hplace' := hme.place.goesOn hnext
      refine ⟨phase', ?_⟩
      rcases hplace with ⟨statement', rfl, hframes'⟩ | ⟨rfl, hframes'⟩ | ⟨rfl, hframes', -⟩
      all_goals exact .of_linked hplace' hframes' hpc hflags habout
  | statement hhandler hpc => exact hme.of_threadStep hlist hhandler hpc
  | delivers hhandler halive =>
      have hpc : me.pc ≠ .unlinked := fun heq => by
        rw [heq] at halive
        exact halive
      have hframes := hme.frames_of_none hhandler
      refine ⟨phase, .of_linked hme.place ?_ hpc (hme.flags hpc) (hme.about_of_linked hpc)⟩
      show phase.Frames (some .test) me.pc.fini
      have hplace := hme.place
      have hnot := hwindow rfl
      cases phase with
      | fresh => exact ⟨.inr rfl, hplace.1⟩
      | initialised =>
          rw [show me.pc = .setApplStarted from hplace]
          exact ⟨.inr rfl, rfl⟩
      | running =>
          rcases hframes.1 with h | h | h | h
          · exact ⟨.inr (.inl rfl), .inl h⟩
          · exact ⟨.inr (.inl rfl), .inr h⟩
          · exact absurd trivial (hnot _ h)
          · exact absurd trivial (hnot _ h)
      | finishing =>
          rcases hframes with ⟨h, -⟩ | ⟨-, h⟩
          · exact .inr ⟨rfl, h⟩
          · cases h
      | finished => exact ⟨.inr (.inl rfl), hframes.1⟩
  | @creates child =>
      obtain ⟨tid, habout, htid⟩ := hme.about
      have hnode : (shared.create child).node = shared.node := by
        rw [MonitorShared.create_frame]
      refine ⟨phase, hme.place, hme.frames, hme.idle, hnode ▸ hme.flags, tid, ?_, hnode ▸ htid⟩
      rw [shared.about_create, habout]
  | finishes hhandler hpc hmain =>
      have hframes := hme.frames_of_none hhandler
      have hplace := hme.place
      have hlinked : me.pc ≠ .unlinked := by simp [hpc]
      rw [hpc] at hframes hplace
      have hphase : phase = .running ∨ phase = .finished := by
        cases phase <;> simp [ThreadPhase.Place, ThreadPhase.Frames, ThreadPc.fini, hmain]
          at hplace hframes ⊢
      refine ⟨phase, .of_linked (.of_created hmain ?_ (.inr (.inl ⟨_, rfl⟩))) ?_ nofun
        (hme.flags hlinked) (hme.about_of_linked hlinked)⟩
      · exact hphase.imp_right .inr
      · rcases hphase with rfl | rfl
        · exact ⟨.inr (.inl rfl), .inl rfl⟩
        · exact ⟨.inr (.inl rfl), .inl rfl⟩
  | exits hhandler hpc =>
      have hlive : me.pc.Live := by
        rcases hpc with hpc | hpc
        · rw [hpc]
          exact ⟨rfl, .inl rfl⟩
        · rw [hpc]
          exact ⟨rfl, .inr ⟨_, rfl⟩⟩
      refine ⟨phase, hme.moves hhandler (hme.place.live hlive ⟨rfl, .inr ⟨_, rfl⟩⟩)
        hlive.1.symm ?_ nofun id rfl rfl⟩
      rcases hpc with hpc | hpc <;> simp [hpc]
  | execFails hhandler hpc =>
      have hlive : me.pc.Live := by
        rw [hpc]
        exact ⟨rfl, .inr ⟨_, rfl⟩⟩
      exact ⟨phase, hme.moves hhandler (hme.place.live hlive ⟨rfl, .inl rfl⟩) hlive.1.symm
        (by simp [hpc]) nofun id rfl rfl⟩
  | blocks hhandler hpc =>
      have hlinked : me.pc ≠ .unlinked := by simp [hpc]
      have habout := hme.about_of_linked hlinked
      refine ⟨phase, .of_linked hme.place hme.frames hlinked ?_ ?_⟩
      · rw [MonitorShared.setNode_self]
        exact (hme.flags hlinked).of_eq rfl rfl rfl
      · rw [MonitorShared.setNode_self]
        exact habout

/-! ## Runs -/

/-- The shootdown signal does not come between the tests and the mark. -/
def OutsideWindow (s : State ι (MonitorThread ι) (MonitorShared ι)) (event : ι × ThreadMove ι) :
    Prop :=
  event.2 = .deliver → ∀ statement, (s.locals event.1).pc.fini = some statement →
    ¬ statement.InWindow

instance (s : State ι (MonitorThread ι) (MonitorShared ι)) (event : ι × ThreadMove ι) :
    Decidable (OutsideWindow s event) :=
  have (found : Option FiniPc) :
      Decidable (∀ statement, found = some statement → ¬ statement.InWindow) :=
    decidable_of_iff (∀ statement ∈ found, ¬ statement.InWindow) Iff.rfl
  inferInstanceAs (Decidable (event.2 = .deliver → ∀ statement,
    (s.locals event.1).pc.fini = some statement → ¬ statement.InWindow))

/-- Each thread is in a phase, and the list is as it has to be. -/
structure CallbackInvariant (main : ι) (s : State ι (MonitorThread ι) (MonitorShared ι)) :
    Prop where
  list : ListInvariant main s
  phase : ∀ t, ∃ phase : ThreadPhase, phase.In main t (s.locals t) s.shared

/-- **One move keeps the invariant.** -/
theorem CallbackInvariant.step {before after : State ι (MonitorThread ι) (MonitorShared ι)}
    {event : ι × ThreadMove ι} (houtside : OutsideWindow before event)
    (hstep : (monitorThreads main).step before event = some after)
    (h : CallbackInvariant main before) : CallbackInvariant main after := by
  have hlist := h.list.step hstep
  obtain ⟨t, move⟩ := event
  obtain ⟨me, shared, hact, rfl⟩ := Choices.step_eq_some_iff.mp hstep
  have hmove := monitorStep_of_threadMove hact
  refine ⟨hlist, Choices.forall_update (P := fun u thread shared =>
    ∃ phase : ThreadPhase, phase.In main u thread shared) ?_ fun u hne => ?_⟩
  · obtain ⟨phase, hphase⟩ := h.phase t
    exact hphase.of_self (h.list.threads t) hmove houtside
  · exact (h.phase u).imp fun phase hphase => hphase.of_other hne hmove

theorem callbackInvariant_initial (main : ι) :
    CallbackInvariant main (monitorInitial main) where
  list := listInvariant_initial main
  phase t := by
    refine ⟨.fresh, .of_linked ?_ ⟨.inl ?_, rfl⟩ ?_ ⟨rfl, rfl, rfl⟩ rfl⟩
    all_goals
      unfold monitorInitial
      by_cases hmain : t = main <;>
        simp [hmain, ThreadPhase.Place, ThreadPc.fini, MonitorThread.top]

/-- **The phases of the threads, in every run outside the window.** -/
theorem callbackInvariant_of_run {events : List (ι × ThreadMove ι)}
    {s : State ι (MonitorThread ι) (MonitorShared ι)}
    (houtside : (monitorThreads main).Meets OutsideWindow (monitorInitial main) events)
    (hrun : (monitorThreads main).run (monitorInitial main) events = some s) :
    CallbackInvariant main s :=
  Choices.run_invariant_of_meets (fun _ _ _ houtside hstep h => h.step houtside hstep)
    (callbackInvariant_initial main) houtside hrun

/-- **The client hears of a thread once.**  In every run in which no shootdown signal comes
between the tests and the mark, whatever else happens, the client is told of a thread
nothing, or its start, or its start and then its end, with the same number. -/
theorem thread_callbacks_once {events : List (ι × ThreadMove ι)}
    {s : State ι (MonitorThread ι) (MonitorShared ι)}
    (houtside : (monitorThreads main).Meets OutsideWindow (monitorInitial main) events)
    (hrun : (monitorThreads main).run (monitorInitial main) events = some s) (t : ι) :
    ∃ tid, s.shared.about t = [] ∨ s.shared.about t = [.initThread t tid] ∨
      s.shared.about t = [.initThread t tid, .finiThread t tid] := by
  obtain ⟨phase, hphase⟩ := (callbackInvariant_of_run houtside hrun).phase t
  obtain ⟨tid, habout, -⟩ := hphase.about
  refine ⟨tid, ?_⟩
  cases phase with
  | fresh => exact .inl habout
  | initialised | running | finishing => exact .inr (.inl habout)
  | finished => exact .inr (.inr habout)

end Step

/-- The signal comes after the tests of a thread that ends, and the client is told of its
end twice. -/
def signalInWindow : List (ℕ × ThreadMove ℕ) :=
  let go (t n : ℕ) : List (ℕ × ThreadMove ℕ) := List.replicate n (t, .statement false)
  go 0 2 ++ [(0, .create 1)] ++ go 1 5 ++ [(1, .finish)] ++ go 1 1 ++ [(0, .exit)] ++ go 0 6 ++
    [(1, .deliver)] ++ go 1 8

example : ∃ s, (monitorThreads 0).run (monitorInitial 0) signalInWindow = some s ∧
    s.shared.about 1 = [.initThread 1 1, .finiThread 1 1, .finiThread 1 1] :=
  ⟨_, rfl, by decide⟩

/-- The race of two threads for the exit. -/
theorem thread_callbacks_once_of_race : ∃ s,
    (monitorThreads 0).run (monitorInitial 0) exitRace = some s ∧
      s.shared.about 1 ≠ [] ∧
      ∃ tid, s.shared.about 1 = [] ∨ s.shared.about 1 = [.initThread 1 tid] ∨
        s.shared.about 1 = [.initThread 1 tid, .finiThread 1 tid] := by
  have houtside : (monitorThreads 0).Meets OutsideWindow (monitorInitial 0) exitRace := by
    decide
  have hruns : ∃ s, (monitorThreads 0).run (monitorInitial 0) exitRace = some s ∧
      s.shared.about 1 ≠ [] := ⟨_, rfl, by decide⟩
  obtain ⟨s, hrun, hsome⟩ := hruns
  exact ⟨s, hrun, hsome, thread_callbacks_once houtside hrun 1⟩

end Papiex
