import Papiex.Monitor.ThreadList

/-!
# The race to exit

Any thread may call `exit` or an `exec` function, several of them at once and some of
them twice.  The first one to change `monitor_end_process_cookie` makes the callback
`monitor_fini_process`; the others poll until it has.  So the callback is made once, and
no thread is back in the system's `exit` before (`fini_process_once`).

## Main results

* `RacePhase`: how far the race has come; `RacePhase.In.step` takes it on by one move.
* `fini_process_once`: `monitor_fini_process` is called once.

## Design notes

The race is over the value of `monitor_end_process_cookie`; whoever changed it is the only
one that gets to the callback.  A winner that calls `exit` again, behind an `exec` function
that failed, finds `tn_exit_win` and does not wait.  The invariant is one of three phases of
the whole process, and not one of each thread.
-/

namespace Papiex

open Interleaving

variable {ι : Type*}

/-- The thread won the race, and has not made the callback `monitor_fini_process` yet. -/
def ExitPc.BeforeFini : ExitPc ι → Prop
  | .swapCookie | .setProcessDone | .awaitProcess | .resumed => False
  | _ => True

/-- The same of a thread. -/
def ThreadPc.BeforeFini : ThreadPc ι → Prop
  | .exit statement => statement.BeforeFini
  | _ => False

/-- The thread is past its callback, or past the wait for it. -/
def ThreadPc.PastFini : ThreadPc ι → Prop
  | .exit .setProcessDone | .exit .resumed => True
  | _ => False

/-- The callback is `monitor_fini_process`. -/
def MonitorCallback.IsFiniProcess : MonitorCallback ι → Bool
  | .finiProcess _ _ => true
  | _ => false

/-- How many times `monitor_fini_process` has been called. -/
def MonitorShared.finiProcessCount (shared : MonitorShared ι) : ℕ :=
  shared.callbacks.countP MonitorCallback.IsFiniProcess

section Count

variable (shared : MonitorShared ι)

theorem MonitorShared.finiProcessCount_call (callback : MonitorCallback ι) :
    (shared.call callback).finiProcessCount =
      shared.finiProcessCount + if callback.IsFiniProcess then 1 else 0 := by
  show (shared.callbacks ++ [callback]).countP _ = _
  rw [List.countP_append, List.countP_singleton]
  rfl

theorem MonitorShared.finiProcessCount_callThreadSupport :
    shared.callThreadSupport.finiProcessCount = shared.finiProcessCount := by
  unfold callThreadSupport
  split
  · rfl
  · exact shared.finiProcessCount_call .initThreadSupport

theorem MonitorShared.finiProcessCount_create [DecidableEq ι] (child : ι) :
    (shared.create child).finiProcessCount = shared.finiProcessCount := by
  unfold create
  dsimp only
  split
  · exact finiProcessCount_callThreadSupport _
  · rfl

theorem MonitorShared.finiProcessCount_release :
    shared.release.finiProcessCount = shared.finiProcessCount := by
  unfold release
  dsimp only
  split
  · exact finiProcessCount_callThreadSupport _
  · rfl

end Count

/-! ## What a move does to the race -/

section Race

variable [DecidableEq ι] {main t : ι} {me next : MonitorThread ι}
variable {late : Bool} {shared after : MonitorShared ι} {move : ThreadMove ι}

/-- What a move does to what the race is about: the place of the thread, the winners, the
cookie, the count and the flag. -/
inductive RaceStep (t : ι) (shared : MonitorShared ι) (pc next : ThreadPc ι)
    (after : MonitorShared ι) : Prop
  | stays
      (hbefore : next.BeforeFini ↔ pc.BeforeFini)
      (hpast : next.PastFini → pc.PastFini ∨ shared.finiProcessDone = true ∨
        shared.endProcessCookie = true ∧ (shared.node t).exitWin = true ∧ ¬ pc.BeforeFini)
      (hwin : ∀ u, (after.node u).exitWin = true → (shared.node u).exitWin = true)
      (hcookie : after.endProcessCookie = shared.endProcessCookie)
      (hcount : after.finiProcessCount = shared.finiProcessCount)
      (hdone : after.finiProcessDone = shared.finiProcessDone ∨ pc.PastFini)
  | wins
      (hcookie : shared.endProcessCookie = false) (hpc : pc = .exit .swapCookie)
      (hnext : next = .exit .beginExit)
      (hafter : after = { shared.setNode t { shared.node t with exitWin := true } with
        endProcessCookie := true })
  | calls
      (hpc : pc = .exit .finiProcess) (hnext : next = .exit .setProcessDone)
      (hafter : after = shared.call (.finiProcess t (shared.node t).tid))

/-- Nothing the race is about changes, but a winner may lose its node. -/
theorem RaceStep.of_eq {pc next : ThreadPc ι} (hbefore : next.BeforeFini ↔ pc.BeforeFini)
    (hpast : next.PastFini → pc.PastFini)
    (hwin : ∀ u, (after.node u).exitWin = true → (shared.node u).exitWin = true)
    (hcookie : after.endProcessCookie = shared.endProcessCookie)
    (hcount : after.finiProcessCount = shared.finiProcessCount)
    (hdone : after.finiProcessDone = shared.finiProcessDone) :
    RaceStep t shared pc next after :=
  .stays hbefore (fun h => .inl (hpast h)) hwin hcookie hcount (.inl hdone)

/-- Writing a node that keeps or clears `tn_exit_win` makes no winner. -/
theorem MonitorShared.exitWin_setNode {tn : ThreadNode}
    (htn : tn.exitWin = true → (shared.node t).exitWin = true) (u : ι)
    (h : ((shared.setNode t tn).node u).exitWin = true) : (shared.node u).exitWin = true := by
  by_cases hu : u = t
  · subst hu
    exact htn (by simpa [setNode] using h)
  · simpa [setNode, Function.update_of_ne hu] using h

/-- The code around `monitor_fini_thread` makes no winner and does not touch the race. -/
theorem FiniStep.race {α : Type*} {go : FiniPc → α} {leave finish next : α}
    {statement : FiniPc} (h : FiniStep t shared go leave finish statement next after) :
    (∀ u, (after.node u).exitWin = true → (shared.node u).exitWin = true) ∧
      after.finiProcessCount = shared.finiProcessCount := by
  cases h with
  | marks | returns => exact ⟨MonitorShared.exitWin_setNode fun h => h, rfl⟩
  | calls => exact ⟨fun u h => h, shared.finiProcessCount_call _⟩
  | _ => exact ⟨fun u h => h, rfl⟩

/-- What a statement of the exit means for the race. -/
theorem ExitStep.race {statement next : ExitPc ι}
    (h : ExitStep t late shared statement next after) :
    RaceStep t shared (.exit statement) (.exit next) after := by
  cases h with
  | winsRace hcookie => exact .wins hcookie rfl rfl rfl
  | callsFiniProcess => exact .calls rfl rfl rfl
  | restarts hcookie hwin =>
      exact .stays Iff.rfl (fun _ => .inr (.inr ⟨hcookie, hwin, nofun⟩)) (fun _ h => h) rfl rfl
        (.inl rfl)
  | released hdone =>
      exact .stays Iff.rfl (fun _ => .inr (.inl hdone)) (fun _ h => h) rfl rfl (.inl rfl)
  | setsProcessDone =>
      exact .stays Iff.rfl (fun _ => .inl trivial) (fun _ h => h) rfl rfl (.inr trivial)
  | begins =>
      exact .of_eq Iff.rfl nofun (fun _ h => h) rfl (shared.finiProcessCount_call _) rfl
  | own hfini =>
      obtain ⟨hwin, hcount⟩ := hfini.race
      have hcookie : after.endProcessCookie = shared.endProcessCookie := by rw [hfini.frame]
      have hdone : after.finiProcessDone = shared.finiProcessDone := by rw [hfini.frame]
      cases hfini <;> exact .of_eq Iff.rfl nofun hwin hcookie hcount hdone
  | losesRace | cleansUp | noThreads | startsPass | endsPass | meetsItself | looksAt | passesBy
  | countsStarted | kills | countsFinished | countsUnfinished | allFinished | progress | givesUp
  | again | stopsCallbacks | ownLeft | noneLeft | polls =>
      exact .of_eq Iff.rfl nofun (fun _ h => h) rfl rfl rfl

/-- What a statement of a thread means for the race. -/
theorem ThreadStep.race {pc next : ThreadPc ι} (h : ThreadStep t late shared pc next after) :
    RaceStep t shared pc next after := by
  cases h with
  | exits hexit => exact hexit.race
  | links =>
      exact .of_eq Iff.rfl nofun (MonitorShared.exitWin_setNode nofun) rfl rfl rfl
  | callsInit | callsInitProcess =>
      exact .of_eq Iff.rfl nofun (fun _ h => h) rfl (shared.finiProcessCount_call _) rfl
  | setsApplStarted | marksEnded =>
      exact .of_eq Iff.rfl nofun (MonitorShared.exitWin_setNode fun h => h) rfl rfl rfl
  | unlinks =>
      exact .of_eq Iff.rfl nofun (MonitorShared.exitWin_setNode nofun) rfl rfl rfl
  | cleanup hfini =>
      obtain ⟨hwin, hcount⟩ := hfini.race
      have hcookie : after.endProcessCookie = shared.endProcessCookie := by rw [hfini.frame]
      have hdone : after.finiProcessDone = shared.finiProcessDone := by rw [hfini.frame]
      cases hfini <;> exact .of_eq Iff.rfl nofun hwin hcookie hcount hdone
  | releases =>
      refine .of_eq Iff.rfl nofun (fun u h => ?_) ?_ shared.finiProcessCount_release ?_
      · rw [MonitorShared.release_frame] at h
        exact h
      · rw [MonitorShared.release_frame]
      · rw [MonitorShared.release_frame]
  | starts | supported | polls | refused =>
      exact .of_eq Iff.rfl nofun (fun _ h => h) rfl rfl rfl

/-- **What a move does to the race.** -/
theorem MonitorStep.race (h : MonitorStep main t me shared move next after) :
    RaceStep t shared me.pc next.pc after := by
  cases h with
  | statement hhandler hpc => exact hpc.race
  | handler hhandler hfini =>
      obtain ⟨hwin, hcount⟩ := hfini.race
      have hcookie : after.endProcessCookie = shared.endProcessCookie := by rw [hfini.frame]
      have hdone : after.finiProcessDone = shared.finiProcessDone := by rw [hfini.frame]
      have hpc : next.pc = me.pc := by cases hfini <;> rfl
      rw [hpc]
      exact .of_eq Iff.rfl (fun h => h) hwin hcookie hcount hdone
  | delivers => exact .of_eq Iff.rfl (fun h => h) (fun _ h => h) rfl rfl rfl
  | creates =>
      refine .of_eq Iff.rfl (fun h => h) (fun u h => ?_) ?_ (shared.finiProcessCount_create _) ?_
      · rw [MonitorShared.create_frame] at h
        exact h
      · rw [MonitorShared.create_frame]
      · rw [MonitorShared.create_frame]
  | finishes hhandler hpc =>
      rw [hpc]
      exact .of_eq Iff.rfl nofun (fun _ h => h) rfl rfl rfl
  | exits hhandler hpc =>
      rcases hpc with hpc | hpc
      all_goals
        rw [hpc]
        exact .of_eq Iff.rfl nofun (fun _ h => h) rfl rfl rfl
  | execFails hhandler hpc =>
      rw [hpc]
      exact .of_eq Iff.rfl nofun (fun _ h => h) rfl rfl rfl
  | blocks =>
      exact .of_eq Iff.rfl (fun h => h) (MonitorShared.exitWin_setNode fun h => h) rfl rfl rfl

/-! ## The phases of the race -/

/-- How far the race is. -/
inductive RacePhase (ι : Type*) where
  /-- No thread has called `exit`. -/
  | fresh
  /-- This thread is about to make the callback. -/
  | won (winner : ι)
  /-- The callback has been made. -/
  | called
  deriving DecidableEq

/-- The race is in this phase. -/
structure RacePhase.In (phase : RacePhase ι)
    (s : State ι (MonitorThread ι) (MonitorShared ι)) : Prop where
  cookie : s.shared.endProcessCookie = true ↔ phase ≠ .fresh
  before : ∀ t, (s.locals t).pc.BeforeFini ↔ phase = .won t
  count : s.shared.finiProcessCount = if phase = .called then 1 else 0
  winner : phase ≠ .called → ∀ t, (s.shared.node t).exitWin = true → phase = .won t
  past : phase ≠ .called → s.shared.finiProcessDone = false ∧ ∀ t, ¬ (s.locals t).pc.PastFini

/-- The race goes from one phase to the next. -/
inductive RacePhase.Next : RacePhase ι → RacePhase ι → Prop
  | stays (phase : RacePhase ι) : Next phase phase
  | wins (t : ι) : Next .fresh (.won t)
  | calls (t : ι) : Next (.won t) .called

omit [DecidableEq ι] in
/-- A fact about the place of each thread. -/
theorem forall_update_pc [DecidableEq ι] {P : ι → ThreadPc ι → Prop}
    {locals : ι → MonitorThread ι} (hself : P t me.pc)
    (hothers : ∀ u, u ≠ t → P u (locals u).pc) :
    ∀ u, P u (Function.update locals t me u).pc := by
  intro u
  by_cases hu : u = t
  · subst hu
    rw [Function.update_self]
    exact hself
  · rw [Function.update_of_ne hu]
    exact hothers u hu

/-- **One move takes the race to the next phase.** -/
theorem RacePhase.In.step {phase : RacePhase ι}
    {before after : State ι (MonitorThread ι) (MonitorShared ι)} {event : ι × ThreadMove ι}
    (hstep : (monitorThreads main).step before event = some after) (h : phase.In before) :
    ∃ phase', phase.Next phase' ∧ phase'.In after := by
  obtain ⟨t, move⟩ := event
  obtain ⟨me, shared, hact, rfl⟩ := Choices.step_eq_some_iff.mp hstep
  rcases (monitorStep_of_threadMove hact).race with
    ⟨hbefore, hpast, hwin, hcookie, hcount, hdone⟩ | ⟨hcookie, hpc, hnext, rfl⟩ |
      ⟨hpc, hnext, rfl⟩
  · refine ⟨phase, .stays phase, hcookie ▸ h.cookie, ?_, hcount ▸ h.count,
      fun hphase u hu => h.winner hphase u (hwin u hu), fun hphase => ?_⟩
    · exact forall_update_pc (P := fun u pc => pc.BeforeFini ↔ phase = .won u)
        (hbefore.trans (h.before t)) fun u _ => h.before u
    · obtain ⟨hnotDone, hnotPast⟩ := h.past hphase
      refine ⟨(hdone.resolve_right (hnotPast t)).trans hnotDone, ?_⟩
      refine forall_update_pc (P := fun _ pc => ¬ pc.PastFini) (fun hme => ?_) fun u _ =>
        hnotPast u
      rcases hpast hme with hme | hflag | ⟨-, hwinner, hnot⟩
      · exact hnotPast t hme
      · rw [hnotDone] at hflag
        cases hflag
      · exact hnot ((h.before t).mpr (h.winner hphase t hwinner))
  · -- the thread has changed the cookie
    have hphase : phase = .fresh := by
      by_contra hne
      rw [h.cookie.mpr hne] at hcookie
      cases hcookie
    subst hphase
    have hnotPast := (h.past nofun).2
    refine ⟨.won t, .wins t, iff_of_true rfl nofun, ?_, h.count, fun _ u hu => ?_, fun _ => ?_⟩
    · refine forall_update_pc (P := fun u pc => pc.BeforeFini ↔ RacePhase.won t = .won u) ?_ ?_
      · rw [hnext]
        exact iff_of_true trivial rfl
      · intro u hu
        refine iff_of_false (fun hbefore => nomatch (h.before u).mp hbefore) fun heq => ?_
        cases heq
        exact hu rfl
    · by_cases hut : u = t
      · rw [hut]
      · have hu' : (before.shared.node u).exitWin = true := by
          simpa [MonitorShared.setNode, Function.update_of_ne hut] using hu
        exact nomatch h.winner nofun u hu'
    · refine ⟨(h.past nofun).1, forall_update_pc (P := fun _ pc => ¬ pc.PastFini) ?_ fun u _ =>
        hnotPast u⟩
      rw [hnext]
      exact nofun
  · -- the winner has made the callback
    have hphase : phase = .won t := (h.before t).mp (by rw [hpc]; trivial)
    subst hphase
    refine ⟨.called, .calls t, iff_of_true (h.cookie.mpr nofun) nofun, ?_, ?_,
      fun hne => absurd rfl hne, fun hne => absurd rfl hne⟩
    · refine forall_update_pc (P := fun u pc => pc.BeforeFini ↔ RacePhase.called = .won u) ?_ ?_
      · rw [hnext]
        exact iff_of_false nofun nofun
      · intro u hu
        refine iff_of_false (fun hbefore => ?_) nofun
        cases (h.before u).mp hbefore
        exact hu rfl
    · rw [MonitorShared.finiProcessCount_call, h.count]
      rfl

theorem racePhase_initial (main : ι) : RacePhase.fresh.In (monitorInitial main) where
  cookie := iff_of_false nofun fun h => h rfl
  before t := by
    unfold monitorInitial
    by_cases hmain : t = main <;> simp [hmain, ThreadPc.BeforeFini]
  count := rfl
  winner _ t h := nomatch h
  past _ := by
    refine ⟨rfl, fun t => ?_⟩
    unfold monitorInitial
    by_cases hmain : t = main <;> simp [hmain, ThreadPc.PastFini]

/-- **After every run the race is in one of its phases.** -/
theorem racePhase_of_run {events : List (ι × ThreadMove ι)}
    {s : State ι (MonitorThread ι) (MonitorShared ι)}
    (hrun : (monitorThreads main).run (monitorInitial main) events = some s) :
    ∃ phase : RacePhase ι, phase.In s :=
  Choices.run_invariant (fun now => ∃ phase : RacePhase ι, phase.In now)
    (fun _ _ _ hstep ⟨_, h⟩ => (h.step hstep).imp fun _ hnext => hnext.2)
    ⟨.fresh, racePhase_initial main⟩ hrun

/-- **One thread ends the process.**  In every run, whichever threads call `exit` and
however often, `monitor_fini_process` is called at most once; it has been called whenever
a thread is back in the system's `exit`; and once a thread has begun to exit, either it
has been called or exactly one thread is about to, and no other one can. -/
theorem fini_process_once {events : List (ι × ThreadMove ι)}
    {s : State ι (MonitorThread ι) (MonitorShared ι)}
    (hrun : (monitorThreads main).run (monitorInitial main) events = some s) :
    s.shared.finiProcessCount ≤ 1 ∧
      (∀ t, (s.locals t).pc = .exit .resumed → s.shared.finiProcessCount = 1) ∧
      (s.shared.endProcessCookie = true →
        (s.shared.finiProcessCount = 1 ∧ ∀ t, ¬ (s.locals t).pc.BeforeFini) ∨
          (s.shared.finiProcessCount = 0 ∧ ∃! t, (s.locals t).pc.BeforeFini)) := by
  obtain ⟨phase, h⟩ := racePhase_of_run hrun
  refine ⟨?_, fun t hpc => ?_, fun hcookie => ?_⟩
  · rw [h.count]
    split <;> omega
  · have hphase : phase = .called := by
      by_contra hne
      exact (h.past hne).2 t (by rw [hpc]; trivial)
    rw [h.count, if_pos hphase]
  · cases phase with
    | fresh => exact absurd rfl (h.cookie.mp hcookie)
    | won winner =>
        refine .inr ⟨h.count, winner, (h.before winner).mpr rfl, fun t ht => ?_⟩
        cases (h.before t).mp ht
        rfl
    | called => exact .inl ⟨h.count, fun t ht => nomatch (h.before t).mp ht⟩

end Race

/-- The main thread exits, and so does the thread it has created. -/
def exitRace : List (ℕ × ThreadMove ℕ) :=
  let go (t n : ℕ) : List (ℕ × ThreadMove ℕ) := List.replicate n (t, .statement false)
  go 0 2 ++ [(0, .create 1)] ++ go 1 5 ++ [(0, .exit)] ++ go 0 1 ++ [(1, .exit)] ++ go 1 1 ++
    go 0 7 ++ [(1, .deliver)] ++ go 1 5 ++ go 0 11 ++ go 1 2

/-- Two threads call `exit`, and both come back to it. -/
theorem fini_process_once_of_race : ∃ s,
    (monitorThreads 0).run (monitorInitial 0) exitRace = some s ∧
      (s.locals 0).pc = .exit .resumed ∧ (s.locals 1).pc = .exit .resumed ∧
      s.shared.callbacks = [.initProcess, .initThreadSupport, .initThread 1 1,
        .beginProcessExit, .finiThread 1 1, .finiProcess 0 0] ∧
      s.shared.finiProcessCount = 1 := by
  have hruns : ∃ s, (monitorThreads 0).run (monitorInitial 0) exitRace = some s ∧
      (s.locals 0).pc = .exit .resumed ∧ (s.locals 1).pc = .exit .resumed ∧
      s.shared.callbacks = [.initProcess, .initThreadSupport, .initThread 1 1,
        .beginProcessExit, .finiThread 1 1, .finiProcess 0 0] := ⟨_, rfl, rfl, rfl, rfl⟩
  obtain ⟨s, hrun, hmain, hcreated, hcallbacks⟩ := hruns
  exact ⟨s, hrun, hmain, hcreated, hcallbacks, (fini_process_once hrun).2.1 1 hcreated⟩

end Papiex
