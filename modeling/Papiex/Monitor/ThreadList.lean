import Papiex.Monitor.Threads

/-!
# The list of threads

The loop of `monitor_thread_shootdown` goes through the list of threads without its
lock.  It may: when the process is exiting no thread enters the list or leaves it, so
that each pointer the loop follows is to a node in the list (`ListInvariant`), and the
list it goes through is the one of the moment `monitor_in_exit_cleanup` was set.

## Main results

* `MonitorStep.threadList_cases`: what a move does to the list.
* `ListInvariant`: who is in it.
* `shootdown_list_fixed`: while the process exits the list stays as it is.

## Design notes

What a thread knows depends on the statement it is at (`ListOk`, `ExitOk`).  Most moves
change none of it for the other threads.  Those that do are few, and are told apart once
(`MonitorStep.threadList_cases`); after the flag for the exit is set there are none left.
-/

namespace Papiex

open Interleaving

variable {ι : Type*}

/-! ## Where the nodes are -/

/-- The node of the thread is in the list. -/
def ThreadPc.OnList : ThreadPc ι → Prop
  | .initThread | .setApplStarted | .running | .cleanup _ | .unlink | .ended | .exit _ => True
  | _ => False

/-- The main thread can be here. -/
def ThreadPc.OfMain : ThreadPc ι → Prop
  | .initProcess | .release | .running | .exit _ => True
  | _ => False

/-- Another thread can be here. -/
def ThreadPc.OfCreated : ThreadPc ι → Prop
  | .initProcess | .release => False
  | _ => True

/-- The thread is shooting the others down. -/
def ExitPc.InShootdown : ExitPc ι → Prop
  | .startPass _ | .walk _ _ | .readStarted _ _ | .readDone _ _ | .endPass _
  | .setFiniThreadDone _ | .testOwn _ | .own _ => True
  | _ => False

/-- The node the loop is at. -/
def ExitPc.pointer : ExitPc ι → Option ι
  | .walk tn _ => tn
  | .readStarted tn _ => some tn
  | .readDone tn _ => some tn
  | _ => none

/-- The loop has met the node of the thread itself. -/
def ExitPc.MyTn : ExitPc ι → Prop
  | .startPass pass | .walk _ pass | .readStarted _ pass | .readDone _ pass | .endPass pass =>
      pass.myTn = true
  | .setFiniThreadDone myTn | .testOwn myTn => myTn = true
  | .own _ => True
  | _ => False

/-- The thread is in its own callback, past the tests. -/
def ExitPc.OwnPast : ExitPc ι → Prop
  | .own .test | .own .testDone => False
  | _ => True

/-- Only the loops of the shootdown have a pointer to a node. -/
theorem ExitPc.inShootdown_of_pointer {statement : ExitPc ι} {tn : ι}
    (h : statement.pointer = some tn) : statement.InShootdown := by
  cases statement with
  | walk | readStarted | readDone => trivial
  | _ => cases h

/-- Nothing but the node of the thread and the callbacks is written. -/
theorem FiniStep.frame {α : Type*} [DecidableEq ι] {t : ι} {shared after : MonitorShared ι}
    {go : FiniPc → α} {leave finish next : α} {statement : FiniPc}
    (h : FiniStep t shared go leave finish statement next after) :
    after = { shared with node := after.node, callbacks := after.callbacks } := by
  cases h <;> rfl

section Effects

variable [DecidableEq ι] {t : ι} {late : Bool} {shared after : MonitorShared ι}

omit [DecidableEq ι] in
theorem MonitorShared.callThreadSupport_frame (shared : MonitorShared ι) :
    shared.callThreadSupport = { shared with
      threadSupportDone := true
      callbacks := shared.callThreadSupport.callbacks } := by
  unfold callThreadSupport
  split
  · rename_i hdone
    rw [← hdone]
  · rfl

theorem MonitorShared.create_frame (shared : MonitorShared ι) (child : ι) :
    shared.create child = { shared with
      hasUsedThreads := true
      threadSupportDone := (shared.create child).threadSupportDone
      spawned := Function.update shared.spawned child true
      callbacks := (shared.create child).callbacks } := by
  unfold create
  dsimp only
  split
  · rw [callThreadSupport_frame]
  · rfl

omit [DecidableEq ι] in
theorem MonitorShared.release_frame (shared : MonitorShared ι) :
    shared.release = { shared with
      hasReachedMain := true
      threadSupportDone := shared.release.threadSupportDone
      callbacks := shared.release.callbacks } := by
  unfold release
  dsimp only
  split
  · rw [callThreadSupport_frame]
  · rfl

/-- Exiting threads leave the list alone. -/
theorem ExitStep.threadList_eq {statement next : ExitPc ι}
    (h : ExitStep t late shared statement next after) : after.threadList = shared.threadList := by
  cases h with
  | own hfini => rw [hfini.frame]
  | _ => rfl

/-- The process begins to exit, or is as it was. -/
theorem ExitStep.inExitCleanup_eq {statement next : ExitPc ι}
    (h : ExitStep t late shared statement next after) :
    after.inExitCleanup = shared.inExitCleanup ∨ after.inExitCleanup = true := by
  cases h with
  | own hfini => rw [hfini.frame]; exact .inl rfl
  | cleansUp => exact .inr rfl
  | _ => exact .inl rfl

/-- The loop stays on the list, and begins when the process is exiting. -/
theorem ExitStep.inShootdown {statement next : ExitPc ι}
    (h : ExitStep t late shared statement next after)
    (hshooting : statement.InShootdown → shared.inExitCleanup = true)
    (hnext : next.InShootdown) : after.inExitCleanup = true := by
  cases h with
  | cleansUp => rfl
  | own hfini =>
      rw [hfini.frame]
      exact hshooting trivial
  | winsRace | restarts | losesRace | begins | noThreads | noneLeft | callsFiniProcess
  | setsProcessDone | released | polls => cases hnext
  | _ => exact hshooting trivial

theorem listNext_mem {threadList : List ι} {tn next : ι}
    (h : listNext threadList tn = some next) : next ∈ threadList :=
  (List.dropWhile_sublist _).subset (List.mem_of_mem_tail (List.mem_of_mem_head? h))

/-- **The pointer stays in the list.** -/
theorem ExitStep.pointer_mem {statement next : ExitPc ι} {tn : ι}
    (h : ExitStep t late shared statement next after)
    (hpointer : ∀ tn, statement.pointer = some tn → tn ∈ shared.threadList)
    (hnext : next.pointer = some tn) : tn ∈ after.threadList := by
  rw [h.threadList_eq]
  cases h with
  | startsPass => exact List.mem_of_mem_head? hnext
  | meetsItself | passesBy | countsFinished | countsUnfinished => exact listNext_mem hnext
  | looksAt | countsStarted | kills => exact hpointer _ hnext
  | own hfini => cases hfini <;> cases hnext
  | _ => cases hnext

/-- `my_tn` is set at a node of the list. -/
theorem ExitStep.myTn {statement next : ExitPc ι} (h : ExitStep t late shared statement next after)
    (hmy : statement.MyTn → t ∈ shared.threadList)
    (hpointer : ∀ tn, statement.pointer = some tn → tn ∈ shared.threadList)
    (hnext : next.MyTn) : t ∈ after.threadList := by
  rw [h.threadList_eq]
  cases h with
  | meetsItself => exact hpointer t rfl
  | own hfini => exact hmy trivial
  | countsUnfinished | progress => exact hmy hnext
  | ownLeft => exact hmy rfl
  | cleansUp => cases hnext
  | _ => first | exact hmy hnext | cases hnext

/-- The thread that shoots down stays past the tests of its own callback. -/
theorem ExitStep.ownPast {statement next : ExitPc ι}
    (h : ExitStep t late shared statement next after) (hpast : statement.OwnPast) :
    next.OwnPast := by
  cases h with
  | own hfini =>
      cases hfini with
      | passes => cases hpast
      | _ => trivial
  | _ => trivial

/-- **What a move does to the list.**  The thread enters it or leaves it, and only while
the process is not exiting. -/
theorem MonitorStep.threadList_cases {main : ι} {me next : MonitorThread ι}
    {move : ThreadMove ι} (h : MonitorStep main t me shared move next after) :
    after.threadList = shared.threadList ∨
      me.pc = .link ∧ shared.inExitCleanup = false ∧
        after.threadList = t :: shared.threadList ∨
      me.pc = .unlink ∧ shared.inExitCleanup = false ∧
        after.threadList = shared.threadList.erase t := by
  cases h with
  | handler hhandler hfini => rw [hfini.frame]; exact .inl rfl
  | statement hhandler hpc =>
      generalize hme : me.pc = pc at hpc
      cases hpc with
      | links hexit => exact .inr (.inl ⟨rfl, hexit, rfl⟩)
      | unlinks hexit => exact .inr (.inr ⟨rfl, hexit, rfl⟩)
      | cleanup hfini => rw [hfini.frame]; exact .inl rfl
      | releases => rw [MonitorShared.release_frame]; exact .inl rfl
      | exits hexit => exact .inl hexit.threadList_eq
      | _ => exact .inl rfl
  | creates => rw [MonitorShared.create_frame]; exact .inl rfl
  | _ => exact .inl rfl

/-- A process that is exiting stays so. -/
theorem MonitorStep.inExitCleanup_eq {main : ι} {me next : MonitorThread ι}
    {move : ThreadMove ι} (h : MonitorStep main t me shared move next after) :
    after.inExitCleanup = shared.inExitCleanup ∨ after.inExitCleanup = true := by
  cases h with
  | handler hhandler hfini => rw [hfini.frame]; exact .inl rfl
  | statement hhandler hpc =>
      generalize me.pc = pc at hpc
      cases hpc with
      | cleanup hfini => rw [hfini.frame]; exact .inl rfl
      | releases => rw [MonitorShared.release_frame]; exact .inl rfl
      | exits hexit => exact hexit.inExitCleanup_eq
      | _ => exact .inl rfl
  | creates => rw [MonitorShared.create_frame]; exact .inl rfl
  | _ => exact .inl rfl

end Effects

/-! ## The invariant -/

/-- What holds of a thread that exits. -/
structure ExitOk (t : ι) (statement : ExitPc ι) (shared : MonitorShared ι) : Prop where
  shooting : statement.InShootdown → shared.inExitCleanup = true
  pointer : ∀ tn, statement.pointer = some tn → tn ∈ shared.threadList
  own : statement.MyTn → t ∈ shared.threadList
  ownPast : statement.OwnPast

/-- What holds of each thread. -/
structure ListOk (main t : ι) (me : MonitorThread ι) (shared : MonitorShared ι) : Prop where
  mem : t ∈ shared.threadList ↔ t ≠ main ∧ me.pc.OnList
  ofMain : t = main → me.pc.OfMain
  ofCreated : t ≠ main → me.pc.OfCreated
  exit : ∀ statement, me.pc = .exit statement → ExitOk t statement shared

/-- The invariant of the list of threads. -/
structure ListInvariant (main : ι) (s : State ι (MonitorThread ι) (MonitorShared ι)) :
    Prop where
  nodup : s.shared.threadList.Nodup
  threads : ∀ t, ListOk main t (s.locals t) s.shared

section Step

variable [DecidableEq ι] {main t : ι} {me next : MonitorThread ι}
variable {late : Bool} {shared after : MonitorShared ι} {move : ThreadMove ι}

/-- The flag of the exit is never taken back. -/
theorem MonitorStep.inExitCleanup_mono (h : MonitorStep main t me shared move next after)
    (hexit : shared.inExitCleanup = true) : after.inExitCleanup = true := by
  rcases h.inExitCleanup_eq with heq | heq
  · rw [heq, hexit]
  · exact heq

/-- A thread that does not move. -/
theorem ListOk.of_other {u : ι} {other : MonitorThread ι} (hne : u ≠ t)
    (h : MonitorStep main t me shared move next after) (hu : ListOk main u other shared) :
    ListOk main u other after := by
  have hsame : u ∈ after.threadList ↔ u ∈ shared.threadList := by
    rcases h.threadList_cases with heq | ⟨-, -, heq⟩ | ⟨-, -, heq⟩
    · rw [heq]
    · rw [heq, List.mem_cons, or_iff_right hne]
    · rw [heq, List.mem_erase_of_ne hne]
  refine ⟨hsame.trans hu.mem, hu.ofMain, hu.ofCreated, fun statement hpc => ?_⟩
  obtain ⟨hshooting, hpointer, hown, hpast⟩ := hu.exit statement hpc
  refine ⟨fun h' => h.inExitCleanup_mono (hshooting h'), fun tn htn => ?_,
    fun hmy => hsame.mpr (hown hmy), hpast⟩
  -- the list has not changed, because the process is exiting
  have hexit := hshooting (ExitPc.inShootdown_of_pointer htn)
  rcases h.threadList_cases with heq | ⟨-, hnot, -⟩ | ⟨-, hnot, -⟩
  · rw [heq]
    exact hpointer tn htn
  · rw [hexit] at hnot
    cases hnot
  · rw [hexit] at hnot
    cases hnot

/-- The code around `monitor_fini_thread` keeps the thread where its node is. -/
theorem FiniStep.threadPc {statement : FiniPc} {pc : ThreadPc ι}
    (h : FiniStep t shared ThreadPc.cleanup .ended .unlink statement pc after) :
    pc = .ended ∨ pc = .unlink ∨ ∃ next, pc = .cleanup next := by
  cases h with
  | skips | tooLate => exact .inl rfl
  | returns => exact .inr (.inl rfl)
  | _ => exact .inr (.inr ⟨_, rfl⟩)

/-- A statement of `monitor_end_process_fcn`. -/
theorem ExitOk.step {statement next : ExitPc ι} (h : ExitStep t late shared statement next after)
    (hok : ExitOk t statement shared) : ExitOk t next after where
  shooting := h.inShootdown hok.shooting
  pointer _ := h.pointer_mem hok.pointer
  own := h.myTn hok.own hok.pointer
  ownPast := h.ownPast hok.ownPast

/-- A statement outside the handler. -/
theorem ListOk.of_threadStep {pc : ThreadPc ι} (h : ThreadStep t late shared me.pc pc after)
    (hnodup : shared.threadList.Nodup) (hme : ListOk main t me shared) :
    ListOk main t { pc := pc } after := by
  have hmem := hme.mem
  have hofMain := hme.ofMain
  have hofCreated := hme.ofCreated
  have hexitOk := hme.exit
  generalize me.pc = before at h hmem hofMain hofCreated hexitOk
  cases h with
  | links hexit =>
      have hcreated : t ≠ main := fun hmain => hofMain hmain
      exact ⟨by simp [MonitorShared.link, hcreated, ThreadPc.OnList],
        fun hmain => absurd hmain hcreated, fun _ => trivial, nofun⟩
  | unlinks hexit =>
      refine ⟨?_, fun hmain => (hofMain hmain).elim, fun _ => trivial, nofun⟩
      simp [hnodup.mem_erase_iff, ThreadPc.OnList]
  | marksEnded hexit =>
      exact ⟨hmem, fun hmain => (hofMain hmain).elim, fun _ => trivial, nofun⟩
  | cleanup hfini =>
      have hmain : t ≠ main := fun hmain => hofMain hmain
      have hafter : t ∈ after.threadList := by
        rw [hfini.frame]
        exact hmem.mpr ⟨hmain, trivial⟩
      rcases hfini.threadPc with rfl | rfl | ⟨at', rfl⟩
      all_goals
        exact ⟨iff_of_true hafter ⟨hmain, trivial⟩, fun h => absurd h hmain, fun _ => trivial,
          nofun⟩
  | callsInitProcess =>
      exact ⟨hmem, fun _ => trivial, hofCreated, nofun⟩
  | releases =>
      have hmain : t = main := not_not.mp fun hne => hofCreated hne
      rw [MonitorShared.release_frame]
      refine ⟨iff_of_false ?_ fun h => h.1 hmain, fun _ => trivial, fun _ => trivial, nofun⟩
      exact fun hin => (hmem.mp hin).1 hmain
  | exits hexit =>
      refine ⟨?_, fun _ => trivial, fun _ => trivial, ?_⟩
      · rw [hexit.threadList_eq]
        exact hmem
      · rintro statement ⟨⟩
        exact (hexitOk _ rfl).step hexit
  | starts | supported | polls | refused | callsInit | setsApplStarted =>
      exact ⟨hmem, fun hmain => (hofMain hmain).elim, fun _ => trivial, nofun⟩

/-- The thread that moves. -/
theorem ListOk.of_self (h : MonitorStep main t me shared move next after)
    (hnodup : shared.threadList.Nodup) (hme : ListOk main t me shared) :
    ListOk main t next after := by
  -- the next place counts as the old one, and the list is the old one
  have hmoved : ∀ pc handler, (pc.OnList ↔ me.pc.OnList) → (t = main → pc.OfMain) →
      pc.OfCreated → (∀ statement, pc = .exit statement → statement = .swapCookie) →
        ListOk main t { pc, handler } shared := by
    intro pc handler honList hofMain hofCreated hexit
    refine ⟨hme.mem.trans (and_congr_right fun _ => honList.symm), hofMain, fun _ => hofCreated,
      fun statement hpc => ?_⟩
    rw [hexit statement hpc]
    exact ⟨nofun, nofun, nofun, trivial⟩
  -- only callbacks and flags are written
  have hsame : ∀ (handler : Option FiniPc) (written : MonitorShared ι),
      written.threadList = shared.threadList → written.inExitCleanup = shared.inExitCleanup →
        ListOk main t { me with handler := handler } written := by
    intro handler written hlist hexit
    refine ⟨hlist ▸ hme.mem, hme.ofMain, hme.ofCreated, fun statement hpc => ?_⟩
    obtain ⟨hshooting, hpointer, hown, hpast⟩ := hme.exit statement hpc
    exact ⟨hexit ▸ hshooting, hlist ▸ hpointer, hlist ▸ hown, hpast⟩
  cases h with
  | handler hhandler hfini =>
      have hnext : next = { me with handler := next.handler } := by cases hfini <;> rfl
      rw [hnext, hfini.frame]
      exact hsame _ _ rfl rfl
  | statement hhandler hpc => exact .of_threadStep hpc hnodup hme
  | delivers => exact hsame _ _ rfl rfl
  | creates =>
      rw [MonitorShared.create_frame]
      exact hsame me.handler _ rfl rfl
  | finishes hhandler hpc hmain =>
      have honList : me.pc.OnList := by rw [hpc]; trivial
      exact hmoved _ _ (iff_of_true trivial honList) (fun h => absurd h hmain) trivial nofun
  | exits hhandler hpc =>
      have honList : me.pc.OnList := by rcases hpc with hpc | hpc <;> rw [hpc] <;> trivial
      refine hmoved _ _ (iff_of_true trivial honList) (fun _ => trivial) trivial ?_
      rintro statement ⟨⟩
      rfl
  | execFails hhandler hpc =>
      have honList : me.pc.OnList := by rw [hpc]; trivial
      exact hmoved _ _ (iff_of_true trivial honList) (fun _ => trivial) trivial nofun
  | blocks => exact hsame me.handler _ rfl rfl

/-- **One move keeps the invariant.** -/
theorem ListInvariant.step {before after : State ι (MonitorThread ι) (MonitorShared ι)}
    {event : ι × ThreadMove ι} (hstep : (monitorThreads main).step before event = some after)
    (h : ListInvariant main before) : ListInvariant main after := by
  obtain ⟨t, move⟩ := event
  obtain ⟨me, shared, hact, rfl⟩ := Choices.step_eq_some_iff.mp hstep
  have hmove := monitorStep_of_threadMove hact
  refine ⟨?_, Choices.forall_update (.of_self hmove h.nodup (h.threads t))
    fun u hne => .of_other hne hmove (h.threads u)⟩
  rcases hmove.threadList_cases with heq | ⟨hpc, -, heq⟩ | ⟨-, -, heq⟩
  · rw [heq]
    exact h.nodup
  · -- a thread that enters the list was not on it
    have hnot : t ∉ before.shared.threadList := by
      rw [(h.threads t).mem, hpc]
      exact fun hin => hin.2
    rw [heq]
    exact List.nodup_cons.mpr ⟨hnot, h.nodup⟩
  · rw [heq]
    exact h.nodup.erase t

theorem listInvariant_initial (main : ι) : ListInvariant main (monitorInitial main) where
  nodup := List.nodup_nil
  threads t := by
    unfold monitorInitial
    by_cases hmain : t = main
    · subst hmain
      simp only [if_true]
      exact ⟨by simp, fun _ => trivial, fun hne => absurd rfl hne, nofun⟩
    · simp only [if_neg hmain]
      exact ⟨by simp [ThreadPc.OnList], fun h => absurd h hmain, fun _ => trivial, nofun⟩

/-- The moves of a process that is exiting leave the list as it is. -/
theorem threadList_eq_of_run {events : List (ι × ThreadMove ι)}
    {s final : State ι (MonitorThread ι) (MonitorShared ι)}
    (hexit : s.shared.inExitCleanup = true)
    (hrun : (monitorThreads main).run s events = some final) :
    final.shared.threadList = s.shared.threadList := by
  refine (Choices.run_invariant (fun now => now.shared.inExitCleanup = true ∧
    now.shared.threadList = s.shared.threadList) ?_ ⟨hexit, rfl⟩ hrun).2
  rintro before ⟨t, move⟩ after hstep ⟨hbefore, hlist⟩
  obtain ⟨me, shared, hact, rfl⟩ := Choices.step_eq_some_iff.mp hstep
  have hmove := monitorStep_of_threadMove hact
  refine ⟨hmove.inExitCleanup_mono hbefore, ?_⟩
  rcases hmove.threadList_cases with heq | ⟨-, hnot, -⟩ | ⟨-, hnot, -⟩
  · exact heq.trans hlist
  · rw [hbefore] at hnot
    cases hnot
  · rw [hbefore] at hnot
    cases hnot

/-- **Every run keeps the invariant of the list.** -/
theorem listInvariant_of_run {events : List (ι × ThreadMove ι)}
    {s : State ι (MonitorThread ι) (MonitorShared ι)}
    (hrun : (monitorThreads main).run (monitorInitial main) events = some s) :
    ListInvariant main s :=
  Choices.run_invariant _ (fun _ _ _ hstep h => h.step hstep) (listInvariant_initial main) hrun

/-- **The shootdown goes through a fixed list.**  Once the process is exiting the list of
threads does not change any more, whatever the threads do, and it has each thread that is
linked once; each pointer that the loop of `monitor_thread_shootdown` holds, without the
lock, is to a node of it. -/
theorem shootdown_list_fixed {main : ι} {events later : List (ι × ThreadMove ι)}
    {s final : State ι (MonitorThread ι) (MonitorShared ι)}
    (hrun : (monitorThreads main).run (monitorInitial main) events = some s)
    (hexit : s.shared.inExitCleanup = true)
    (hlater : (monitorThreads main).run s later = some final) :
    final.shared.threadList = s.shared.threadList ∧ s.shared.threadList.Nodup ∧
      (∀ t, t ∈ s.shared.threadList ↔ t ≠ main ∧ (final.locals t).pc.OnList) ∧
      ∀ t statement tn, (final.locals t).pc = .exit statement → statement.pointer = some tn →
        tn ∈ s.shared.threadList := by
  have hlist := threadList_eq_of_run hexit hlater
  have hfinal : ListInvariant main final :=
    listInvariant_of_run (Choices.run_append_eq_some_iff.mpr ⟨s, hrun, hlater⟩)
  rw [← hlist]
  exact ⟨rfl, hfinal.nodup, fun t => (hfinal.threads t).mem, fun t statement tn hpc htn =>
    ((hfinal.threads t).exit statement hpc).pointer tn htn⟩

end Step

/-- A thread is running when the main thread exits. -/
def exitOverOne : List (ℕ × ThreadMove ℕ) :=
  [(0, .statement false), (0, .statement false), (0, .create 1), (1, .statement false),
    (1, .statement false), (1, .statement false), (0, .exit), (0, .statement false),
    (0, .statement false), (0, .statement false)]

/-- A process with one created thread. -/
theorem shootdown_list_fixed_one : ∃ s final,
    (monitorThreads 0).run (monitorInitial 0) exitOverOne = some s ∧
      (monitorThreads 0).run s [(0, .statement false)] = some final ∧
      final.shared.threadList = s.shared.threadList ∧ s.shared.threadList = [1] := by
  have hruns : ∃ s, (monitorThreads 0).run (monitorInitial 0) exitOverOne = some s ∧
      s.shared.inExitCleanup = true ∧ s.shared.threadList = [1] ∧
      ∃ final, (monitorThreads 0).run s [(0, .statement false)] = some final :=
    ⟨_, rfl, rfl, rfl, _, rfl⟩
  obtain ⟨s, hrun, hexit, hlist, final, hlater⟩ := hruns
  exact ⟨s, final, hrun, hlater, (shootdown_list_fixed hrun hexit hlater).1, hlist⟩

end Papiex
