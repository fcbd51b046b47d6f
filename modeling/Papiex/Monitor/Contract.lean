import Papiex.Monitor.Shootdown
import Papiex.Process.Shutdown
import Papiex.Lib.Related

/-!
# What libmonitor promises its client

The shutdown of a process was shown right for every order of callbacks that libmonitor's
contract allows (`MonitorContract`).  Here the contract is proved of libmonitor: in every
orderly run the callbacks up to `monitor_fini_process` are the history of a process, in
the sense of the contract (`callbacks_follow_contract`).

## Main results

* `MonitorContract`: what `Papiex.Process.Shutdown` takes for granted.
* `MonitorStep.tells`: what a move tells the client.
* `callbacks_follow_contract`: libmonitor keeps to the contract.
* `profiled_process_ends`: what becomes of papiex on libmonitor.

## Design notes

The contract is about numbers of threads and the model about threads, so the numbers are
shown to be different first (`NumberInvariant`).  The list of callbacks is cut where
`monitor_fini_process` is called: the front is what the contract speaks of (`Lawful`).  The
hypotheses are conditions on single moves, and the last result runs papiex on what is told.
-/

namespace Papiex

open Interleaving

variable {ι : Type*}

/-! ## The callbacks of a move -/

/-- What a move tells the client. -/
inductive Tells (t : ι) (me next : MonitorThread ι) (shared : MonitorShared ι) :
    List (MonitorCallback ι) → Prop
  | nothing : Tells t me next shared []
  | initProcess (hpc : me.pc = .initProcess) (hnext : next.pc = .release) :
      Tells t me next shared [.initProcess]
  | support (hready : me.pc = .release ∨ shared.hasReachedMain = true) :
      Tells t me next shared [.initThreadSupport]
  | initThread (hpc : me.pc = .initThread) (hnext : next.pc = .setApplStarted) :
      Tells t me next shared [.initThread t (shared.node t).tid]
  | finiThread : Tells t me next shared [.finiThread t (shared.node t).tid]
  | beginExit : Tells t me next shared [.beginProcessExit]
  | finiProcess (hhandler : me.handler = none) (hpc : me.pc = .exit .finiProcess) :
      Tells t me next shared [.finiProcess t (shared.node t).tid]

section Moves

variable [DecidableEq ι] {main t : ι} {me next : MonitorThread ι}
variable {shared after : MonitorShared ι} {move : ThreadMove ι}

omit [DecidableEq ι] in
theorem MonitorShared.callbacks_callThreadSupport (shared : MonitorShared ι) :
    shared.callThreadSupport.callbacks = shared.callbacks ++ [] ∨
      shared.callThreadSupport.callbacks = shared.callbacks ++ [.initThreadSupport] := by
  unfold callThreadSupport
  split
  · exact .inl (List.append_nil _).symm
  · exact .inr rfl

theorem FiniStep.tells {α : Type*} {go : FiniPc → α} {leave finish at' : α}
    {statement : FiniPc} (h : FiniStep t shared go leave finish statement at' after) :
    ∃ told, Tells t me next shared told ∧ after.callbacks = shared.callbacks ++ told := by
  cases h with
  | calls => exact ⟨_, .finiThread, rfl⟩
  | _ => exact ⟨_, .nothing, (List.append_nil _).symm⟩

/-- **A move tells the client one thing at most.** -/
theorem MonitorStep.tells (h : MonitorStep main t me shared move next after) :
    ∃ told, Tells t me next shared told ∧ after.callbacks = shared.callbacks ++ told := by
  cases h with
  | handler hhandler hfini => exact hfini.tells
  | statement hhandler hpc =>
      generalize hme : me.pc = pc at hpc
      cases hpc with
      | callsInitProcess => exact ⟨_, .initProcess hme rfl, rfl⟩
      | callsInit => exact ⟨_, .initThread hme rfl, rfl⟩
      | cleanup hfini => exact hfini.tells
      | releases =>
          unfold MonitorShared.release
          dsimp only
          split
          · rcases shared.callbacks_callThreadSupport with heq | heq
            · exact ⟨_, .nothing, heq⟩
            · exact ⟨_, .support (.inl hme), heq⟩
          · exact ⟨_, .nothing, (List.append_nil _).symm⟩
      | exits hexit =>
          cases hexit with
          | begins => exact ⟨_, .beginExit, rfl⟩
          | callsFiniProcess => exact ⟨_, .finiProcess hhandler hme, rfl⟩
          | own hfini => exact hfini.tells
          | _ => exact ⟨_, .nothing, (List.append_nil _).symm⟩
      | _ => exact ⟨_, .nothing, (List.append_nil _).symm⟩
  | creates =>
      unfold MonitorShared.create
      dsimp only
      split
      · rename_i hready
        rcases MonitorShared.callbacks_callThreadSupport { shared with hasUsedThreads := true }
          with heq | heq
        · exact ⟨_, .nothing, heq⟩
        · exact ⟨_, .support (.inr hready), heq⟩
      · exact ⟨_, .nothing, (List.append_nil _).symm⟩
  | _ => exact ⟨_, .nothing, (List.append_nil _).symm⟩

/-- **The numbers of the threads.**  A thread gets the next number when it is linked, and
keeps it up to its callback `monitor_init_thread`. -/
theorem MonitorStep.threadNum_cases (h : MonitorStep main t me shared move next after) :
    (me.pc = .link ∧ after.threadNum = shared.threadNum + 1 ∧
        (after.node t).tid = shared.threadNum + 1) ∨
      (after.threadNum = shared.threadNum ∧
        (next.pc = .initThread → me.pc = .initThread) ∧
        (me.pc ≠ .unlink → (after.node t).tid = (shared.node t).tid)) := by
  have hfini : ∀ {α : Type _} {go : FiniPc → α} {leave finish at' : α} {statement : FiniPc},
      FiniStep t shared go leave finish statement at' after →
        after.threadNum = shared.threadNum ∧ (after.node t).tid = (shared.node t).tid := by
    intro α go leave finish at' statement hstep
    refine ⟨by rw [hstep.frame], ?_⟩
    cases hstep with
    | marks | returns => rw [MonitorShared.setNode_self]
    | _ => rfl
  cases h with
  | handler hhandler hstep =>
      have hpc : next.pc = me.pc := by cases hstep <;> rfl
      exact .inr ⟨(hfini hstep).1, fun h => hpc ▸ h, fun _ => (hfini hstep).2⟩
  | statement hhandler hpc =>
      generalize me.pc = pc at hpc
      cases hpc with
      | links => exact .inl ⟨rfl, rfl, congrArg ThreadNode.tid MonitorShared.link_self⟩
      | setsApplStarted | marksEnded =>
          exact .inr ⟨rfl, nofun, fun _ => by rw [MonitorShared.setNode_self]⟩
      | unlinks => exact .inr ⟨rfl, nofun, fun h => absurd rfl h⟩
      | cleanup hstep =>
          refine .inr ⟨(hfini hstep).1, ?_, fun _ => (hfini hstep).2⟩
          rcases hstep.threadPc with heq | heq | ⟨_, heq⟩ <;>
            exact fun h => nomatch heq.symm.trans h
      | releases =>
          rw [MonitorShared.release_frame]
          exact .inr ⟨rfl, nofun, fun _ => rfl⟩
      | exits hexit =>
          cases hexit with
          | own hstep => exact .inr ⟨(hfini hstep).1, nofun, fun _ => (hfini hstep).2⟩
          | winsRace =>
              refine .inr ⟨rfl, nofun, fun _ => ?_⟩
              show ((shared.setNode t _).node t).tid = _
              rw [MonitorShared.setNode_self]
          | _ => exact .inr ⟨rfl, nofun, fun _ => rfl⟩
      | starts | supported | polls | refused | callsInit | callsInitProcess =>
          exact .inr ⟨rfl, nofun, fun _ => rfl⟩
  | creates =>
      rw [MonitorShared.create_frame]
      exact .inr ⟨rfl, id, fun _ => rfl⟩
  | blocks => exact .inr ⟨rfl, id, fun _ => by rw [MonitorShared.setNode_self]⟩
  | delivers => exact .inr ⟨rfl, id, fun _ => rfl⟩
  | finishes | exits | execFails => exact .inr ⟨rfl, nofun, fun _ => rfl⟩

end Moves

/-! ## The numbers -/

/-- The thread has this number: it is about to be told, or has been. -/
def Numbered (s : State ι (MonitorThread ι) (MonitorShared ι)) (t : ι) (n : ℕ) : Prop :=
  ((s.locals t).pc = .initThread ∧ (s.shared.node t).tid = n) ∨
    .initThread t n ∈ s.shared.callbacks

/-- Numbers are positive, and no two threads have the same; the main thread has number 0. -/
structure NumberInvariant (main : ι) (s : State ι (MonitorThread ι) (MonitorShared ι)) :
    Prop where
  bound : ∀ t n, Numbered s t n → 1 ≤ n ∧ n ≤ s.shared.threadNum
  inj : ∀ t u n, Numbered s t n → Numbered s u n → t = u
  ofMain : (s.shared.node main).tid = 0

/-- Where the process is before the client has been told of it. -/
structure BeforeMain (main : ι) (s : State ι (MonitorThread ι) (MonitorShared ι)) : Prop where
  callbacks : s.shared.callbacks = []
  reached : s.shared.hasReachedMain = false
  support : s.shared.threadSupportDone = false
  ofMain : (s.locals main).pc = .initProcess
  idle : ∀ t, (s.locals t).handler = none ∧ s.shared.pending t = false
  others : ∀ t, t ≠ main → (s.locals t).pc = .absent ∨ (s.locals t).pc = .awaitSupport

/-- The client has been told of the process first, and is not told again. -/
structure AfterMain (s : State ι (MonitorThread ι) (MonitorShared ι)) : Prop where
  head : ∃ rest, s.shared.callbacks = .initProcess :: rest ∧ .initProcess ∉ rest
  past : ∀ t, (s.locals t).pc ≠ .initProcess

section Order

variable [DecidableEq ι] {main t : ι} {me next : MonitorThread ι}
variable {shared after : MonitorShared ι} {move : ThreadMove ι}

/-- **A move keeps the numbers of the threads apart.** -/
theorem NumberInvariant.step {before after : State ι (MonitorThread ι) (MonitorShared ι)}
    {event : ι × ThreadMove ι} (hlist : ListInvariant main before)
    (hstep : (monitorThreads main).step before event = some after)
    (h : NumberInvariant main before) : NumberInvariant main after := by
  obtain ⟨t, move⟩ := event
  obtain ⟨me, shared, hact, rfl⟩ := Choices.step_eq_some_iff.mp hstep
  have hmove := monitorStep_of_threadMove hact
  obtain ⟨told, htells, hcallbacks⟩ := hmove.tells
  have hthreadNum := hmove.threadNum_cases
  -- a number is an old one, or the next one
  have hold : ∀ u n, Numbered { locals := Function.update before.locals t me, shared } u n →
      Numbered before u n ∨
        (u = t ∧ n = before.shared.threadNum + 1 ∧
          shared.threadNum = before.shared.threadNum + 1) := by
    rintro u n (⟨hpc, htid⟩ | hmem)
    · by_cases hu : u = t
      · subst hu
        have hpc : me.pc = .initThread := by simpa using hpc
        have htid : (shared.node u).tid = n := htid
        rcases hthreadNum with ⟨-, hnum, hnew⟩ | ⟨-, hsame, hkeeps⟩
        · exact .inr ⟨rfl, htid.symm.trans hnew, hnum⟩
        · have hbefore := hsame hpc
          exact .inl (.inl ⟨hbefore, (hkeeps (by simp [hbefore])).symm.trans htid⟩)
      · have hpc : (before.locals u).pc = .initThread := by
          simpa [Function.update_of_ne hu] using hpc
        have hnode : shared.node u = before.shared.node u := (hmove.others hu).1
        exact .inl (.inl ⟨hpc, hnode ▸ htid⟩)
    · have hmem : .initThread u n ∈ before.shared.callbacks ++ told := hcallbacks ▸ hmem
      rcases List.mem_append.mp hmem with hmem | hmem
      · exact .inl (.inr hmem)
      · cases htells with
        | initThread hpc =>
            cases List.mem_singleton.mp hmem
            exact .inl (.inl ⟨hpc, rfl⟩)
        | nothing => cases hmem
        | _ => cases List.mem_singleton.mp hmem
  have hmono : before.shared.threadNum ≤ shared.threadNum := by
    rcases hthreadNum with ⟨-, hnum, -⟩ | ⟨hnum, -, -⟩ <;> omega
  refine ⟨fun u n hu => ?_, fun u v n hu hv => ?_, ?_⟩
  · rcases hold u n hu with hu | ⟨-, rfl, hnum⟩
    · exact ⟨(h.bound u n hu).1, (h.bound u n hu).2.trans hmono⟩
    · exact ⟨Nat.succ_pos _, hnum.ge⟩
  · rcases hold u n hu with hu' | ⟨hut, hn, -⟩ <;> rcases hold v n hv with hv' | ⟨hvt, hn', -⟩
    · exact h.inj u v n hu' hv'
    · have hbound := (h.bound u n hu').2
      omega
    · have hbound := (h.bound v n hv').2
      omega
    · rw [hut, hvt]
  · show (shared.node main).tid = 0
    by_cases hmain : main = t
    · subst hmain
      have hofMain := (hlist.threads main).ofMain rfl
      rcases hthreadNum with ⟨hpc, -, -⟩ | ⟨-, -, hkeeps⟩
      · rw [hpc] at hofMain
        cases hofMain
      · rw [hkeeps fun hpc => ?_, h.ofMain]
        rw [hpc] at hofMain
        exact hofMain
    · rw [(hmove.others hmain).1]
      exact h.ofMain

/-- Before the client is told of the process, only the main thread does anything. -/
theorem BeforeMain.step {before after : State ι (MonitorThread ι) (MonitorShared ι)}
    {event : ι × ThreadMove ι} (hlist : ListInvariant main before)
    (hstep : (monitorThreads main).step before event = some after)
    (h : BeforeMain main before) : BeforeMain main after ∨ AfterMain after := by
  obtain ⟨t, move⟩ := event
  obtain ⟨me, shared, hact, rfl⟩ := Choices.step_eq_some_iff.mp hstep
  have hmove := monitorStep_of_threadMove hact
  by_cases hmain : t = main
  · subst hmain
    have hpc := h.ofMain
    have hhandler := (h.idle t).1
    have hpending := (h.idle t).2
    have hother : ∀ u, u ≠ t → Function.update before.locals t me u = before.locals u :=
      fun u hu => Function.update_of_ne hu _ _
    generalize before.locals t = old at hmove hpc hhandler
    cases hmove with
    | handler hsome => rw [hhandler] at hsome; cases hsome
    | statement _ hstatement =>
        rw [hpc] at hstatement
        cases hstatement with
        | callsInitProcess =>
            refine .inr ⟨⟨[], ?_, nofun⟩, fun u => ?_⟩
            · show before.shared.callbacks ++ [.initProcess] = _
              rw [h.callbacks]
              rfl
            · by_cases hu : u = t
              · subst hu
                simp
              · show (Function.update before.locals t _ u).pc ≠ .initProcess
                rw [hother u hu]
                rcases h.others u hu with heq | heq <;> simp [heq]
    | delivers _ _ hset => rw [hpending] at hset; cases hset
    | @creates child =>
        refine .inl ⟨?_, ?_, ?_, ?_, fun u => ?_, fun u hu => ?_⟩
        · show (before.shared.create child).callbacks = []
          simp [MonitorShared.create, h.reached, h.callbacks]
        · show (before.shared.create child).hasReachedMain = false
          rw [MonitorShared.create_frame, h.reached]
        · show (before.shared.create child).threadSupportDone = false
          simp [MonitorShared.create, h.reached, h.support]
        · simpa using hpc
        · have hcreate : (before.shared.create child).pending = before.shared.pending := by
            rw [MonitorShared.create_frame]
          refine ⟨?_, by rw [hcreate]; exact (h.idle u).2⟩
          by_cases hu : u = t
          · subst hu
            simpa using hhandler
          · show (Function.update before.locals t _ u).handler = none
            rw [hother u hu]
            exact (h.idle u).1
        · show (Function.update before.locals t _ u).pc = .absent ∨
          (Function.update before.locals t _ u).pc = .awaitSupport
          rw [hother u hu]
          exact h.others u hu
    | finishes _ hrunning | execFails _ hrunning | blocks _ hrunning =>
        rw [hpc] at hrunning
        cases hrunning
    | exits _ hrunning => simp [hpc] at hrunning
  · -- the other threads start, and poll
    have hpc := h.others t hmain
    have hhandler := (h.idle t).1
    have hpending := (h.idle t).2
    have hsame : before.shared = shared ∧ me = { pc := .awaitSupport } := by
      generalize before.locals t = old at hmove hpc hhandler
      cases hmove with
      | handler hsome => rw [hhandler] at hsome; cases hsome
      | statement _ hstatement =>
          rcases hpc with hpc | hpc
          · rw [hpc] at hstatement
            cases hstatement
            exact ⟨rfl, rfl⟩
          · rw [hpc] at hstatement
            cases hstatement with
            | supported hdone => rw [h.support] at hdone; cases hdone
            | polls => exact ⟨rfl, rfl⟩
      | delivers _ _ hset => rw [hpending] at hset; cases hset
      | creates _ hrunning | exits _ hrunning =>
          rcases hpc with hpc | hpc <;> simp [hpc] at hrunning
      | finishes _ hrunning | execFails _ hrunning | blocks _ hrunning =>
          rcases hpc with hpc | hpc <;> simp [hpc] at hrunning
    obtain ⟨rfl, rfl⟩ := hsame
    refine .inl ⟨h.callbacks, h.reached, h.support, ?_, fun u => ⟨?_, (h.idle u).2⟩,
      fun u hu => ?_⟩
    · show (Function.update before.locals t _ main).pc = .initProcess
      rw [Function.update_of_ne (Ne.symm hmain)]
      exact h.ofMain
    · show (Function.update before.locals t _ u).handler = none
      by_cases hut : u = t
      · subst hut
        simp
      · rw [Function.update_of_ne hut]
        exact (h.idle u).1
    · show (Function.update before.locals t _ u).pc = .absent ∨
          (Function.update before.locals t _ u).pc = .awaitSupport
      by_cases hut : u = t
      · subst hut
        simp
      · rw [Function.update_of_ne hut]
        exact h.others u hu

/-- The process is told once. -/
theorem AfterMain.step {before after : State ι (MonitorThread ι) (MonitorShared ι)}
    {event : ι × ThreadMove ι}
    (hstep : (monitorThreads main).step before event = some after)
    (h : AfterMain before) : AfterMain after := by
  obtain ⟨t, move⟩ := event
  obtain ⟨me, shared, hact, rfl⟩ := Choices.step_eq_some_iff.mp hstep
  have hmove := monitorStep_of_threadMove hact
  obtain ⟨told, htells, hcallbacks⟩ := hmove.tells
  obtain ⟨rest, hhead, hnot⟩ := h.head
  have hpast := h.past t
  refine ⟨⟨rest ++ told, ?_, ?_⟩, forall_update_pc (P := fun _ pc => pc ≠ .initProcess) ?_
    fun u _ => h.past u⟩
  · show shared.callbacks = _
    rw [hcallbacks, hhead]
    rfl
  · rw [List.mem_append, not_or]
    refine ⟨hnot, ?_⟩
    cases htells with
    | initProcess hpc => exact absurd hpc hpast
    | _ => simp
  · generalize before.locals t = old at hmove hpast
    cases hmove with
    | handler _ hfini => cases hfini <;> exact hpast
    | statement _ hstatement =>
        generalize old.pc = pc at hstatement
        cases hstatement with
        | cleanup hfini => rcases hfini.threadPc with heq | heq | ⟨_, heq⟩ <;> simp [heq]
        | _ => nofun
    | delivers | creates | blocks => exact hpast
    | finishes | exits | execFails => nofun

end Order

/-! ## The contract -/

/-- The callbacks before `monitor_fini_process` is called by this thread. -/
structure Lawful [DecidableEq ι] (main : ι) (front : List (MonitorCallback ι)) (w : ι) (n : ℕ) :
    Prop where
  head : ∃ rest, front = .initProcess :: rest ∧ .initProcess ∉ rest
  noEnd : ∀ callback ∈ front, callback.IsFiniProcess = false
  told : ∀ t, front.filter (MonitorCallback.IsAbout t) = [] ∨
    ∃ tid, front.filter (MonitorCallback.IsAbout t) = [.initThread t tid, .finiThread t tid]
  pos : ∀ t tid, .initThread t tid ∈ front → 1 ≤ tid
  inj : ∀ t u tid, .initThread t tid ∈ front → .initThread u tid ∈ front → t = u
  exiting : (w = main ∧ n = 0) ∨ (w ≠ main ∧ .initThread w n ∈ front)

/-- The invariant of orderly runs. -/
structure ContractInvariant [DecidableEq ι] (main : ι)
    (s : State ι (MonitorThread ι) (MonitorShared ι)) : Prop where
  shootdown : ShootdownInvariant main s
  race : ∃ phase : RacePhase ι, phase.In s
  numbers : NumberInvariant main s
  order : BeforeMain main s ∨ AfterMain s
  lawful : ∀ front w n back, s.shared.callbacks = front ++ .finiProcess w n :: back →
    Lawful main front w n

section Contract

variable [DecidableEq ι] {main : ι} {s : State ι (MonitorThread ι) (MonitorShared ι)}

/-- What has been told when a thread is about to call `monitor_fini_process`. -/
theorem ContractInvariant.lawful_of_finiProcess (h : ContractInvariant main s) {w : ι}
    (hpc : (s.locals w).pc = .exit .finiProcess) (hhandler : (s.locals w).handler = none) :
    Lawful main s.shared.callbacks w (s.shared.node w).tid := by
  have habout := h.shootdown.about_of_finiProcess hpc hhandler
  refine ⟨?_, ?_, fun t => ?_, fun t tid hmem => ?_, fun t u tid ht hu => ?_, ?_⟩
  · rcases h.order with hbefore | hafter
    · -- the main thread is not exiting before it has begun
      by_cases hw : w = main
      · rw [hw, hbefore.ofMain] at hpc
        cases hpc
      · rcases hbefore.others w hw with heq | heq
        all_goals
          rw [heq] at hpc
          cases hpc
    · exact hafter.head
  · obtain ⟨phase, hphase⟩ := h.race
    have hwon : phase = .won w := (hphase.before w).mp (by rw [hpc]; trivial)
    have hcount := hphase.count
    rw [hwon] at hcount
    intro callback hmem
    by_contra hfini
    exact List.countP_eq_zero.mp hcount callback hmem (by simpa using hfini)
  · rcases habout t with ⟨hnone, -⟩ | ⟨-, tid, hboth, -⟩
    · exact .inl hnone
    · exact .inr ⟨tid, hboth⟩
  · exact (h.numbers.bound t tid (.inr hmem)).1
  · exact h.numbers.inj t u tid (.inr ht) (.inr hu)
  · by_cases hw : w = main
    · rw [hw]
      exact .inl ⟨rfl, h.numbers.ofMain⟩
    · refine .inr ⟨hw, ?_⟩
      have hmem : w ∈ s.shared.threadList :=
        (h.shootdown.callbacks.list.threads w).mem.mpr ⟨hw, by rw [hpc]; trivial⟩
      rcases habout w with ⟨-, hnot⟩ | ⟨-, tid, hboth, htid⟩
      · exact absurd hmem hnot
      · have hin : .initThread w tid ∈ s.shared.about w := by
          rw [hboth]
          exact List.mem_cons_self
        rw [← htid hmem]
        exact (List.mem_filter.mp hin).1

/-- **One move keeps the invariant.** -/
theorem ContractInvariant.step {before after : State ι (MonitorThread ι) (MonitorShared ι)}
    {event : ι × ThreadMove ι} (horderly : Orderly before event)
    (hstep : (monitorThreads main).step before event = some after)
    (h : ContractInvariant main before) : ContractInvariant main after := by
  have hlist := h.shootdown.callbacks.list
  refine ⟨h.shootdown.step horderly hstep, ?_, h.numbers.step hlist hstep, ?_, ?_⟩
  · obtain ⟨phase, hphase⟩ := h.race
    obtain ⟨phase', -, hphase'⟩ := hphase.step hstep
    exact ⟨phase', hphase'⟩
  · rcases h.order with hbefore | hafter
    · exact hbefore.step hlist hstep
    · exact .inr (hafter.step hstep)
  · obtain ⟨t, move⟩ := event
    obtain ⟨me, shared, hact, rfl⟩ := Choices.step_eq_some_iff.mp hstep
    obtain ⟨told, htells, hcallbacks⟩ := (monitorStep_of_threadMove hact).tells
    intro front w n back hsplit
    have hsplit : before.shared.callbacks ++ told = front ++ .finiProcess w n :: back :=
      hcallbacks.symm.trans hsplit
    -- the call was made before, or in this move
    have hlast : ∀ callback, told = [callback] → Lawful main front w n ∨
        (front = before.shared.callbacks ∧ .finiProcess w n = callback) := by
      rintro callback rfl
      rcases List.eq_nil_or_concat back with rfl | ⟨back', last, rfl⟩
      · obtain ⟨hfront, hcall⟩ := List.append_inj' hsplit rfl
        exact .inr ⟨hfront.symm, (List.singleton_inj.mp hcall).symm⟩
      · have hsplit : before.shared.callbacks ++ [callback] =
            (front ++ .finiProcess w n :: back') ++ [last] := by simpa using hsplit
        exact .inl (h.lawful front w n back' (List.append_inj' hsplit rfl).1)
    cases htells with
    | nothing =>
        rw [List.append_nil] at hsplit
        exact h.lawful front w n back hsplit
    | finiProcess hhandler hpc =>
        rcases hlast _ rfl with hlawful | ⟨rfl, hcall⟩
        · exact hlawful
        · cases hcall
          exact h.lawful_of_finiProcess hpc hhandler
    | _ => exact (hlast _ rfl).resolve_right fun hcall => nomatch hcall.2

theorem contractInvariant_initial (main : ι) : ContractInvariant main (monitorInitial main) where
  shootdown := shootdownInvariant_initial main
  race := ⟨.fresh, racePhase_initial main⟩
  numbers :=
    { bound := fun t n hnumbered => by
        rcases hnumbered with ⟨hpc, -⟩ | hmem
        · unfold monitorInitial at hpc
          by_cases hmain : t = main <;> simp [hmain] at hpc
        · cases hmem
      inj := fun t u n hnumbered => by
        rcases hnumbered with ⟨hpc, -⟩ | hmem
        · unfold monitorInitial at hpc
          by_cases hmain : t = main <;> simp [hmain] at hpc
        · cases hmem
      ofMain := rfl }
  order := .inl
    { callbacks := rfl
      reached := rfl
      support := rfl
      ofMain := by simp [monitorInitial]
      idle := fun t => ⟨rfl, rfl⟩
      others := fun t hmain => by simp [monitorInitial, hmain] }
  lawful front w n back hsplit := by simp [monitorInitial] at hsplit

/-- **Every orderly run keeps to the contract so far.** -/
theorem contractInvariant_of_run {events : List (ι × ThreadMove ι)}
    (horderly : (monitorThreads main).Meets Orderly (monitorInitial main) events)
    (hrun : (monitorThreads main).run (monitorInitial main) events = some s) :
    ContractInvariant main s :=
  Choices.run_invariant_of_meets (fun _ _ _ horderly hstep h => h.step horderly hstep)
    (contractInvariant_initial main) horderly hrun

end Contract

/-! ## The history of the client -/

/-- The callback of the client that libmonitor's callback is, whatever the clock and the
counters show.  The main thread has number 0. -/
inductive Reports : MonitorCallback ι → Callback → Prop
  | initProcess (io : CallbackIo) : Reports .initProcess (.initProcess 0 io)
  | initThreadSupport : Reports .initThreadSupport .initThreadSupport
  | initThread (t : ι) (tid : ℕ) (io : CallbackIo) :
      Reports (.initThread t tid) (.initThread tid io)
  | finiThread (t : ι) (tid : ℕ) (io : CallbackIo) :
      Reports (.finiThread t tid) (.finiThread tid io)
  | finiProcess (t : ι) (tid : ℕ) (io : CallbackIo) :
      Reports (.finiProcess t tid) (.finiProcess tid io)

/-- The client does not define `monitor_begin_process_exit`. -/
def MonitorCallback.Defined : MonitorCallback ι → Bool
  | .beginProcessExit => false
  | _ => true

/-- The callback is about the thread with this number. -/
def MonitorCallback.HasNumber (tid : ℕ) : MonitorCallback ι → Bool
  | .initThread _ n => n = tid
  | .finiThread _ n => n = tid
  | _ => false

section History

variable [DecidableEq ι] {main : ι} {front : List (MonitorCallback ι)} {w : ι} {n : ℕ}

/-- The end of a thread is told with the number of its start. -/
theorem Lawful.initThread_mem (h : Lawful main front w n) {t : ι} {tid : ℕ}
    (hmem : .finiThread t tid ∈ front) : .initThread t tid ∈ front := by
  have hin : .finiThread t tid ∈ front.filter (MonitorCallback.IsAbout t) :=
    List.mem_filter.mpr ⟨hmem, by simp [MonitorCallback.IsAbout]⟩
  rcases h.told t with hnone | ⟨tid', hboth⟩
  · rw [hnone] at hin
    cases hin
  · rw [hboth] at hin
    have htid : tid = tid' := by simpa using hin
    have hinit : .initThread t tid' ∈ front.filter (MonitorCallback.IsAbout t) := by
      rw [hboth]
      exact List.mem_cons_self
    rw [htid]
    exact (List.mem_filter.mp hinit).1

/-- The callbacks with a number are those about one thread. -/
theorem Lawful.filter_hasNumber (h : Lawful main front w n) (tid : ℕ) :
    front.filter (MonitorCallback.HasNumber tid) = [] ∨
      1 ≤ tid ∧ ∃ t, front.filter (MonitorCallback.HasNumber tid) =
        [.initThread t tid, .finiThread t tid] := by
  by_cases hexists : ∃ t, .initThread t tid ∈ front
  · obtain ⟨t, ht⟩ := hexists
    refine .inr ⟨h.pos t tid ht, t, ?_⟩
    obtain ⟨tid', hboth⟩ := (h.told t).resolve_left fun hnone => by
      have hin : .initThread t tid ∈ front.filter (MonitorCallback.IsAbout t) :=
        List.mem_filter.mpr ⟨ht, by simp [MonitorCallback.IsAbout]⟩
      rw [hnone] at hin
      cases hin
    have honly : ∀ m, .initThread t m ∈ front → m = tid' := by
      intro m hm
      have hin : .initThread t m ∈ front.filter (MonitorCallback.IsAbout t) :=
        List.mem_filter.mpr ⟨hm, by simp [MonitorCallback.IsAbout]⟩
      rw [hboth] at hin
      simpa using hin
    cases honly tid ht
    rw [← hboth]
    -- a callback has the number just if it is about the thread
    have hiff : ∀ u m, .initThread u m ∈ front → (m = tid ↔ u = t) := by
      intro u m hm
      constructor
      · rintro rfl
        exact h.inj u t m hm ht
      · rintro rfl
        exact honly m hm
    refine List.filter_congr fun callback hmem => ?_
    cases callback with
    | initThread u m => exact decide_eq_decide.mpr (hiff u m hmem)
    | finiThread u m => exact decide_eq_decide.mpr (hiff u m (h.initThread_mem hmem))
    | _ => rfl
  · refine .inl (List.filter_eq_nil_iff.mpr fun callback hmem hnumber => hexists ?_)
    cases callback with
    | initThread u m =>
        have hm : m = tid := by simpa [MonitorCallback.HasNumber] using hnumber
        exact ⟨u, hm ▸ hmem⟩
    | finiThread u m =>
        have hm : m = tid := by simpa [MonitorCallback.HasNumber] using hnumber
        exact ⟨u, hm ▸ h.initThread_mem hmem⟩
    | _ => cases hnumber

omit [DecidableEq ι] in
/-- The client is told of the start of each thread that has one. -/
theorem Lawful.exists_initThread {rest : List (MonitorCallback ι)}
    (hfront : front = .initProcess :: rest) {body : List Callback}
    (hbody : List.Forall₂ Reports (rest.filter MonitorCallback.Defined) body) {t : ι} {tid : ℕ}
    (hmem : .initThread t tid ∈ front) : ∃ io, .initThread tid io ∈ body := by
  rw [hfront] at hmem
  have hrest : .initThread t tid ∈ rest := (List.mem_cons.mp hmem).resolve_left nofun
  obtain ⟨reported, hin, hreports⟩ :=
    Related.exists_of_mem hbody (List.mem_filter.mpr ⟨hrest, rfl⟩)
  cases hreports with
  | initThread _ _ io => exact ⟨io, hin⟩

/-- The callbacks of the client after the first one. -/
theorem Lawful.contract (h : Lawful main front w n) {rest : List (MonitorCallback ι)}
    (hfront : front = .initProcess :: rest) (hrest : .initProcess ∉ rest)
    {body : List Callback}
    (hbody : List.Forall₂ Reports (rest.filter MonitorCallback.Defined) body) :
    MonitorContract 0 n body := by
  -- the callbacks of the client about a number
  have hnumber : ∀ tid, List.Forall₂ Reports (front.filter (MonitorCallback.HasNumber tid))
      (body.filter (Callback.IsAbout tid)) := by
    intro tid
    have hsame : front.filter (MonitorCallback.HasNumber tid) =
        (rest.filter MonitorCallback.Defined).filter (MonitorCallback.HasNumber tid) := by
      rw [hfront, List.filter_cons_of_neg (by simp [MonitorCallback.HasNumber]),
        List.filter_filter]
      refine List.filter_congr fun callback _ => ?_
      cases callback <;> simp [MonitorCallback.HasNumber, MonitorCallback.Defined]
    rw [hsame]
    refine Related.forall₂_filter hbody fun callback hmem reported hreports => ?_
    have hmem := (List.mem_filter.mp hmem).1
    cases hreports with
    | initProcess => exact absurd hmem hrest
    | finiProcess t m io =>
        have hend := h.noEnd _ (hfront ▸ List.mem_cons_of_mem _ hmem)
        cases hend
    | _ => rfl
  have hcreated : ∀ tid, body.filter (Callback.IsAbout tid) = [] ∨
      1 ≤ tid ∧ ∃ io io', body.filter (Callback.IsAbout tid) =
        [.initThread tid io, .finiThread tid io'] := by
    intro tid
    have hlist := hnumber tid
    rcases h.filter_hasNumber tid with hnone | ⟨hpos, t, hboth⟩
    · rw [hnone] at hlist
      exact .inl (List.forall₂_nil_left_iff.mp hlist)
    · rw [hboth] at hlist
      generalize body.filter (Callback.IsAbout tid) = reported at hlist
      cases hlist with
      | cons hinit hlist =>
          cases hlist with
          | cons hfini hlist =>
              cases hlist
              cases hinit
              cases hfini
              exact .inr ⟨hpos, _, _, rfl⟩
  refine ⟨fun tid => (hcreated tid).imp_right And.right, ?_, ?_⟩
  · exact (hcreated 0).resolve_right fun hpos => absurd hpos.1 (by omega)
  · exact h.exiting.imp And.right fun hcreated => exists_initThread hfront hbody hcreated.2

/-- What the client is called with up to `monitor_fini_process`. -/
theorem Lawful.history (h : Lawful main front w n) {history : List Callback}
    (hhistory : List.Forall₂ Reports (front.filter MonitorCallback.Defined) history) :
    ∃ body start, history = .initProcess 0 start :: body ∧ MonitorContract 0 n body ∧
      (w ≠ main → n ≠ 0 ∧ ∃ io, .initThread n io ∈ body) := by
  obtain ⟨rest, hfront, hrest⟩ := h.head
  rw [hfront, List.filter_cons_of_pos rfl] at hhistory
  cases hhistory with
  | cons hinit hbody =>
      cases hinit
      refine ⟨_, _, rfl, h.contract hfront hrest hbody, fun hother => ?_⟩
      have hmem := (h.exiting.resolve_left fun hmain => hother hmain.1).2
      exact ⟨Nat.one_le_iff_ne_zero.mp (h.pos w n hmem), exists_initThread hfront hbody hmem⟩

/-- **libmonitor keeps its contract.**  In every orderly run, however the threads are
interleaved and whichever of them exits, when `monitor_fini_process` is called the
client has been called as in the history of a process: first for the process, then for
each created thread nothing or one start and one end, under a number of its own. -/
theorem callbacks_follow_contract {events : List (ι × ThreadMove ι)}
    {s : State ι (MonitorThread ι) (MonitorShared ι)}
    (horderly : (monitorThreads main).Meets Orderly (monitorInitial main) events)
    (hrun : (monitorThreads main).run (monitorInitial main) events = some s)
    {back : List (MonitorCallback ι)}
    (hcall : s.shared.callbacks = front ++ .finiProcess w n :: back) {history : List Callback}
    (hhistory : List.Forall₂ Reports
      ((front ++ [MonitorCallback.finiProcess w n]).filter MonitorCallback.Defined) history) :
    ∃ body start finish, history = processHistory 0 n body start finish ∧
      MonitorContract 0 n body := by
  have hlawful := (contractInvariant_of_run horderly hrun).lawful front w n back hcall
  rw [List.filter_append, List.filter_cons_of_pos rfl, List.filter_nil] at hhistory
  obtain ⟨told, last, rfl, htold, hlast⟩ := Related.forall₂_append_singleton hhistory
  cases hlast with
  | finiProcess t tid finish =>
      obtain ⟨body, start, rfl, hcontract, -⟩ := hlawful.history htold
      exact ⟨body, start, finish, rfl, hcontract⟩

/-- **How a profiled process ends.**  In every orderly run the library goes through the
callbacks of libmonitor up to `monitor_fini_process` without an error.  If the main thread
exits, the statistics are printed once, and point 0 of each record has been stopped exactly
once; if another thread exits, the library stops with a fatal error, as point 0 of that
thread is stopped already. -/
theorem profiled_process_ends {events : List (ι × ThreadMove ι)}
    {s : State ι (MonitorThread ι) (MonitorShared ι)}
    (horderly : (monitorThreads main).Meets Orderly (monitorInitial main) events)
    (hrun : (monitorThreads main).run (monitorInitial main) events = some s)
    {back : List (MonitorCallback ι)}
    (hcall : s.shared.callbacks = front ++ .finiProcess w n :: back) {history : List Callback}
    (hhistory : List.Forall₂ Reports (front.filter MonitorCallback.Defined) history)
    (cfg : Config) (finish : CallbackIo) :
    ∃ proc, FallibleRun.run Callback.exec (Process.initLibraryGlobals cfg) history = .ok proc ∧
      (w = main → ∃ final, Callback.exec proc (.finiProcess n finish) = .ok final ∧
        final.printed = [final.tableRecords] ∧
        ∀ record ∈ final.tableRecords, record.StoppedOnce) ∧
      (w ≠ main → Callback.exec proc (.finiProcess n finish) = .error (.pointNotInUse 0)) := by
  have hlawful := (contractInvariant_of_run horderly hrun).lawful front w n back hcall
  obtain ⟨body, start, rfl, hcontract, hcreated⟩ := hlawful.history hhistory
  obtain ⟨proc, hproc, htracks, hshut, hprinted⟩ := Tracks.of_contract hcontract cfg start
  refine ⟨proc, hproc, fun hmain => ?_, fun hother => ?_⟩
  · have hn : n = 0 := (hlawful.exiting.resolve_right fun h => h.1 hmain).2
    have hothers : ∀ t, t ≠ 0 → body.foldl Phase.step (Phase.start 0) t ≠ .running := by
      intro t hne
      rw [hcontract.final_phase, if_neg hne]
      split <;> nofun
    have hphase := hcontract.final_phase 0
    rw [if_pos rfl] at hphase
    obtain ⟨final, hexec, hrecords, -, hstopped⟩ :=
      htracks.finiProcess_main hshut hphase hothers finish
    rw [hn]
    exact ⟨final, hexec, by rw [hrecords, hprinted]; rfl, hstopped⟩
  · obtain ⟨hn, hstarted⟩ := hcreated hother
    have hphase := hcontract.phase_of_takesPart (.inr hstarted)
    rw [if_neg hn] at hphase
    exact htracks.finiProcess_ended hshut hphase finish

end History

/-- The race to exit as the client sees it. -/
theorem exitRace_run : ∃ s, (monitorThreads 0).run (monitorInitial 0) exitRace = some s ∧
    s.shared.callbacks = [.initProcess, .initThreadSupport, .initThread 1 1,
      .beginProcessExit, .finiThread 1 1] ++ .finiProcess 0 0 :: [] := ⟨_, rfl, rfl⟩

/-- A process with one thread. -/
theorem callbacks_follow_contract_of_race : ∃ body start finish,
    .initProcess 0 zeroCallbackIo :: oneThread ++ [.finiProcess 0 zeroCallbackIo] =
      processHistory 0 0 body start finish ∧ MonitorContract 0 0 body := by
  have horderly : (monitorThreads 0).Meets Orderly (monitorInitial 0) exitRace := by decide
  obtain ⟨s, hrun, hcall⟩ := exitRace_run
  exact callbacks_follow_contract horderly hrun hcall (.cons (.initProcess _)
    (.cons .initThreadSupport (.cons (.initThread 1 1 _) (.cons (.finiThread 1 1 _)
      (.cons (.finiProcess 0 0 _) .nil)))))

/-- A process with one thread, to its end. -/
theorem profiled_process_ends_of_race : ∃ proc,
    FallibleRun.run Callback.exec (Process.initLibraryGlobals plainSettings)
        (.initProcess 0 zeroCallbackIo :: oneThread) = .ok proc ∧
      ∃ final, Callback.exec proc (.finiProcess 0 zeroCallbackIo) = .ok final ∧
        final.printed = [final.tableRecords] ∧
        ∀ record ∈ final.tableRecords, record.StoppedOnce := by
  have horderly : (monitorThreads 0).Meets Orderly (monitorInitial 0) exitRace := by decide
  obtain ⟨s, hrun, hcall⟩ := exitRace_run
  obtain ⟨proc, hproc, hmain, -⟩ := profiled_process_ends horderly hrun hcall
    (.cons (.initProcess _) (.cons .initThreadSupport (.cons (.initThread 1 1 _)
      (.cons (.finiThread 1 1 _) .nil)))) plainSettings zeroCallbackIo
  exact ⟨proc, hproc, hmain rfl⟩

end Papiex
