import Papiex.Monitor.Callbacks
import Mathlib.Data.List.Nodup

/-!
# The shootdown

The thread that ends the process goes through the list of threads until it has seen each
of them finished, and then makes its own callback.  When `monitor_fini_process` is called,
each thread that was started has been told of its end: in every run in which the
shootdown does not give up, no thread is on its way to its start when the process begins
to exit, and no signal comes between the tests and the mark (`Orderly`).

## Main results

* `ExitPc.Knows`: what the thread that shoots down knows at each of its statements.
* `ShootdownInvariant.step`: one move keeps what is known.
* `threadList_eq_nil`: without threads there is nobody to shoot down.

## Design notes

`Orderly` is a condition on single moves, and the three exceptions that it leaves out do
happen: the shootdown goes on without a thread that does not take its signal, it does not
see a thread that has not started yet, and the handler of the signal finds the tests of the
thread passed and the mark not made.  What the loop knows in a pass is what it has seen of
the nodes behind it (`Passed`), and flags that are set stay set.
-/

namespace Papiex

open Interleaving

variable {ι : Type*}

/-! ## The walk through the list -/

section Walk

variable [DecidableEq ι] {threadList : List ι} {tn : ι}

/-- The nodes the loop has passed when it is at this one, or at the end. -/
def seen (threadList : List ι) : Option ι → List ι
  | none => threadList
  | some tn => threadList.takeWhile (· ≠ tn)

/-- At the head of the list nothing has been seen. -/
theorem seen_head (threadList : List ι) (h : threadList.head? ≠ none) :
    seen threadList threadList.head? = [] := by
  cases threadList with
  | nil => exact absurd rfl h
  | cons first rest => simp [seen]

theorem takeWhile_ne_append {front back : List ι} (h : tn ∉ front) :
    (front ++ tn :: back).takeWhile (· ≠ tn) = front := by
  have hfront : ∀ u ∈ front, decide (u ≠ tn) = true := fun u hu =>
    decide_eq_true fun heq => h (heq ▸ hu)
  rw [List.takeWhile_append_of_pos hfront]
  simp

theorem dropWhile_ne_append {front back : List ι} (h : tn ∉ front) :
    (front ++ tn :: back).dropWhile (· ≠ tn) = tn :: back := by
  have hfront : ∀ u ∈ front, decide (u ≠ tn) = true := fun u hu =>
    decide_eq_true fun heq => h (heq ▸ hu)
  rw [List.dropWhile_append_of_pos hfront]
  simp

/-- **The loop passes the nodes one by one.** -/
theorem seen_listNext (hnodup : threadList.Nodup) (hmem : tn ∈ threadList) :
    seen threadList (listNext threadList tn) = seen threadList (some tn) ++ [tn] := by
  obtain ⟨front, back, rfl⟩ := List.append_of_mem hmem
  have hnot : tn ∉ front := fun h =>
    (List.disjoint_of_nodup_append hnodup) h List.mem_cons_self
  have hseen : seen (front ++ tn :: back) (some tn) = front := takeWhile_ne_append hnot
  rw [hseen, listNext, dropWhile_ne_append hnot]
  cases back with
  | nil => rfl
  | cons next back =>
      -- the next node is further on
      have hsplit : front ++ tn :: next :: back = (front ++ [tn]) ++ next :: back := by simp
      rw [hsplit] at hnodup ⊢
      have hnext : next ∉ front ++ [tn] := fun h =>
        (List.disjoint_of_nodup_append hnodup) h List.mem_cons_self
      exact takeWhile_ne_append hnext

end Walk

/-! ## Orderly runs -/

/-- The loop gives up on the threads that have not taken the signal. -/
def GivesUp (late : Bool) (pass : ShootdownPass) : Prop :=
  pass.numUnfinished ≠ 0 ∧ ¬ pass.lastStarted < pass.numStarted ∧ late = true ∧
    0 < pass.numUnstarted

instance (late : Bool) (pass : ShootdownPass) : Decidable (GivesUp late pass) :=
  inferInstanceAs (Decidable (_ ∧ _))

/-- A statement of the shootdown that is no exception: no thread is between its link and
its start when the process begins to exit, and the loop does not give up. -/
def OrderlyStatement (late : Bool) (shared : MonitorShared ι) : ExitPc ι → Prop
  | .shootdown => ∀ t ∈ shared.threadList, (shared.node t).applStarted = true
  | .endPass pass => ¬ GivesUp late pass
  | _ => True

instance (late : Bool) (shared : MonitorShared ι) :
    DecidablePred (OrderlyStatement late shared) := fun statement => by
  cases statement <;> unfold OrderlyStatement <;> infer_instance

/-- A move that is no exception. -/
def OrderlyMove (shared : MonitorShared ι) : ThreadMove ι → ThreadPc ι → Prop
  | .statement late, .exit statement => OrderlyStatement late shared statement
  | _, _ => True

instance (shared : MonitorShared ι) (move : ThreadMove ι) (pc : ThreadPc ι) :
    Decidable (OrderlyMove shared move pc) :=
  match move, pc with
  | .statement late, .exit statement =>
      inferInstanceAs (Decidable (OrderlyStatement late shared statement))
  | .statement _, .absent | .statement _, .awaitSupport | .statement _, .link
  | .statement _, .refused | .statement _, .initThread | .statement _, .setApplStarted
  | .statement _, .running | .statement _, .cleanup _ | .statement _, .unlink
  | .statement _, .ended | .statement _, .unlinked | .statement _, .initProcess
  | .statement _, .release => instDecidableTrue
  | .deliver, _ | .create _, _ | .finish, _ | .exit, _ | .execFails, _ | .block _, _ =>
      instDecidableTrue

/-- The move is no exception, and no signal comes between the tests and the mark. -/
def Orderly (s : State ι (MonitorThread ι) (MonitorShared ι)) (event : ι × ThreadMove ι) :
    Prop :=
  OutsideWindow s event ∧ OrderlyMove s.shared event.2 (s.locals event.1).pc

instance [DecidableEq ι] (s : State ι (MonitorThread ι) (MonitorShared ι))
    (event : ι × ThreadMove ι) : Decidable (Orderly s event) :=
  inferInstanceAs (Decidable (_ ∧ _))

/-! ## What the loop has found out -/

/-- These threads, but for this one, have finished. -/
def OthersDone (t : ι) (shared : MonitorShared ι) (us : List ι) : Prop :=
  ∀ u ∈ us, u ≠ t → (shared.node u).finiDone = true

/-- The loop has passed these nodes in this pass. -/
structure Passed (t : ι) (shared : MonitorShared ι) (pass : ShootdownPass) (us : List ι) :
    Prop where
  done : pass.numUnfinished = 0 → OthersDone t shared us
  own : t ∈ us → pass.myTn = true

/-- What an exiting thread knows of the others at a statement. -/
def ExitPc.Knows [DecidableEq ι] (t : ι) (shared : MonitorShared ι) : ExitPc ι → Prop
  | .walk tn pass => Passed t shared pass (seen shared.threadList tn)
  | .readStarted tn pass | .readDone tn pass =>
      tn ≠ t ∧ Passed t shared pass (seen shared.threadList (some tn))
  | .endPass pass => Passed t shared pass shared.threadList
  | .setFiniThreadDone myTn | .testOwn myTn =>
      OthersDone t shared shared.threadList ∧ (t ∈ shared.threadList → myTn = true)
  | .own statement =>
      OthersDone t shared shared.threadList ∧
        (statement = .callback ∨ statement = .returns → (shared.node t).finiStarted = true)
  | .finiProcess =>
      OthersDone t shared shared.threadList ∧
        (t ∈ shared.threadList → (shared.node t).finiStarted = true)
  | _ => True

/-- Flags that are set stay set. -/
structure ThreadNode.Le (before after : ThreadNode) : Prop where
  applStarted : before.applStarted = true → after.applStarted = true
  finiStarted : before.finiStarted = true → after.finiStarted = true
  finiDone : before.finiDone = true → after.finiDone = true

theorem ThreadNode.Le.refl (tn : ThreadNode) : tn.Le tn := ⟨id, id, id⟩

section Knowledge

variable [DecidableEq ι] {main t u : ι} {me next : MonitorThread ι} {late : Bool}
variable {shared after : MonitorShared ι} {move : ThreadMove ι}

theorem MonitorShared.setNode_le {tn : ThreadNode} (h : (shared.node t).Le tn) (u : ι) :
    (shared.node u).Le ((shared.setNode t tn).node u) := by
  by_cases hu : u = t
  · subst hu
    rw [setNode_self]
    exact h
  · rw [setNode_of_ne hu]
    exact .refl _

/-- The statements around `monitor_fini_thread` raise the flags of the nodes. -/
theorem FiniStep.node_le {α : Type*} {go : FiniPc → α} {leave finish next : α}
    {statement : FiniPc} (h : FiniStep t shared go leave finish statement next after) (u : ι) :
    (shared.node u).Le (after.node u) := by
  cases h with
  | marks =>
      refine MonitorShared.setNode_le ?_ u
      exact ⟨id, fun _ => rfl, id⟩
  | returns =>
      refine MonitorShared.setNode_le ?_ u
      exact ⟨id, id, fun _ => rfl⟩
  | _ => exact .refl _

/-- The statements of the exit raise the flags of the nodes. -/
theorem ExitStep.node_le {statement at' : ExitPc ι}
    (h : ExitStep t late shared statement at' after) (u : ι) :
    (shared.node u).Le (after.node u) := by
  cases h with
  | winsRace =>
      show (shared.node u).Le ((shared.setNode t _).node u)
      refine MonitorShared.setNode_le ?_ u
      exact ⟨id, id, id⟩
  | own hfini => exact hfini.node_le u
  | _ => exact .refl _

/-- **Flags that are set stay set while the process exits.** -/
theorem MonitorStep.node_le (h : MonitorStep main t me shared move next after)
    (hexit : shared.inExitCleanup = true) (u : ι) : (shared.node u).Le (after.node u) := by
  cases h with
  | handler hhandler hfini => exact hfini.node_le u
  | statement hhandler hpc =>
      generalize me.pc = pc at hpc
      cases hpc with
      | links hnot | unlinks hnot =>
          rw [hexit] at hnot
          cases hnot
      | setsApplStarted =>
          refine MonitorShared.setNode_le ?_ u
          exact ⟨fun _ => rfl, id, id⟩
      | marksEnded =>
          refine MonitorShared.setNode_le ?_ u
          exact ⟨id, fun _ => rfl, fun _ => rfl⟩
      | cleanup hfini => exact hfini.node_le u
      | releases =>
          rw [MonitorShared.release_frame]
          exact .refl _
      | exits hstep => exact hstep.node_le u
      | starts | supported | polls | refused | callsInit | callsInitProcess => exact .refl _
  | creates =>
      rw [MonitorShared.create_frame]
      exact .refl _
  | blocks =>
      refine MonitorShared.setNode_le ?_ u
      exact ⟨id, id, id⟩
  | _ => exact .refl _

omit [DecidableEq ι] in
theorem OthersDone.mono {us : List ι} (h : OthersDone t shared us)
    (hle : ∀ u, (shared.node u).Le (after.node u)) : OthersDone t after us :=
  fun u hu hne => (hle u).finiDone (h u hu hne)

omit [DecidableEq ι] in
theorem Passed.mono {us : List ι} {pass : ShootdownPass} (h : Passed t shared pass us)
    (hle : ∀ u, (shared.node u).Le (after.node u)) : Passed t after pass us :=
  ⟨fun hnone => (h.done hnone).mono hle, h.own⟩

/-- What a thread knows stays true as long as the list does not change and flags stay set. -/
theorem ExitPc.Knows.mono {statement : ExitPc ι} (h : statement.Knows t shared)
    (hlist : after.threadList = shared.threadList)
    (hle : ∀ u, (shared.node u).Le (after.node u)) : statement.Knows t after := by
  cases statement with
  | walk tn pass =>
      show Passed t after pass (seen after.threadList tn)
      rw [hlist]
      exact Passed.mono h hle
  | readStarted tn pass | readDone tn pass =>
      refine ⟨h.1, ?_⟩
      rw [hlist]
      exact h.2.mono hle
  | endPass pass =>
      show Passed t after pass after.threadList
      rw [hlist]
      exact Passed.mono h hle
  | setFiniThreadDone myTn | testOwn myTn =>
      show OthersDone t after after.threadList ∧ (t ∈ after.threadList → myTn = true)
      rw [hlist]
      exact ⟨h.1.mono hle, h.2⟩
  | own at' =>
      show OthersDone t after after.threadList ∧ (_ → (after.node t).finiStarted = true)
      rw [hlist]
      exact ⟨h.1.mono hle, fun hpast => (hle t).finiStarted (h.2 hpast)⟩
  | finiProcess =>
      show OthersDone t after after.threadList ∧
        (t ∈ after.threadList → (after.node t).finiStarted = true)
      rw [hlist]
      exact ⟨h.1.mono hle, fun hmem => (hle t).finiStarted (h.2 hmem)⟩
  | _ => trivial

omit [DecidableEq ι] in
/-- The loop passes one more node. -/
theorem Passed.append {us : List ι} {pass pass' : ShootdownPass} {tn : ι}
    (h : Passed t shared pass us) (hnone : pass'.numUnfinished = 0 → pass.numUnfinished = 0)
    (hdone : pass'.numUnfinished = 0 → tn ≠ t → (shared.node tn).finiDone = true)
    (hown : (tn = t ∨ pass.myTn = true) → pass'.myTn = true) :
    Passed t shared pass' (us ++ [tn]) := by
  constructor
  · intro hzero u hu hne
    rcases List.mem_append.mp hu with hu | hu
    · exact h.done (hnone hzero) u hu hne
    · have heq := List.mem_singleton.mp hu
      rw [heq]
      exact hdone hzero (heq ▸ hne)
  · intro hmem
    rcases List.mem_append.mp hmem with hmem | hmem
    · exact hown (.inr (h.own hmem))
    · exact hown (.inl (List.mem_singleton.mp hmem).symm)

/-- **One statement of the shootdown.** -/
theorem ExitPc.Knows.step {statement at' : ExitPc ι} (h : statement.Knows t shared)
    (hstep : ExitStep t late shared statement at' after) (hok : ExitOk t statement shared)
    (hnodup : shared.threadList.Nodup) (horderly : OrderlyStatement late shared statement)
    (hstarted : statement.InShootdown → ∀ u ∈ shared.threadList,
      (shared.node u).applStarted = true)
    (halone : shared.hasUsedThreads = false → shared.threadList = []) :
    at'.Knows t after := by
  cases hstep with
  | startsPass pass =>
      show Passed t shared _ (seen shared.threadList shared.threadList.head?)
      have hnone : seen shared.threadList shared.threadList.head? = [] := by
        by_cases hhead : shared.threadList.head? = none
        · rw [hhead]
          exact List.head?_eq_none_iff.mp hhead
        · exact seen_head _ hhead
      rw [hnone]
      exact ⟨fun _ => nofun, nofun⟩
  | endsPass => exact h
  | meetsItself pass =>
      show Passed t shared _ (seen _ (listNext shared.threadList t))
      rw [seen_listNext hnodup (hok.pointer t rfl)]
      exact Passed.append h id (fun _ hne => absurd rfl hne) fun _ => rfl
  | looksAt tn pass hne => exact ⟨hne, h⟩
  | passesBy tn pass hne happl =>
      -- no thread of the list is on its way to its start
      rw [hstarted trivial tn (hok.pointer tn rfl)] at happl
      cases happl
  | countsStarted tn pass => exact ⟨h.1, h.2.done, h.2.own⟩
  | kills tn pass => exact ⟨h.1, h.2.done, h.2.own⟩
  | countsFinished tn pass hdone =>
      show Passed t shared _ (seen _ (listNext shared.threadList tn))
      rw [seen_listNext hnodup (hok.pointer tn rfl)]
      exact h.2.append id (fun _ _ => hdone) fun hown => hown.resolve_left h.1
  | countsUnfinished tn pass =>
      show Passed t shared _ (seen _ (listNext shared.threadList tn))
      rw [seen_listNext hnodup (hok.pointer tn rfl)]
      exact h.2.append nofun nofun fun hown => hown.resolve_left h.1
  | allFinished pass hnone => exact ⟨h.done hnone, h.own⟩
  | givesUp pass hsome hstuck hlate hunstarted =>
      exact absurd ⟨hsome, hstuck, hlate, hunstarted⟩ horderly
  | stopsCallbacks => exact h
  | ownLeft => exact ⟨h.1, fun hpast => hpast.elim nofun nofun⟩
  | noneLeft myTn hfini => exact ⟨h.1, fun hmem => hfini (h.2 hmem)⟩
  | noThreads hused =>
      show OthersDone t shared shared.threadList ∧ _
      rw [halone hused]
      exact ⟨nofun, nofun⟩
  | own hfini =>
      have hpast := hok.ownPast
      cases hfini with
      | skips | passes | tooLate | inTime => cases hpast
      | marks =>
          refine ⟨fun u hu hne => ?_, fun _ => ?_⟩
          · rw [MonitorShared.setNode_of_ne hne]
            exact h.1 u hu hne
          · rw [MonitorShared.setNode_self]
      | calls => exact ⟨h.1, fun _ => h.2 (.inl rfl)⟩
      | returns =>
          refine ⟨fun u hu hne => ?_, fun _ => ?_⟩
          · rw [MonitorShared.setNode_of_ne hne]
            exact h.1 u hu hne
          · rw [MonitorShared.setNode_self]
            exact h.2 (.inr rfl)
  | _ => trivial

/-! ## Runs -/

/-- A thread that moves exists. -/
theorem MonitorStep.exists_of_move (h : MonitorStep main t me shared move next after) :
    (me.pc ≠ .absent ∨ me.handler ≠ none) ∨ shared.spawned t = true := by
  cases h with
  | handler hhandler => exact .inl (.inr (by simp [hhandler]))
  | statement hhandler hpc =>
      generalize me.pc = pc at hpc
      cases hpc with
      | starts hspawned => exact .inr hspawned
      | _ => exact .inl (.inl nofun)
  | delivers hhandler halive =>
      refine .inl (.inl fun hpc => ?_)
      rw [hpc] at halive
      exact halive
  | creates hhandler hpc => exact .inl (.inl fun heq => by simp [heq] at hpc)
  | exits hhandler hpc => exact .inl (.inl fun heq => by simp [heq] at hpc)
  | finishes hhandler hpc => exact .inl (.inl fun heq => by simp [heq] at hpc)
  | execFails hhandler hpc | blocks hhandler hpc =>
      exact .inl (.inl fun heq => by simp [heq] at hpc)

/-- Threads are created by `pthread_create`, which sets `monitor_has_used_threads`. -/
theorem MonitorStep.created_or_eq (h : MonitorStep main t me shared move next after) :
    after.hasUsedThreads = true ∧ (∀ u, shared.spawned u = true → after.spawned u = true) ∨
      after.spawned = shared.spawned ∧ after.hasUsedThreads = shared.hasUsedThreads := by
  cases h with
  | handler hhandler hfini => rw [hfini.frame]; exact .inr ⟨rfl, rfl⟩
  | statement hhandler hpc =>
      generalize me.pc = pc at hpc
      cases hpc with
      | cleanup hfini => rw [hfini.frame]; exact .inr ⟨rfl, rfl⟩
      | releases => rw [MonitorShared.release_frame]; exact .inr ⟨rfl, rfl⟩
      | exits hexit =>
          cases hexit with
          | own hfini => rw [hfini.frame]; exact .inr ⟨rfl, rfl⟩
          | _ => exact .inr ⟨rfl, rfl⟩
      | _ => exact .inr ⟨rfl, rfl⟩
  | @creates child =>
      refine .inl ⟨?_, fun u hu => ?_⟩
      · rw [MonitorShared.create_frame]
      · rw [MonitorShared.create_frame]
        by_cases heq : u = child
        · simp [heq]
        · simpa [Function.update_of_ne heq] using hu
  | _ => exact .inr ⟨rfl, rfl⟩

/-- A process begins to exit in the shootdown. -/
theorem MonitorStep.cleansUp_of (h : MonitorStep main t me shared move next after)
    (hbefore : shared.inExitCleanup = false) (hafter : after.inExitCleanup = true) :
    (∃ late, move = .statement late) ∧ me.pc = .exit .shootdown ∧
      after.threadList = shared.threadList ∧ after.node = shared.node := by
  -- whatever else leaves the flag as it is
  have hsame : after.inExitCleanup ≠ shared.inExitCleanup := by simp [hbefore, hafter]
  cases h with
  | handler hhandler hfini => rw [hfini.frame] at hsame; exact absurd rfl hsame
  | statement hhandler hpc =>
      generalize me.pc = pc at hpc
      cases hpc with
      | cleanup hfini => rw [hfini.frame] at hsame; exact absurd rfl hsame
      | releases => rw [MonitorShared.release_frame] at hsame; exact absurd rfl hsame
      | exits hexit =>
          cases hexit with
          | cleansUp => exact ⟨⟨_, rfl⟩, rfl, rfl, rfl⟩
          | own hfini => rw [hfini.frame] at hsame; exact absurd rfl hsame
          | _ => exact absurd rfl hsame
      | _ => exact absurd rfl hsame
  | creates => rw [MonitorShared.create_frame] at hsame; exact absurd rfl hsame
  | _ => exact absurd rfl hsame

/-- What holds of each thread in orderly runs. -/
structure ShootdownOk (main t : ι) (me : MonitorThread ι) (shared : MonitorShared ι) : Prop where
  spawned : me.pc ≠ .absent ∨ me.handler ≠ none → t = main ∨ shared.spawned t = true
  knows : ∀ statement, me.pc = .exit statement → statement.Knows t shared
  exiting : me.pc = .exit .finiProcess →
    shared.inExitCleanup = true ∨ shared.hasUsedThreads = false

/-- The invariant of orderly runs. -/
structure ShootdownInvariant (main : ι) (s : State ι (MonitorThread ι) (MonitorShared ι)) :
    Prop where
  callbacks : CallbackInvariant main s
  used : ∀ t, s.shared.spawned t = true → s.shared.hasUsedThreads = true
  started : s.shared.inExitCleanup = true → ∀ t ∈ s.shared.threadList,
    (s.shared.node t).applStarted = true
  threads : ∀ t, ShootdownOk main t (s.locals t) s.shared

namespace ShootdownInvariant

variable {s : State ι (MonitorThread ι) (MonitorShared ι)}

/-- Before `pthread_create` is called there is the main thread only. -/
theorem eq_main (h : ShootdownInvariant main s) (hused : s.shared.hasUsedThreads = false)
    (ht : (s.locals t).pc ≠ .absent ∨ (s.locals t).handler ≠ none) : t = main := by
  refine ((h.threads t).spawned ht).resolve_right fun hspawned => ?_
  rw [h.used t hspawned] at hused
  cases hused

/-- If no thread was ever created, the list is empty. -/
theorem threadList_eq_nil (h : ShootdownInvariant main s)
    (hused : s.shared.hasUsedThreads = false) : s.shared.threadList = [] := by
  refine List.eq_nil_iff_forall_not_mem.mpr fun t hmem => ?_
  obtain ⟨hmain, honList⟩ := (h.callbacks.list.threads t).mem.mp hmem
  refine hmain (h.eq_main hused (.inl fun hpc => ?_))
  rw [hpc] at honList
  exact honList

/-- The move of a thread that exits leaves what it knows true. -/
theorem knows_self (h : ShootdownInvariant main s)
    (hmove : MonitorStep main t (s.locals t) s.shared move next after)
    (horderly : Orderly s (t, move)) {statement : ExitPc ι} (hpc : next.pc = .exit statement) :
    statement.Knows t after := by
  generalize hme : s.locals t = me at hmove
  have hknows : ∀ at', me.pc = .exit at' → at'.Knows t s.shared := hme ▸ (h.threads t).knows
  have hok : ∀ at', me.pc = .exit at' → ExitOk t at' s.shared :=
    hme ▸ (h.callbacks.list.threads t).exit
  cases hmove with
  | handler hhandler hfini =>
      have hsame : next.pc = me.pc := by cases hfini <;> rfl
      refine (hknows statement (hsame ▸ hpc)).mono ?_ hfini.node_le
      rw [hfini.frame]
  | @statement late pc _ hhandler hstep =>
      have hpc : pc = .exit statement := hpc
      subst hpc
      have horderly := horderly.2
      simp only [hme] at horderly
      generalize me.pc = before at hstep hknows hok horderly
      cases hstep with
      | @exits at' _ _ hexit =>
          refine (hknows at' rfl).step hexit (hok at' rfl) h.callbacks.list.nodup horderly ?_
            h.threadList_eq_nil
          exact fun hshooting => h.started ((hok at' rfl).shooting hshooting)
      | cleanup hfini => cases hfini
  | delivers => exact (hknows statement hpc).mono rfl fun u => .refl _
  | creates hhandler hpc' | blocks hhandler hpc' => simp [hpc] at hpc'
  | exits =>
      cases hpc
      trivial
  | finishes | execFails => cases hpc

/-- A thread gets to `monitor_fini_process` from the shootdown, or if there are no threads. -/
theorem exiting_self (h : ShootdownInvariant main s)
    (hmove : MonitorStep main t (s.locals t) s.shared move next after)
    (hpc : next.pc = .exit .finiProcess) :
    after.inExitCleanup = true ∨ after.hasUsedThreads = false := by
  generalize hme : s.locals t = me at hmove
  have hexiting : me.pc = .exit .finiProcess →
      s.shared.inExitCleanup = true ∨ s.shared.hasUsedThreads = false :=
    hme ▸ (h.threads t).exiting
  have hok : ∀ at', me.pc = .exit at' → ExitOk t at' s.shared :=
    hme ▸ (h.callbacks.list.threads t).exit
  cases hmove with
  | handler hhandler hfini =>
      have hsame : next.pc = me.pc := by cases hfini <;> rfl
      rw [hfini.frame]
      exact hexiting (hsame ▸ hpc)
  | @statement late pc _ hhandler hstep =>
      have hpc : pc = .exit .finiProcess := hpc
      subst hpc
      generalize me.pc = before at hstep hok
      cases hstep with
      | @exits at' _ _ hexit =>
          have hshooting := (hok at' rfl).shooting
          cases hexit with
          | noThreads hused => exact .inr hused
          | noneLeft => exact .inl (hshooting trivial)
          | own hfini =>
              rw [hfini.frame]
              exact .inl (hshooting trivial)
      | cleanup hfini => cases hfini
  | delivers => exact hexiting hpc
  | creates hhandler hpc' | blocks hhandler hpc' => simp [hpc] at hpc'
  | exits | finishes | execFails => cases hpc

/-- **One move keeps the invariant.** -/
theorem step {before after : State ι (MonitorThread ι) (MonitorShared ι)}
    {event : ι × ThreadMove ι} (horderly : Orderly before event)
    (hstep : (monitorThreads main).step before event = some after)
    (h : ShootdownInvariant main before) : ShootdownInvariant main after := by
  have hcallbacks := h.callbacks.step horderly.1 hstep
  obtain ⟨t, move⟩ := event
  obtain ⟨me, shared, hact, rfl⟩ := Choices.step_eq_some_iff.mp hstep
  have hmove := monitorStep_of_threadMove hact
  have hspawned : ∀ u, before.shared.spawned u = true → shared.spawned u = true := by
    rcases hmove.created_or_eq with ⟨-, hmono⟩ | ⟨heq, -⟩
    · exact hmono
    · exact fun u hu => heq ▸ hu
  have hmover : t = main ∨ before.shared.spawned t = true := by
    rcases hmove.exists_of_move with hexists | hspawned
    · exact (h.threads t).spawned hexists
    · exact .inr hspawned
  have hlist : before.shared.inExitCleanup = true →
      shared.threadList = before.shared.threadList := by
    intro hexit
    rcases hmove.threadList_cases with heq | ⟨-, hnot, -⟩ | ⟨-, hnot, -⟩
    · exact heq
    · rw [hexit] at hnot
      cases hnot
    · rw [hexit] at hnot
      cases hnot
  refine ⟨hcallbacks, fun u hu => ?_, fun hexit u hu => ?_,
    Choices.forall_update ⟨?_, ?_, ?_⟩ fun u hne => ⟨?_, ?_, ?_⟩⟩
  · rcases hmove.created_or_eq with ⟨hused, -⟩ | ⟨heq, hused⟩
    · exact hused
    · exact hused.trans (h.used u (heq ▸ hu))
  · cases hbefore : before.shared.inExitCleanup with
    | true =>
        exact (hmove.node_le hbefore u).applStarted (h.started hbefore u (hlist hbefore ▸ hu))
    | false =>
        obtain ⟨⟨late, rfl⟩, hpc, hsame, hnode⟩ := hmove.cleansUp_of hbefore hexit
        have hall := horderly.2
        simp only [hpc] at hall
        show (shared.node u).applStarted = true
        rw [hnode]
        exact hall u (hsame ▸ hu)
  · exact fun _ => hmover.imp_right (hspawned t)
  · exact fun statement hpc => h.knows_self hmove horderly hpc
  · exact h.exiting_self hmove
  · exact fun hexists => ((h.threads u).spawned hexists).imp_right (hspawned u)
  all_goals
    -- another thread that knows something is in the shootdown, or alone
    have halone : (before.locals u).pc ≠ .absent →
        before.shared.hasUsedThreads = false → False := by
      intro hpc hused
      have hu := h.eq_main hused (.inl hpc)
      rcases hmover with hmain | hspawned
      · exact hne (hu.trans hmain.symm)
      · rw [h.used t hspawned] at hused
        cases hused
  · intro statement hpc
    have hknows := (h.threads u).knows statement hpc
    have hok := (h.callbacks.list.threads u).exit statement hpc
    have hexiting : before.shared.inExitCleanup = true → statement.Knows u shared :=
      fun hexit => hknows.mono (hlist hexit) (hmove.node_le hexit)
    cases statement with
    | walk | readStarted | readDone | endPass | setFiniThreadDone | testOwn | own =>
        exact hexiting (hok.shooting trivial)
    | finiProcess =>
        rcases (h.threads u).exiting hpc with hexit | hused
        · exact hexiting hexit
        · exact (halone (by simp [hpc]) hused).elim
    | _ => trivial
  · intro hpc
    rcases (h.threads u).exiting hpc with hexit | hused
    · exact .inl (hmove.inExitCleanup_mono hexit)
    · exact (halone (by simp [hpc]) hused).elim

end ShootdownInvariant

theorem shootdownInvariant_initial (main : ι) :
    ShootdownInvariant main (monitorInitial main) where
  callbacks := callbackInvariant_initial main
  used _ h := nomatch h
  started h := nomatch h
  threads t := by
    unfold monitorInitial
    by_cases hmain : t = main
    · exact ⟨fun _ => .inl hmain, by simp [hmain], by simp [hmain]⟩
    · exact ⟨by simp [hmain], by simp [hmain], by simp [hmain]⟩

/-- **Every orderly run keeps the invariant of the shootdown.** -/
theorem shootdownInvariant_of_run {events : List (ι × ThreadMove ι)}
    {s : State ι (MonitorThread ι) (MonitorShared ι)}
    (horderly : (monitorThreads main).Meets Orderly (monitorInitial main) events)
    (hrun : (monitorThreads main).run (monitorInitial main) events = some s) :
    ShootdownInvariant main s :=
  Choices.run_invariant_of_meets (fun _ _ _ horderly hstep h => h.step horderly hstep)
    (shootdownInvariant_initial main) horderly hrun

/-- What the client has been told when a thread is about to call `monitor_fini_process`. -/
theorem ShootdownInvariant.about_of_finiProcess
    {s : State ι (MonitorThread ι) (MonitorShared ι)} (h : ShootdownInvariant main s) {w : ι}
    (hpc : (s.locals w).pc = .exit .finiProcess) (hhandler : (s.locals w).handler = none)
    (t : ι) :
    s.shared.about t = [] ∧ t ∉ s.shared.threadList ∨
      t ≠ main ∧ ∃ tid, s.shared.about t = [.initThread t tid, .finiThread t tid] ∧
        (t ∈ s.shared.threadList → tid = (s.shared.node t).tid) := by
  obtain ⟨hdone, hown⟩ := (h.threads w).knows _ hpc
  obtain ⟨phase, hphase⟩ := h.callbacks.phase t
  have hmem := (h.callbacks.list.threads t).mem
  have hofMain := (h.callbacks.list.threads t).ofMain
  obtain ⟨tid, habout, htid⟩ := hphase.about
  have hplace := hphase.place
  by_cases hin : t ∈ s.shared.threadList
  · have hmain := (hmem.mp hin).1
    have hlinked : (s.locals t).pc ≠ .unlinked := fun heq => by
      have honList := (hmem.mp hin).2
      rw [heq] at honList
      exact honList
    have hflags := hphase.flags hlinked
    have hfinished : phase = .finished := by
      by_cases hw : t = w
      · -- the thread itself is past its own callback
        subst hw
        have hstarted := hown hin
        have hframes := hphase.frames_of_none hhandler
        rw [hpc] at hframes
        cases phase with
        | fresh | initialised | running =>
            rw [hflags.2.1] at hstarted
            cases hstarted
        | finishing => rcases hframes with ⟨h, -⟩ | ⟨h, -⟩ <;> cases h
        | finished => rfl
      · have hfini := hdone t hin hw
        cases phase with
        | fresh | initialised | running =>
            rw [hflags.2.2] at hfini
            cases hfini
        | finishing =>
            rw [hflags.2] at hfini
            cases hfini
        | finished => rfl
    subst hfinished
    exact .inr ⟨hmain, tid, habout, fun _ => htid hlinked⟩
  · cases phase with
    | fresh => exact .inl ⟨habout, hin⟩
    | initialised =>
        rw [show (s.locals t).pc = .setApplStarted from hplace] at hmem hofMain
        exact absurd (hmem.mpr ⟨fun hmain => hofMain hmain, trivial⟩) hin
    | running | finishing =>
        refine absurd (hmem.mpr ⟨hplace.1, ?_⟩) hin
        rcases hplace.2 with hpc | hpc | ⟨_, hpc⟩ | ⟨_, hpc⟩ <;> rw [hpc] <;> trivial
    | finished => exact .inr ⟨hplace.1, tid, habout, fun hmem => absurd hmem hin⟩

end Knowledge

end Papiex
