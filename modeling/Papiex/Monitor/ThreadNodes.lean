import Papiex.Monitor.NodeStore

/-!
# The nodes of the threads

`Papiex.Monitor.Threads` takes it for granted that each thread has a node of its own and
that the list of threads is a list.  Here the threads are put on the store of nodes: a
move of a thread asks the store for what libmonitor's code asks it for at this statement,
and with the node this thread was created with.  Every run of the threads is then a run
of the store in which no call fails, and the pointers of the store are those of the list.

## Main results

* `StoreOf.step`: a move keeps the store in step with the threads, one lemma for each
  thing a move may ask the store for.
* `threads_have_own_nodes`: the store after every run.
-/

namespace Papiex

open Interleaving Queue

variable {ι : Type*} [DecidableEq ι] {main t : ι} {me next : MonitorThread ι}
variable {shared after : MonitorShared ι} {move : ThreadMove ι}

/-! ## What a move asks the store for -/

/-- What libmonitor asks the store for, and the thread whose node it is about. -/
inductive NodeRequest (ι : Type*) where
  /-- `monitor_make_thread_node`, for a thread that is to be created. -/
  | make (child : ι)
  /-- `monitor_link_thread_node`. -/
  | link (t : ι)
  /-- `monitor_unlink_thread_node`. -/
  | unlink (t : ι)
  /-- `monitor_in_exit_cleanup = 1`. -/
  | exitCleanup
  deriving DecidableEq

/-- The request of the statement that a thread is at. -/
def statementRequest (t : ι) (shared : MonitorShared ι) : ThreadPc ι → Option (NodeRequest ι)
  | .link => some (.link t)
  | .unlink => some (.unlink t)
  | .exit .shootdown => if shared.hasUsedThreads then some .exitCleanup else none
  | _ => none

/-- The request of a move.  The handler of the shootdown signal has none. -/
def nodeRequest (t : ι) (me : MonitorThread ι) (shared : MonitorShared ι) :
    ThreadMove ι → Option (NodeRequest ι)
  | .create child => some (.make child)
  | .statement _ => if me.handler = none then statementRequest t shared me.pc else none
  | _ => none

/-- **The requests of a run**, in order. -/
def nodeRequests (main : ι) (s : State ι (MonitorThread ι) (MonitorShared ι)) :
    List (ι × ThreadMove ι) → List (NodeRequest ι)
  | [] => []
  | event :: rest =>
      match (monitorThreads main).step s event with
      | none => []
      | some next =>
          (nodeRequest event.1 (s.locals event.1) s.shared event.2).toList ++
            nodeRequests main next rest

/-! ## The store under the threads -/

/-- The store, and which node each thread was created with.  The node of a thread that
was not created is no matter. -/
structure ThreadStore (ι : Type*) where
  use : NodeUse := {}
  nodeOf : ι → NodeAddr := fun _ => ⟨0, 0⟩

namespace ThreadStore

/-- The call of the store that serves a request.  A thread is created only if its node
could be made, so the memory for it was there. -/
def call (store : ThreadStore ι) : NodeRequest ι → NodeCall
  | .make _ => .make true
  | .link t => .link (store.nodeOf t)
  | .unlink t => .unlink (store.nodeOf t)
  | .exitCleanup => .exitCleanup

/-- The nodes of the threads when a request has been served: a node that was made is that
of the new thread. -/
def nodesAfter (store : ThreadStore ι) (use : NodeUse) : NodeRequest ι → ι → NodeAddr
  | .make child => Function.update store.nodeOf child (use.held.headD ⟨0, 0⟩)
  | _ => store.nodeOf

/-- Serve a request by a legal call. -/
def serve (store : ThreadStore ι) (request : NodeRequest ι) : Option (ThreadStore ι) :=
  (store.use.run [store.call request]).map fun use =>
    { use, nodeOf := store.nodesAfter use request }

/-- Serve requests one after the other. -/
def serveAll (store : ThreadStore ι) : List (NodeRequest ι) → Option (ThreadStore ι)
  | [] => some store
  | request :: rest => (store.serve request).bind fun next => next.serveAll rest

variable {store served final : ThreadStore ι} {request : NodeRequest ι}
variable {requests front : List (NodeRequest ι)}

theorem serveAll_append :
    store.serveAll (front ++ requests) =
      (store.serveAll front).bind fun next => next.serveAll requests := by
  induction front generalizing store with
  | nil => rfl
  | cons request front ih =>
      rw [List.cons_append, serveAll, serveAll, Option.bind_assoc]
      congr 1
      funext next
      exact ih

/-- What serving a request does to the store. -/
theorem serve_of_step (hlegal : store.use.Legal (store.call request)) {use : NodeUse}
    (hstep : store.use.step (store.call request) = some use) :
    store.serve request = some { use, nodeOf := store.nodesAfter use request } := by
  rw [serve, NodeUse.run_singleton hlegal hstep]
  rfl

/-- A request that is served is served by a legal call. -/
theorem ok_of_serve {free : List NodeAddr} (hok : store.use.Ok free)
    (h : store.serve request = some served) : ∃ free', served.use.Ok free' := by
  obtain ⟨use, huse, rfl⟩ := Option.map_eq_some_iff.mp h
  rw [NodeUse.run] at huse
  split at huse
  · rename_i hlegal
    obtain ⟨next, hnext, hlast⟩ := Option.bind_eq_some_iff.mp huse
    cases hlast
    exact hok.step hlegal hnext
  · cases huse

end ThreadStore

/-! ## What a move does to the store -/

/-- What a move does to what the store is about, and what it asks the store for. -/
inductive StoreStep (main t : ι) (me next : MonitorThread ι) (shared after : MonitorShared ι) :
    Option (NodeRequest ι) → Prop
  | quiet (hlist : after.threadList = shared.threadList)
      (hexit : after.inExitCleanup = shared.inExitCleanup)
      (hnum : after.threadNum = shared.threadNum) (hspawned : after.spawned = shared.spawned)
      (hpc : me.pc = .unlinked → next.pc = .unlinked) :
      StoreStep main t me next shared after none
  | creates (child : ι) (hfresh : shared.spawned child = false) (hmain : child ≠ main)
      (hafter : after = shared.create child) (hnext : next = me) :
      StoreStep main t me next shared after (some (.make child))
  | links (hpc : me.pc = .link) (hexit : shared.inExitCleanup = false)
      (hafter : after = shared.link t) (hnext : next.pc = .initThread) :
      StoreStep main t me next shared after (some (.link t))
  | unlinks (hpc : me.pc = .unlink) (hexit : shared.inExitCleanup = false)
      (hafter : after = { shared.setNode t {} with threadList := shared.threadList.erase t })
      (hnext : next.pc = .unlinked) :
      StoreStep main t me next shared after (some (.unlink t))
  | cleansUp (hafter : after = { shared with inExitCleanup := true }) (hpc : me.pc ≠ .unlinked) :
      StoreStep main t me next shared after (some .exitCleanup)
  | refused (hpc : me.pc = .link) (hexit : shared.inExitCleanup = true)
      (hafter : after = shared) (hnext : next.pc = .refused) :
      StoreStep main t me next shared after (some (.link t))
  | marks (hpc : me.pc = .unlink) (hexit : shared.inExitCleanup = true)
      (hafter : after = shared.setNode t
        { shared.node t with finiStarted := true, finiDone := true })
      (hnext : next.pc = .ended) :
      StoreStep main t me next shared after (some (.unlink t))

/-- **What a move asks the store for fits what it does.** -/
theorem MonitorStep.store (h : MonitorStep main t me shared move next after) :
    StoreStep main t me next shared after (nodeRequest t me shared move) := by
  have hfini : ∀ {α : Type _} {go : FiniPc → α} {leave finish at' : α} {statement : FiniPc},
      FiniStep t shared go leave finish statement at' after →
        (me.pc = .unlinked → next.pc = .unlinked) → StoreStep main t me next shared after none := by
    intro α go leave finish at' statement hstep hpc
    have hframe := hstep.frame
    exact .quiet (by rw [hframe]) (by rw [hframe]) (by rw [hframe]) (by rw [hframe]) hpc
  cases h with
  | handler hhandler hstep =>
      have hpc : next.pc = me.pc := by cases hstep <;> rfl
      rw [nodeRequest, hhandler, if_neg (by simp)]
      exact hfini hstep fun h => hpc.trans h
  | statement hhandler hpc =>
      generalize hme : me.pc = pc at hpc
      rw [nodeRequest, if_pos hhandler, hme]
      cases hpc with
      | links hexit => exact .links hme hexit rfl rfl
      | unlinks hexit => exact .unlinks hme hexit rfl rfl
      | cleanup hstep => exact hfini hstep fun h => nomatch hme.symm.trans h
      | releases =>
          have hframe := shared.release_frame
          exact .quiet (by rw [hframe]) (by rw [hframe]) (by rw [hframe]) (by rw [hframe])
            fun h => nomatch hme.symm.trans h
      | exits hexit =>
          have hpc : me.pc ≠ .unlinked := fun h => nomatch hme.symm.trans h
          cases hexit with
          | cleansUp hused =>
              rw [statementRequest, if_pos hused]
              exact .cleansUp rfl hpc
          | noThreads hused =>
              rw [statementRequest, if_neg (by simp [hused])]
              exact .quiet rfl rfl rfl rfl fun h => absurd h hpc
          | own hstep => exact hfini hstep fun h => absurd h hpc
          | _ => exact .quiet rfl rfl rfl rfl fun h => absurd h hpc
      | refused hexit => exact .refused hme hexit rfl rfl
      | marksEnded hexit => exact .marks hme hexit rfl rfl
      | starts | supported | polls | callsInit | setsApplStarted | callsInitProcess =>
          exact .quiet rfl rfl rfl rfl fun h => nomatch hme.symm.trans h
  | creates _ _ hfresh hmain => exact .creates _ hfresh hmain rfl rfl
  | delivers | blocks => exact .quiet rfl rfl rfl rfl id
  | finishes _ hpc | execFails _ hpc =>
      exact .quiet rfl rfl rfl rfl fun h => nomatch hpc.symm.trans h
  | exits _ hpc =>
      refine .quiet rfl rfl rfl rfl fun h => ?_
      rcases hpc with hpc | hpc <;> exact nomatch hpc.symm.trans h

/-! ## The threads on the store -/

/-- The thread has a node of the store. -/
def OwnsNode (main : ι) (s : State ι (MonitorThread ι) (MonitorShared ι)) (t : ι) : Prop :=
  t ≠ main ∧ s.shared.spawned t = true ∧ (s.locals t).pc ≠ .unlinked

/-- **The store is that of the threads**: the list of threads, the flag and the counter are
the same on both sides, and no two threads have one node. -/
structure StoreOf (main : ι) (s : State ι (MonitorThread ι) (MonitorShared ι))
    (store : ThreadStore ι) : Prop where
  linked : store.use.linked = s.shared.threadList.map store.nodeOf
  exit : store.use.store.inExitCleanup = s.shared.inExitCleanup
  num : store.use.store.threadNum = s.shared.threadNum
  held : ∀ t, OwnsNode main s t → store.nodeOf t ∈ store.use.held
  inj : ∀ t u, OwnsNode main s t → OwnsNode main s u → store.nodeOf t = store.nodeOf u → t = u

/-- Each thread that exists was created. -/
def Created (main : ι) (s : State ι (MonitorThread ι) (MonitorShared ι)) : Prop :=
  ∀ t, (s.locals t).pc ≠ .absent ∨ (s.locals t).handler ≠ none →
    t = main ∨ s.shared.spawned t = true

theorem Created.step {before after : State ι (MonitorThread ι) (MonitorShared ι)}
    {event : ι × ThreadMove ι} (h : Created main before)
    (hstep : (monitorThreads main).step before event = some after) : Created main after := by
  obtain ⟨t, move⟩ := event
  obtain ⟨me, shared, hact, rfl⟩ := Choices.step_eq_some_iff.mp hstep
  have hmove := monitorStep_of_threadMove hact
  have hspawned : ∀ u, before.shared.spawned u = true → shared.spawned u = true := by
    rcases hmove.created_or_eq with ⟨-, hmono⟩ | ⟨heq, -⟩
    · exact hmono
    · exact fun u hu => heq ▸ hu
  refine Choices.forall_update (P := fun u (thread : MonitorThread ι)
    (shared : MonitorShared ι) => thread.pc ≠ .absent ∨ thread.handler ≠ none →
      u = main ∨ shared.spawned u = true) (fun _ => ?_) fun u _ hu => ?_
  · rcases hmove.exists_of_move with hexists | hmover
    · exact (h t hexists).imp_right (hspawned t)
    · exact .inr (hspawned t hmover)
  · exact (h u hu).imp_right (hspawned u)

omit [DecidableEq ι] in
/-- A thread of the list has a node of the store. -/
theorem ListInvariant.ownsNode {s : State ι (MonitorThread ι) (MonitorShared ι)}
    (h : ListInvariant main s) (hcreated : Created main s) (ht : t ∈ s.shared.threadList) :
    OwnsNode main s t := by
  obtain ⟨hmain, honList⟩ := (h.threads t).mem.mp ht
  refine ⟨hmain, (hcreated t (.inl fun hpc => ?_)).resolve_left hmain, fun hpc => ?_⟩
  · rw [hpc] at honList
    exact honList
  · rw [hpc] at honList
    exact honList

omit [DecidableEq ι] in
/-- Erasing commutes with a map that keeps the element apart. -/
theorem map_erase_of_forall {β : Type*} [DecidableEq ι] [DecidableEq β] {f : ι → β} {xs : List ι}
    (h : ∀ u ∈ xs, f u = f t → u = t) : (xs.map f).erase (f t) = (xs.erase t).map f := by
  induction xs with
  | nil => rfl
  | cons u xs ih =>
      by_cases hu : u = t
      · subst hu
        rw [List.map_cons, List.erase_cons_head, List.erase_cons_head]
      · have hne : f u ≠ f t := fun heq => hu (h u List.mem_cons_self heq)
        rw [List.map_cons, List.erase_cons_tail (by simpa using hne),
          List.erase_cons_tail (by simpa using hu), List.map_cons,
          ih fun v hv => h v (List.mem_cons_of_mem _ hv)]

/-! ### One request -/

section Requests

variable {before : State ι (MonitorThread ι) (MonitorShared ι)} {store : ThreadStore ι}
variable {free : List NodeAddr} {u : ι}

/-- The state after a move of a thread. -/
abbrev afterMove (before : State ι (MonitorThread ι) (MonitorShared ι)) (t : ι)
    (me : MonitorThread ι) (after : MonitorShared ι) :
    State ι (MonitorThread ι) (MonitorShared ι) where
  locals := Function.update before.locals t me
  shared := after

/-- Who has a node after a move had it before, if no thread was created. -/
theorem OwnsNode.of_after (hspawned : after.spawned u = before.shared.spawned u)
    (hkeeps : (before.locals t).pc = .unlinked → me.pc = .unlinked)
    (hown : OwnsNode main (afterMove before t me after) u) :
    OwnsNode main before u := by
  obtain ⟨hmain, hu, hpc⟩ := hown
  refine ⟨hmain, hspawned ▸ hu, ?_⟩
  by_cases hut : u = t
  · subst hut
    exact fun heq => hpc (by simpa using hkeeps heq)
  · simpa [Function.update_of_ne hut] using hpc

omit [DecidableEq ι] in
/-- A thread that is about to be linked or unlinked has a node of its own. -/
theorem ownsNode_of_pc (hlist : ListInvariant main before) (hcreated : Created main before)
    (hpc : (before.locals t).pc = .link ∨ (before.locals t).pc = .unlink) :
    OwnsNode main before t := by
  have hmain : t ≠ main := by
    rintro rfl
    have hofMain := (hlist.threads t).ofMain rfl
    rcases hpc with hpc | hpc <;> rw [hpc] at hofMain <;> exact hofMain
  refine ⟨hmain, (hcreated t (.inl fun habsent => ?_)).resolve_left hmain, fun hunlinked => ?_⟩
  · rcases hpc with hpc | hpc <;> rw [hpc] at habsent <;> cases habsent
  · rcases hpc with hpc | hpc <;> rw [hpc] at hunlinked <;> cases hunlinked

omit [DecidableEq ι] in
/-- A node is linked just if its thread is in the list. -/
theorem StoreOf.mem_linked_iff (h : StoreOf main before store) (hlist : ListInvariant main before)
    (hcreated : Created main before) (ht : OwnsNode main before t) :
    store.nodeOf t ∈ store.use.linked ↔ t ∈ before.shared.threadList := by
  rw [h.linked]
  refine ⟨fun hin => ?_, fun hin => List.mem_map_of_mem hin⟩
  obtain ⟨u, hu, heq⟩ := List.mem_map.mp hin
  exact h.inj u t (hlist.ownsNode hcreated hu) ht heq ▸ hu

omit [DecidableEq ι] in
/-- A thread that links its node holds it, and has not linked it yet. -/
theorem StoreOf.legal_link (h : StoreOf main before store) (hlist : ListInvariant main before)
    (hcreated : Created main before) (hpc : (before.locals t).pc = .link) :
    store.use.Legal (store.call (.link t)) := by
  have ht := ownsNode_of_pc hlist hcreated (.inl hpc)
  refine ⟨h.held t ht, fun hin => ?_⟩
  have honList := ((hlist.threads t).mem.mp ((h.mem_linked_iff hlist hcreated ht).mp hin)).2
  rw [hpc] at honList
  exact honList

omit [DecidableEq ι] in
/-- A thread that unlinks its node has linked it. -/
theorem StoreOf.legal_unlink (h : StoreOf main before store) (hlist : ListInvariant main before)
    (hcreated : Created main before) (hpc : (before.locals t).pc = .unlink) :
    store.use.Legal (store.call (.unlink t)) := by
  have ht := ownsNode_of_pc hlist hcreated (.inr hpc)
  refine (h.mem_linked_iff hlist hcreated ht).mpr ((hlist.threads t).mem.mpr ⟨ht.1, ?_⟩)
  rw [hpc]
  trivial

/-- A move that asks for nothing. -/
theorem StoreOf.quiet (h : StoreOf main before store)
    (hlist : after.threadList = before.shared.threadList)
    (hexit : after.inExitCleanup = before.shared.inExitCleanup)
    (hnum : after.threadNum = before.shared.threadNum)
    (hspawned : after.spawned = before.shared.spawned)
    (hpc : (before.locals t).pc = .unlinked → me.pc = .unlinked) :
    StoreOf main (afterMove before t me after) store where
  linked := h.linked.trans (congrArg (List.map store.nodeOf) hlist.symm)
  exit := h.exit.trans hexit.symm
  num := h.num.trans hnum.symm
  held u hu := h.held u (hu.of_after (congrFun hspawned u) hpc)
  inj u v hu hv :=
    h.inj u v (hu.of_after (congrFun hspawned u) hpc) (hv.of_after (congrFun hspawned v) hpc)

/-- **A thread is created**: its node is one that no other thread has. -/
theorem StoreOf.make (h : StoreOf main before store) (hok : store.use.Ok free)
    (hlist : ListInvariant main before) (hcreated : Created main before) {child : ι}
    (hfresh : before.shared.spawned child = false) :
    ∃ served, store.serve (.make child) = some served ∧
      StoreOf main (afterMove before t (before.locals t) (before.shared.create child))
        served := by
  obtain ⟨made, tn, hmade⟩ := hok.exists_make
  obtain ⟨hnotHeld, -⟩ := hok.make hmade
  obtain ⟨_, _, _, _, _, _, _, _, _, hstore, -⟩ := hok.take hmade
  have hframe := before.shared.create_frame child
  have hspawned : ∀ u, u ≠ child →
      (before.shared.create child).spawned u = before.shared.spawned u := by
    intro u hu
    rw [hframe]
    exact Function.update_of_ne hu _ _
  have hbefore : ∀ u, u ≠ child → OwnsNode main
      (afterMove before t (before.locals t) (before.shared.create child)) u →
        OwnsNode main before u :=
    fun u hu hown => hown.of_after (hspawned u hu) id
  have hnotListed : child ∉ before.shared.threadList := fun hin => by
    have hspawned := (hlist.ownsNode hcreated hin).2.1
    rw [hfresh] at hspawned
    cases hspawned
  have hstep : store.use.step (store.call (.make child)) =
      some { store.use with store := made, held := tn :: store.use.held } := by
    rw [ThreadStore.call, NodeUse.step, hmade]
    rfl
  have hlegal : store.use.Legal (store.call (.make child)) := trivial
  refine ⟨_, ThreadStore.serve_of_step hlegal hstep, ?_⟩
  -- the new node is held by no other thread
  have hother : ∀ u, u ≠ child → OwnsNode main
      (afterMove before t (before.locals t) (before.shared.create child)) u →
        store.nodeOf u ≠ tn :=
    fun u huc hu heq => hnotHeld (heq ▸ h.held u (hbefore u huc hu))
  constructor
  case linked =>
    show store.use.linked =
      (before.shared.create child).threadList.map (Function.update store.nodeOf child tn)
    rw [hframe, h.linked]
    refine List.map_congr_left fun u hu => (Function.update_of_ne ?_ _ _).symm
    rintro rfl
    exact hnotListed hu
  case exit =>
    show made.inExitCleanup = (before.shared.create child).inExitCleanup
    rw [hframe, hstore]
    exact h.exit
  case num =>
    show made.threadNum = (before.shared.create child).threadNum
    rw [hframe, hstore]
    exact h.num
  case held =>
    intro u hu
    show Function.update store.nodeOf child tn u ∈ tn :: store.use.held
    by_cases huc : u = child
    · rw [huc, Function.update_self]
      exact List.mem_cons_self
    · rw [Function.update_of_ne huc]
      exact List.mem_cons_of_mem _ (h.held u (hbefore u huc hu))
  case inj =>
    intro u v hu hv heq
    replace heq : Function.update store.nodeOf child tn u =
        Function.update store.nodeOf child tn v := heq
    by_cases huc : u = child <;> by_cases hvc : v = child
    · rw [huc, hvc]
    · rw [huc, Function.update_self, Function.update_of_ne hvc] at heq
      exact absurd heq.symm (hother v hvc hv)
    · rw [hvc, Function.update_self, Function.update_of_ne huc] at heq
      exact absurd heq (hother u huc hu)
    · rw [Function.update_of_ne huc, Function.update_of_ne hvc] at heq
      exact h.inj u v (hbefore u huc hu) (hbefore v hvc hv) heq

/-- **A thread links its node.** -/
theorem StoreOf.link (h : StoreOf main before store) (hlist : ListInvariant main before)
    (hcreated : Created main before) (hpc : (before.locals t).pc = .link)
    (hexit : before.shared.inExitCleanup = false) :
    ∃ served, store.serve (.link t) = some served ∧
      StoreOf main (afterMove before t me (before.shared.link t)) served := by
  have hstoreExit : store.use.store.inExitCleanup = false := h.exit.trans hexit
  have hbefore : ∀ u, OwnsNode main (afterMove before t me (before.shared.link t)) u →
      OwnsNode main before u :=
    fun u hu => hu.of_after rfl fun heq => nomatch hpc.symm.trans heq
  refine ⟨_, ThreadStore.serve_of_step (h.legal_link hlist hcreated hpc)
    (NodeUse.step_link hstoreExit _), ?_, hstoreExit.trans hexit.symm,
    congrArg (· + 1) h.num, fun u hu => h.held u (hbefore u hu),
    fun u v hu hv => h.inj u v (hbefore u hu) (hbefore v hv)⟩
  show store.nodeOf t :: store.use.linked = (t :: before.shared.threadList).map store.nodeOf
  rw [h.linked]
  rfl

/-- A thread of an exiting process does not get its node linked. -/
theorem StoreOf.refused (h : StoreOf main before store) (hlist : ListInvariant main before)
    (hcreated : Created main before) (hpc : (before.locals t).pc = .link)
    (hexit : before.shared.inExitCleanup = true) :
    ∃ served, store.serve (.link t) = some served ∧
      StoreOf main (afterMove before t me before.shared)
        served := by
  have hstoreExit : store.use.store.inExitCleanup = true := h.exit.trans hexit
  have hbefore : ∀ u, OwnsNode main (afterMove before t me before.shared) u →
      OwnsNode main before u :=
    fun u hu => hu.of_after rfl fun heq => nomatch hpc.symm.trans heq
  have hstep : store.use.step (store.call (.link t)) = some store.use := by
    simp [ThreadStore.call, NodeUse.step, NodeStore.linkThreadNode, hstoreExit]
  exact ⟨_, ThreadStore.serve_of_step (h.legal_link hlist hcreated hpc) hstep, h.linked, h.exit,
    h.num, fun u hu => h.held u (hbefore u hu),
    fun u v hu hv => h.inj u v (hbefore u hu) (hbefore v hv)⟩

/-- **A thread gives its node back.** -/
theorem StoreOf.unlink (h : StoreOf main before store) (hok : store.use.Ok free)
    (hlist : ListInvariant main before) (hcreated : Created main before)
    (hpc : (before.locals t).pc = .unlink) (hexit : before.shared.inExitCleanup = false)
    (hnext : me.pc = .unlinked) :
    ∃ served, store.serve (.unlink t) = some served ∧
      StoreOf main (afterMove before t me { before.shared.setNode t {} with
        threadList := before.shared.threadList.erase t }) served := by
  have ht := ownsNode_of_pc hlist hcreated (.inr hpc)
  have hstoreExit : store.use.store.inExitCleanup = false := h.exit.trans hexit
  have hbefore : ∀ u, OwnsNode main (afterMove before t me { before.shared.setNode t {} with
      threadList := before.shared.threadList.erase t }) u → OwnsNode main before u :=
    fun u hu => hu.of_after rfl fun heq => nomatch hpc.symm.trans heq
  have hlegal := h.legal_unlink hlist hcreated hpc
  obtain ⟨use, huse, -⟩ := hok.unlink hlegal
  refine ⟨_, ThreadStore.serve_of_step hlegal huse, ?_⟩
  simp only [NodeUse.step, NodeStore.unlinkThreadNode, hstoreExit, Bool.false_eq_true, if_false,
    Option.map_map, Option.map_eq_some_iff] at huse
  obtain ⟨links, -, rfl⟩ := huse
  refine ⟨?_, hexit.symm, h.num, fun u hu => ?_,
    fun u v hu hv => h.inj u v (hbefore u hu) (hbefore v hv)⟩
  · show store.use.linked.erase (store.nodeOf t) =
      (before.shared.threadList.erase t).map store.nodeOf
    rw [h.linked]
    exact map_erase_of_forall fun u hu heq => h.inj u t (hlist.ownsNode hcreated hu) ht heq
  · show store.nodeOf u ∈ store.use.held.erase (store.nodeOf t)
    refine (List.mem_erase_of_ne fun heq => ?_).mpr (h.held u (hbefore u hu))
    -- the thread has no node any more
    cases h.inj u t (hbefore u hu) ht heq
    exact hu.2.2 (by simpa using hnext)

/-- A thread that ends while the process exits leaves its node where it is. -/
theorem StoreOf.marks (h : StoreOf main before store) (hlist : ListInvariant main before)
    (hcreated : Created main before) (hpc : (before.locals t).pc = .unlink)
    (hexit : before.shared.inExitCleanup = true) (tn : ThreadNode) :
    ∃ served, store.serve (.unlink t) = some served ∧
      StoreOf main (afterMove before t me (before.shared.setNode t tn)) served := by
  have hstoreExit : store.use.store.inExitCleanup = true := h.exit.trans hexit
  have hbefore : ∀ u, OwnsNode main (afterMove before t me (before.shared.setNode t tn)) u →
      OwnsNode main before u :=
    fun u hu => hu.of_after rfl fun heq => nomatch hpc.symm.trans heq
  have hstep : ∃ marked : NodeStore, store.use.step (store.call (.unlink t)) =
      some { store.use with store := marked } ∧
        marked.inExitCleanup = store.use.store.inExitCleanup ∧
        marked.threadNum = store.use.store.threadNum := by
    refine ⟨store.use.store.setNode (store.nodeOf t)
      { store.use.store.node (store.nodeOf t) with finiStarted := true, finiDone := true },
      ?_, rfl, rfl⟩
    simp only [ThreadStore.call, NodeUse.step, NodeStore.unlinkThreadNode, hstoreExit, if_true,
      Option.map_some]
  obtain ⟨marked, hstep, hmarked, hnum⟩ := hstep
  exact ⟨_, ThreadStore.serve_of_step (h.legal_unlink hlist hcreated hpc) hstep, h.linked,
    hmarked.trans h.exit, hnum.trans h.num, fun u hu => h.held u (hbefore u hu),
    fun u v hu hv => h.inj u v (hbefore u hu) (hbefore v hv)⟩

/-- The process begins to exit. -/
theorem StoreOf.cleanUp (h : StoreOf main before store) (hpc : (before.locals t).pc ≠ .unlinked) :
    ∃ served, store.serve .exitCleanup = some served ∧
      StoreOf main (afterMove before t me { before.shared with inExitCleanup := true })
        served := by
  have hbefore : ∀ u,
      OwnsNode main (afterMove before t me { before.shared with inExitCleanup := true }) u →
        OwnsNode main before u :=
    fun u hu => hu.of_after rfl fun heq => absurd heq hpc
  have hlegal : store.use.Legal (store.call .exitCleanup) := trivial
  exact ⟨_, ThreadStore.serve_of_step hlegal rfl, h.linked, rfl, h.num,
    fun u hu => h.held u (hbefore u hu), fun u v hu hv => h.inj u v (hbefore u hu) (hbefore v hv)⟩

end Requests

/-! ### A run -/

/-- **A move of a thread keeps the store in step with the threads**: what it asks the store
for can be served, and the store is that of the threads again. -/
theorem StoreOf.step {before after : State ι (MonitorThread ι) (MonitorShared ι)}
    {event : ι × ThreadMove ι} {store : ThreadStore ι} {free : List NodeAddr}
    (h : StoreOf main before store) (hok : store.use.Ok free) (hlist : ListInvariant main before)
    (hcreated : Created main before)
    (hstep : (monitorThreads main).step before event = some after) :
    ∃ served, store.serveAll
        (nodeRequest event.1 (before.locals event.1) before.shared event.2).toList = some served ∧
      StoreOf main after served := by
  obtain ⟨t, move⟩ := event
  obtain ⟨me, shared, hact, rfl⟩ := Choices.step_eq_some_iff.mp hstep
  have hmove := (monitorStep_of_threadMove hact).store
  -- one request is served by itself
  have hone : ∀ {request : NodeRequest ι} {goal : ThreadStore ι → Prop},
      (∃ served, store.serve request = some served ∧ goal served) →
        ∃ served, store.serveAll (some request).toList = some served ∧ goal served := by
    rintro request goal ⟨served, hserved, hgoal⟩
    exact ⟨served, by simp [ThreadStore.serveAll, hserved], hgoal⟩
  dsimp only
  generalize nodeRequest t (before.locals t) before.shared move = request at hmove ⊢
  cases hmove with
  | quiet hsame hexit hnum hspawned hpc => exact ⟨store, rfl, h.quiet hsame hexit hnum hspawned hpc⟩
  | creates child hfresh _ hafter hnext =>
      subst hafter hnext
      exact hone (h.make hok hlist hcreated hfresh)
  | links hpc hexit hafter _ =>
      subst hafter
      exact hone (h.link hlist hcreated hpc hexit)
  | refused hpc hexit hafter _ =>
      subst hafter
      exact hone (h.refused hlist hcreated hpc hexit)
  | unlinks hpc hexit hafter hnext =>
      subst hafter
      exact hone (h.unlink hok hlist hcreated hpc hexit hnext)
  | marks hpc hexit hafter _ =>
      subst hafter
      exact hone (h.marks hlist hcreated hpc hexit _)
  | cleansUp hafter hpc =>
      subst hafter
      exact hone (h.cleanUp hpc)

/-- The threads are on the store. -/
structure OnStore (main : ι) (s : State ι (MonitorThread ι) (MonitorShared ι))
    (store : ThreadStore ι) : Prop where
  list : ListInvariant main s
  created : Created main s
  ok : ∃ free, store.use.Ok free
  storeOf : StoreOf main s store

/-- At the start there are no threads and no nodes. -/
theorem onStore_initial (main : ι) : OnStore main (monitorInitial main) {} where
  list := listInvariant_initial main
  created t ht := by
    refine .inl (not_not.mp fun hmain => ?_)
    have habsent : ((monitorInitial main).locals t).pc = .absent := if_neg hmain
    rcases ht with hpc | hhandler
    · exact hpc habsent
    · exact hhandler rfl
  ok := ⟨[], NodeUse.ok_initial⟩
  storeOf := ⟨rfl, rfl, rfl, fun _ ht => (nomatch ht.2.1), fun _ _ ht => (nomatch ht.2.1)⟩

/-- Requests that are served are served by legal calls. -/
theorem ThreadStore.ok_of_serveAll {store served : ThreadStore ι} {requests : List (NodeRequest ι)}
    (hok : ∃ free, store.use.Ok free) (h : store.serveAll requests = some served) :
    ∃ free, served.use.Ok free := by
  induction requests generalizing store with
  | nil =>
      cases h
      exact hok
  | cons request rest ih =>
      obtain ⟨next, hnext, hrest⟩ := Option.bind_eq_some_iff.mp h
      obtain ⟨free, hok⟩ := hok
      exact ih (ok_of_serve hok hnext) hrest

/-- **Every run of the threads is a run of the store**: all its requests are served. -/
theorem OnStore.run {events : List (ι × ThreadMove ι)}
    {before after : State ι (MonitorThread ι) (MonitorShared ι)} {store : ThreadStore ι}
    (h : OnStore main before store)
    (hrun : (monitorThreads main).run before events = some after) :
    ∃ served, store.serveAll (nodeRequests main before events) = some served ∧
      OnStore main after served := by
  induction events generalizing before store with
  | nil =>
      cases hrun
      exact ⟨store, rfl, h⟩
  | cons event rest ih =>
      obtain ⟨middle, hmiddle, hrest⟩ := Choices.run_cons_eq_some_iff.mp hrun
      obtain ⟨free, hok⟩ := h.ok
      obtain ⟨next, hnext, hstoreOf⟩ := h.storeOf.step hok h.list h.created hmiddle
      obtain ⟨served, hserved, hon⟩ := ih
        { list := h.list.step hmiddle
          created := h.created.step hmiddle
          ok := ThreadStore.ok_of_serveAll h.ok hnext
          storeOf := hstoreOf } hrest
      refine ⟨served, ?_, hon⟩
      rw [nodeRequests, hmiddle]
      dsimp only
      rw [ThreadStore.serveAll_append, hnext]
      exact hserved

/-- The next node is the node of the next thread. -/
theorem listNext_map {β : Type*} [DecidableEq β] {f : ι → β} {xs : List ι} (ht : t ∈ xs)
    (hnodup : xs.Nodup) (hinj : ∀ u ∈ xs, f u = f t → u = t) :
    listNext (xs.map f) (f t) = (listNext xs t).map f := by
  obtain ⟨front, back, rfl⟩ := List.append_of_mem ht
  have hnot : t ∉ front := fun hin =>
    (List.disjoint_of_nodup_append hnodup) hin List.mem_cons_self
  have hnot' : f t ∉ front.map f := by
    intro hin
    obtain ⟨u, hu, heq⟩ := List.mem_map.mp hin
    exact hnot (hinj u (List.mem_append_left _ hu) heq ▸ hu)
  rw [listNext, listNext, List.map_append, List.map_cons, dropWhile_ne_append hnot',
    dropWhile_ne_append hnot]
  cases back <;> rfl

/-- **Each thread has a node of its own.**  In every run of the threads, all that
libmonitor asks the store for is served, by legal calls that do not fail: each thread links
and unlinks the node that was made for it.  The threads that were created and not unlinked
have nodes that differ, with the right magic; `monitor_thread_list` links the nodes of the
threads that are in the list; and the loop over it, from `LIST_FIRST` along `LIST_NEXT`,
goes from thread to thread as `listNext` does. -/
theorem threads_have_own_nodes {events : List (ι × ThreadMove ι)}
    {s : State ι (MonitorThread ι) (MonitorShared ι)}
    (hrun : (monitorThreads main).run (monitorInitial main) events = some s) :
    ∃ store : ThreadStore ι,
      ThreadStore.serveAll {} (nodeRequests main (monitorInitial main) events) = some store ∧
      (∀ t u, OwnsNode main s t → OwnsNode main s u → store.nodeOf t = store.nodeOf u → t = u) ∧
      (∀ t, OwnsNode main s t →
        (store.use.store.node (store.nodeOf t)).magic = monitorTnMagic) ∧
      store.use.store.links.first .threads = s.shared.threadList.head?.map store.nodeOf ∧
      ∀ t ∈ s.shared.threadList, store.use.store.links.next (store.nodeOf t) =
        (listNext s.shared.threadList t).map store.nodeOf := by
  obtain ⟨store, hserved, hlist, hcreated, ⟨free, hok⟩, hstore⟩ := (onStore_initial main).run hrun
  have howns : ∀ t ∈ s.shared.threadList, OwnsNode main s t := fun t ht =>
    hlist.ownsNode hcreated ht
  refine ⟨store, hserved, hstore.inj, fun t ht => hok.magic _ (hstore.held t ht), ?_,
    fun t ht => ?_⟩
  · have hfirst : store.use.store.links.first .threads = store.use.linked.head? :=
      hok.holds.first_eq .threads
    rw [hfirst, hstore.linked, List.head?_map]
  · have hmem : store.nodeOf t ∈ store.use.linked := hstore.linked ▸ List.mem_map_of_mem ht
    rw [hok.next_eq hmem, hstore.linked]
    exact listNext_map ht hlist.nodup fun u hu heq =>
      hstore.inj u t (howns u hu) (howns t ht) heq

/-- In a race of two threads for the exit, the list is that of the store. -/
theorem threads_have_own_nodes_of_race : ∃ s,
    (monitorThreads 0).run (monitorInitial 0) exitRace = some s ∧
      ∃ store : ThreadStore ℕ,
        ThreadStore.serveAll {} (nodeRequests 0 (monitorInitial 0) exitRace) = some store ∧
        store.use.store.links.first .threads = s.shared.threadList.head?.map store.nodeOf := by
  obtain ⟨s, hrun, -⟩ := exitRace_run
  obtain ⟨store, hserved, -, -, hfirst, -⟩ := threads_have_own_nodes hrun
  exact ⟨s, hrun, store, hserved, hfirst⟩

end Papiex
