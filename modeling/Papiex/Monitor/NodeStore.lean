import Papiex.Lib.Queue
import Papiex.Monitor.Contract
import Mathlib.Tactic.Linarith

/-!
# The store of thread nodes

libmonitor takes its thread nodes from an array of 150, or from a list of nodes that
were given back, and allocates another array only when both are used up.  The list of
threads and the free list are linked through the same two pointers of the nodes.  A run
of the store is a list of calls, in which a node is linked once, by the one who holds it,
and unlinked once.

## Main results

* `NodeUse.Ok.step`: a legal call keeps the invariant of the store.
* `NodeUse.Ok.next_eq`: the loop over the list of threads follows `listNext`.
* `NodeUse.arrays_eq_one`: 150 threads at a time need no memory.

## Design notes

A node is an address in one of the arrays, and the links are those of `Papiex.Lib.Queue`,
which hold the list of threads and the free list as a family.  Which threads hold which nodes
is kept beside the store, because the store does not know it; a legal call is one that fits
to it.  `monitor_unlink_thread_node` with a node of neither list would write through a null
pointer, and this is a failure.
-/

namespace Papiex

open Queue

/-- `MONITOR_TN_MAGIC`. -/
def monitorTnMagic : ℕ := 0x6d746e00

/-- `MONITOR_TN_ARRAY_SIZE`. -/
def monitorTnArraySize : ℕ := 150

/-- `monitor_thread_list` and `monitor_free_list`. -/
inductive NodeList where
  | threads
  | free
  deriving DecidableEq

/-- A node in one of the arrays. -/
structure NodeAddr where
  array : ℕ
  pos : ℕ
  deriving DecidableEq

/-- What the store writes into a node. -/
structure StoredNode where
  magic : ℕ := 0
  tid : ℤ := 0
  finiStarted : Bool := false
  finiDone : Bool := false
  deriving DecidableEq

/-- The variables under the lock of the thread list.  `arrays` is how many arrays there
are. -/
structure NodeStore where
  links : Links NodeList NodeAddr := {}
  tnArray : ℕ := 0
  tnArrayPos : ℕ := 0
  arrays : ℕ := 1
  threadNum : ℕ := 0
  inExitCleanup : Bool := false
  node : NodeAddr → StoredNode := fun _ => {}

namespace NodeStore

/-- Write a node. -/
def setNode (store : NodeStore) (tn : NodeAddr) (node : StoredNode) : NodeStore :=
  { store with node := Function.update store.node tn node }

/-- `memset (tn, 0, sizeof (struct monitor_thread_node))`. -/
def memset (store : NodeStore) (tn : NodeAddr) : NodeStore :=
  { store.setNode tn {} with links := store.links.clear tn }

/-- `monitor_make_thread_node`.  `malloc` says if memory can be allocated; libmonitor
stops if it cannot. -/
def makeThreadNode (store : NodeStore) (malloc : Bool) : Option (NodeStore × NodeAddr) :=
  let found : Option (NodeStore × NodeAddr) :=
    match store.links.first .free with
    | some tn => (store.links.remove tn).map fun links => ({ store with links := links }, tn)
    | none =>
        if store.tnArrayPos < monitorTnArraySize then
          some ({ store with tnArrayPos := store.tnArrayPos + 1 },
            ⟨store.tnArray, store.tnArrayPos⟩)
        else if malloc then
          some ({ store with
            tnArray := store.arrays, tnArrayPos := 1, arrays := store.arrays + 1 },
            ⟨store.arrays, 0⟩)
        else none
  found.map fun next =>
    ((next.1.memset next.2).setNode next.2 { magic := monitorTnMagic, tid := -1 }, next.2)

/-- `monitor_link_thread_node`, and if it returns 0. -/
def linkThreadNode (store : NodeStore) (tn : NodeAddr) : NodeStore × Bool :=
  if store.inExitCleanup then (store, false)
  else
    ({ store.setNode tn { store.node tn with tid := store.threadNum + 1 } with
      threadNum := store.threadNum + 1
      links := store.links.insertHead .threads tn }, true)

/-- `monitor_unlink_thread_node`; it fails if `LIST_REMOVE` writes through a null
pointer. -/
def unlinkThreadNode (store : NodeStore) (tn : NodeAddr) : Option NodeStore :=
  if store.inExitCleanup then
    some (store.setNode tn { store.node tn with finiStarted := true, finiDone := true })
  else
    (store.links.remove tn).map fun links =>
      let cleared := { store with links := links }.memset tn
      { cleared with links := cleared.links.insertHead .free tn }

/-- `monitor_reset_thread_list`, of the lists and the array. -/
def resetThreadList (store : NodeStore) : NodeStore :=
  { store with links := (store.links.init .threads).init .free, tnArrayPos := 0 }

end NodeStore

/-! ## The use of the store -/

/-- The calls the threads make. -/
inductive NodeCall where
  /-- `pthread_create`. -/
  | make (malloc : Bool)
  /-- The new thread links the node it was created with. -/
  | link (tn : NodeAddr)
  /-- The thread has ended. -/
  | unlink (tn : NodeAddr)
  /-- The process begins to exit. -/
  | exitCleanup
  /-- The process is the child of a `fork`. -/
  | reset
  deriving DecidableEq

/-- The store, and who has the nodes: those that were made and not given back, and those
of them that are linked.  `base` is the array at the last reset. -/
structure NodeUse where
  store : NodeStore := {}
  held : List NodeAddr := []
  linked : List NodeAddr := []
  base : ℕ := 0

namespace NodeUse

/-- A thread links the node it holds once, and unlinks it once. -/
def Legal (use : NodeUse) : NodeCall → Prop
  | .link tn => tn ∈ use.held ∧ tn ∉ use.linked
  | .unlink tn => tn ∈ use.linked
  | _ => True

instance (use : NodeUse) : DecidablePred use.Legal := fun call => by
  cases call <;> unfold Legal <;> infer_instance

/-- A call. -/
def step (use : NodeUse) : NodeCall → Option NodeUse
  | .make malloc => (use.store.makeThreadNode malloc).map fun made =>
      { use with store := made.1, held := made.2 :: use.held }
  | .link tn =>
      let (store, done) := use.store.linkThreadNode tn
      some { use with store := store, linked := if done then tn :: use.linked else use.linked }
  | .unlink tn => (use.store.unlinkThreadNode tn).map fun store =>
      if use.store.inExitCleanup then { use with store := store }
      else { use with store := store, held := use.held.erase tn, linked := use.linked.erase tn }
  | .exitCleanup => some { use with store := { use.store with inExitCleanup := true } }
  | .reset => some { store := use.store.resetThreadList, base := use.store.tnArray }

/-- The calls one after the other, each of them legal. -/
def run (use : NodeUse) : List NodeCall → Option NodeUse
  | [] => some use
  | call :: rest => if use.Legal call then (use.step call).bind fun next => next.run rest else none

/-- The lists that the links hold. -/
def lists (use : NodeUse) (free : List NodeAddr) : NodeList → List NodeAddr
  | .threads => use.linked
  | .free => free

/-- The node was taken from an array. -/
def Taken (use : NodeUse) (tn : NodeAddr) : Prop :=
  tn.array < use.store.arrays ∧ (tn.array = use.store.tnArray → tn.pos < use.store.tnArrayPos)

/-- The invariant of the store. -/
structure Ok (use : NodeUse) (free : List NodeAddr) : Prop where
  holds : use.store.links.Holds (use.lists free)
  held : use.held.Nodup
  linked : ∀ tn ∈ use.linked, tn ∈ use.held
  notHeld : ∀ tn ∈ free, tn ∉ use.held
  taken : ∀ tn, tn ∈ use.held ∨ tn ∈ free → use.Taken tn
  current : use.store.tnArray + 1 = use.store.arrays
  magic : ∀ tn ∈ use.held, (use.store.node tn).magic = monitorTnMagic
  base : use.base ≤ use.store.tnArray
  count : monitorTnArraySize * (use.store.tnArray - use.base) + use.store.tnArrayPos =
    use.held.length + free.length
  pos : use.store.tnArrayPos ≤ monitorTnArraySize

/-! ## One call -/

variable {use next : NodeUse} {free : List NodeAddr} {tn : NodeAddr} {malloc : Bool}

theorem lists_update_free (use : NodeUse) (free free' : List NodeAddr) :
    Function.update (use.lists free) .free free' = use.lists free' := by
  funext head
  cases head <;> simp [lists]

/-- The node that is taken: the head of the free list, the next one of the array, or the
first one of a new array. -/
theorem Ok.take (h : use.Ok free) {store : NodeStore}
    (hmade : use.store.makeThreadNode malloc = some (store, tn)) :
    ∃ links free', links.Holds (use.lists free') ∧ tn ∉ use.held ∧ tn ∉ free' ∧
      (∀ e ∈ free', e ∈ free) ∧
      ∃ tnArray tnArrayPos arrays, store =
          (({ use.store with links, tnArray, tnArrayPos, arrays } : NodeStore).memset tn).setNode
            tn { magic := monitorTnMagic, tid := -1 } ∧
        tnArray + 1 = arrays ∧ use.store.tnArray ≤ tnArray ∧ tnArrayPos ≤ monitorTnArraySize ∧
        (∀ e, use.Taken e ∨ e = tn →
          e.array < arrays ∧ (e.array = tnArray → e.pos < tnArrayPos)) ∧
        monitorTnArraySize * (tnArray - use.base) + tnArrayPos =
          use.held.length + 1 + free'.length := by
  have hcount := h.count
  have hbase := h.base
  have hcurrent := h.current
  unfold NodeStore.makeThreadNode at hmade
  cases hfree : free with
  | cons first rest =>
      subst hfree
      have hfirst : use.store.links.first .free = some first := h.holds.first_eq .free
      have hmem : first ∈ use.lists (first :: rest) .free := List.mem_cons_self
      obtain ⟨links, hremove, hholds⟩ := h.holds.remove hmem
      simp only [hfirst, hremove, Option.map_some, Option.some.injEq, Prod.mk.injEq] at hmade
      obtain ⟨rfl, rfl⟩ := hmade
      have hlists : Function.update (use.lists (first :: rest)) .free
          ((use.lists (first :: rest) .free).erase first) = use.lists rest := by
        rw [lists_update_free]
        simp [lists]
      rw [hlists] at hholds
      have hnodup : (first :: rest).Nodup := h.holds.nodup .free
      refine ⟨links, rest, hholds, h.notHeld first List.mem_cons_self,
        (List.nodup_cons.mp hnodup).1, fun e he => List.mem_cons_of_mem _ he, _, _, _, rfl,
        hcurrent, le_rfl, h.pos, ?_, ?_⟩
      · rintro e (he | rfl)
        · exact he
        · exact h.taken e (.inr List.mem_cons_self)
      · rw [hcount, List.length_cons]
        omega
  | nil =>
      subst hfree
      have hfirst : use.store.links.first .free = none := h.holds.first_eq .free
      simp only [hfirst] at hmade
      -- a node of the array that was not taken is not held
      have hnew : ∀ e : NodeAddr, ¬ use.Taken e → e ∉ use.held := fun e he hin =>
        he (h.taken e (.inl hin))
      split at hmade
      · rename_i hpos
        simp only [Option.map_some, Option.some.injEq, Prod.mk.injEq] at hmade
        obtain ⟨rfl, rfl⟩ := hmade
        refine ⟨_, [], h.holds, hnew _ ?_, nofun, nofun, _, _, _, rfl, hcurrent, le_rfl, hpos,
          ?_, ?_⟩
        · rintro ⟨-, hlt⟩
          exact lt_irrefl _ (hlt rfl)
        · rintro e (he | rfl)
          · exact ⟨he.1, fun heq => Nat.lt_succ_of_lt (he.2 heq)⟩
          · exact ⟨by show use.store.tnArray < _; omega, fun _ => Nat.lt_succ_self _⟩
        · rw [List.length_nil] at hcount ⊢
          omega
      · rename_i hpos
        split at hmade
        · simp only [Option.map_some, Option.some.injEq, Prod.mk.injEq] at hmade
          obtain ⟨rfl, rfl⟩ := hmade
          refine ⟨_, [], h.holds, hnew _ ?_, nofun, nofun, _, _, _, rfl, rfl, by omega,
            by decide, ?_, ?_⟩
          · rintro ⟨hlt, -⟩
            exact lt_irrefl _ hlt
          · rintro e (he | rfl)
            · refine ⟨Nat.lt_succ_of_lt he.1, fun heq => ?_⟩
              exact absurd he.1 (by omega)
            · exact ⟨Nat.lt_succ_self _, fun _ => Nat.one_pos⟩
          · have hfull := h.pos
            have hsub : use.store.arrays - use.base = (use.store.tnArray - use.base) + 1 := by
              omega
            rw [List.length_nil] at hcount ⊢
            rw [hsub, Nat.mul_add]
            omega
        · cases hmade

/-- **A node that is made belongs to no one.** -/
theorem Ok.make (h : use.Ok free) {store : NodeStore}
    (hmade : use.store.makeThreadNode malloc = some (store, tn)) :
    tn ∉ use.held ∧
      ∃ free', Ok { use with store := store, held := tn :: use.held } free' := by
  obtain ⟨links, free', hholds, hheld, hnot, hsub, tnArray, tnArrayPos, arrays, rfl, hcurrent,
    hbase, hpos, htaken, hcount⟩ := h.take hmade
  have hlinked : tn ∉ use.linked := fun hin => hheld (h.linked tn hin)
  refine ⟨hheld, free', ?_⟩
  constructor
  case holds =>
    refine hholds.clear fun head => ?_
    cases head
    · exact hlinked
    · exact hnot
  case held => exact List.nodup_cons.mpr ⟨hheld, h.held⟩
  case linked => exact fun e he => List.mem_cons_of_mem _ (h.linked e he)
  case notHeld =>
    intro e he hin
    rcases List.mem_cons.mp hin with rfl | hin
    · exact hnot he
    · exact h.notHeld e (hsub e he) hin
  case taken =>
    rintro e (he | he)
    · rcases List.mem_cons.mp he with rfl | he
      · exact htaken e (.inr rfl)
      · exact htaken e (.inl (h.taken e (.inl he)))
    · exact htaken e (.inl (h.taken e (.inr (hsub e he))))
  case current => exact hcurrent
  case magic =>
    intro e he
    show (Function.update (Function.update use.store.node tn {}) tn
      { magic := monitorTnMagic, tid := -1 } e).magic = monitorTnMagic
    by_cases heq : e = tn
    · rw [heq, Function.update_self]
    · rw [Function.update_of_ne heq, Function.update_of_ne heq]
      exact h.magic e ((List.mem_cons.mp he).resolve_left heq)
  case base => exact h.base.trans hbase
  case count =>
    show monitorTnArraySize * (tnArray - use.base) + tnArrayPos = _
    rw [hcount, List.length_cons]
  case pos => exact hpos

/-- Only the flags and the number of a node change. -/
theorem Ok.setNode (h : use.Ok free) (tn : NodeAddr) (node : StoredNode)
    (hmagic : node.magic = (use.store.node tn).magic) :
    Ok { use with store := use.store.setNode tn node } free :=
  { h with
    holds := h.holds
    magic := fun e he => by
      show (Function.update use.store.node tn node e).magic = monitorTnMagic
      by_cases heq : e = tn
      · rw [heq, Function.update_self, hmagic]
        exact h.magic tn (heq ▸ he)
      · rw [Function.update_of_ne heq]
        exact h.magic e he }

/-- What linking does in a process that is not exiting. -/
theorem step_link (hexit : use.store.inExitCleanup = false) (tn : NodeAddr) :
    use.step (.link tn) = some { use with
      store := { use.store.setNode tn { use.store.node tn with tid := use.store.threadNum + 1 } with
        threadNum := use.store.threadNum + 1
        links := use.store.links.insertHead .threads tn }
      linked := tn :: use.linked } := by
  simp [step, NodeStore.linkThreadNode, hexit]

/-- **A node that is linked.** -/
theorem Ok.link (h : use.Ok free) (hlegal : use.Legal (.link tn))
    (hstep : use.step (.link tn) = some next) : next.Ok free := by
  obtain ⟨hheld, hlinked⟩ := hlegal
  simp only [step, NodeStore.linkThreadNode, Option.some.injEq] at hstep
  split at hstep
  · subst hstep
    exact h
  · subst hstep
    have hset := h.setNode tn { use.store.node tn with tid := use.store.threadNum + 1 } rfl
    have hnone : ∀ head, tn ∉ use.lists free head := by
      intro head
      cases head
      · exact hlinked
      · exact fun hin => h.notHeld tn hin hheld
    refine { hset with holds := ?_, linked := ?_ }
    · have hholds := h.holds.insertHead .threads hnone
      have hlists : Function.update (use.lists free) .threads (tn :: use.lists free .threads) =
          lists { use with linked := tn :: use.linked } free := by
        funext head
        cases head <;> simp [lists]
      rw [hlists] at hholds
      exact hholds
    · intro e he
      rcases List.mem_cons.mp he with rfl | he
      · exact hheld
      · exact h.linked e he

/-- **A node that is given back.** -/
theorem Ok.unlink (h : use.Ok free) (hlegal : use.Legal (.unlink tn)) :
    ∃ next, use.step (.unlink tn) = some next ∧ ∃ free', next.Ok free' := by
  have hlegal : tn ∈ use.linked := hlegal
  simp only [step, NodeStore.unlinkThreadNode]
  cases hexit : use.store.inExitCleanup with
  | true => exact ⟨_, rfl, free, h.setNode tn _ rfl⟩
  | false =>
      have hmem : tn ∈ use.lists free .threads := hlegal
      obtain ⟨links, hremove, hholds⟩ := h.holds.remove hmem
      simp only [hremove, Bool.false_eq_true, if_false, Option.map_some]
      refine ⟨_, rfl, tn :: free, ?_⟩
      have hheld := h.linked tn hlegal
      have hlinked : use.linked.Nodup := h.holds.nodup .threads
      -- the node is in neither list when it is cleared, and then goes to the free list
      have hlists : Function.update (use.lists free) .threads
          ((use.lists free .threads).erase tn) =
            lists { use with linked := use.linked.erase tn } free := by
        funext head
        cases head <;> simp [lists]
      rw [hlists] at hholds
      have hnone : ∀ head, tn ∉ lists { use with linked := use.linked.erase tn } free head := by
        intro head
        cases head
        · exact hlinked.not_mem_erase
        · exact fun hin => h.notHeld tn hin hheld
      have hinserted := (hholds.clear hnone).insertHead .free hnone
      rw [lists_update_free] at hinserted
      constructor
      case holds => exact hinserted
      case held => exact h.held.erase tn
      case linked =>
        intro e he
        have hin := h.linked e (List.mem_of_mem_erase he)
        refine (List.mem_erase_of_ne ?_).mpr hin
        rintro rfl
        exact hlinked.not_mem_erase he
      case notHeld =>
        intro e he hin
        rcases List.mem_cons.mp he with rfl | he
        · exact h.held.not_mem_erase hin
        · exact h.notHeld e he (List.mem_of_mem_erase hin)
      case taken =>
        rintro e (he | he)
        · exact h.taken e (.inl (List.mem_of_mem_erase he))
        · rcases List.mem_cons.mp he with rfl | he
          · exact h.taken e (.inl hheld)
          · exact h.taken e (.inr he)
      case current => exact h.current
      case magic =>
        intro e he
        have hne : e ≠ tn := by
          rintro rfl
          exact h.held.not_mem_erase he
        show (Function.update use.store.node tn {} e).magic = monitorTnMagic
        rw [Function.update_of_ne hne]
        exact h.magic e (List.mem_of_mem_erase he)
      case base => exact h.base
      case count =>
        have hcount := h.count
        have hlength := List.length_erase_of_mem hheld
        have hpos := List.length_pos_of_mem hheld
        show _ = (use.held.erase tn).length + (tn :: free).length
        rw [List.length_cons, hlength]
        show monitorTnArraySize * (use.store.tnArray - use.base) + use.store.tnArrayPos = _
        omega
      case pos => exact h.pos

/-- **The child of a `fork` starts with no nodes.** -/
theorem Ok.reset (h : use.Ok free) (hstep : use.step .reset = some next) : next.Ok [] := by
  simp only [step, Option.some.injEq] at hstep
  subst hstep
  constructor
  case holds =>
    have hholds := (h.holds.init .threads).init .free
    have hlists : Function.update (Function.update (use.lists free) .threads []) .free [] =
        lists { store := use.store.resetThreadList, base := use.store.tnArray } [] := by
      funext head
      cases head <;> simp [lists]
    rw [hlists] at hholds
    exact hholds
  case held => exact List.nodup_nil
  case linked => exact nofun
  case notHeld => exact nofun
  case taken => exact fun e he => nomatch he
  case current => exact h.current
  case magic => exact nofun
  case base => exact le_rfl
  case count =>
    show monitorTnArraySize * (use.store.tnArray - use.store.tnArray) + 0 = _
    simp
  case pos => exact Nat.zero_le _

/-- **One legal call keeps the invariant.** -/
theorem Ok.step {call : NodeCall} (h : use.Ok free) (hlegal : use.Legal call)
    (hstep : use.step call = some next) : ∃ free', next.Ok free' := by
  cases call with
  | make malloc =>
      obtain ⟨made, hmade, rfl⟩ := Option.map_eq_some_iff.mp hstep
      exact (h.make hmade).2
  | link tn => exact ⟨free, h.link hlegal hstep⟩
  | unlink tn =>
      obtain ⟨next', hnext', hok⟩ := h.unlink hlegal
      rw [hnext'] at hstep
      cases hstep
      exact hok
  | exitCleanup =>
      simp only [NodeUse.step, Option.some.injEq] at hstep
      subst hstep
      exact ⟨free, { h with holds := h.holds }⟩
  | reset => exact ⟨[], h.reset hstep⟩

theorem ok_initial : Ok {} [] where
  holds := by
    have hlists : lists {} [] = fun _ => [] := by
      funext head
      cases head <;> rfl
    rw [hlists]
    exact .empty
  held := List.nodup_nil
  linked := nofun
  notHeld := nofun
  taken _ h := nomatch h
  current := rfl
  magic := nofun
  base := le_rfl
  count := rfl
  pos := by decide

/-- Runs compose along concatenation. -/
theorem run_append_eq_some_iff {front rest : List NodeCall} {before : NodeUse} :
    before.run (front ++ rest) = some use ↔
      ∃ middle, before.run front = some middle ∧ middle.run rest = some use := by
  induction front generalizing before with
  | nil => simp [run]
  | cons call front ih =>
      rw [List.cons_append, run, run]
      split
      · simp only [Option.bind_eq_some_iff, ih]
        constructor
        · rintro ⟨next, hnext, middle, hfront, hrest⟩
          exact ⟨middle, ⟨next, hnext, hfront⟩, hrest⟩
        · rintro ⟨middle, ⟨next, hnext, hfront⟩, hrest⟩
          exact ⟨next, hnext, middle, hfront, hrest⟩
      · simp

theorem run_singleton {call : NodeCall} {before : NodeUse} (hlegal : before.Legal call)
    (hstep : before.step call = some use) : before.run [call] = some use := by
  rw [run, if_pos hlegal, hstep]
  rfl

/-- What a legal call keeps holds after every run. -/
theorem run_invariant (Inv : NodeUse → Prop)
    (hstep : ∀ before call after, before.Legal call → before.step call = some after →
      Inv before → Inv after) {before : NodeUse} (h : Inv before) {calls : List NodeCall}
    (hrun : before.run calls = some use) : Inv use := by
  induction calls generalizing before with
  | nil =>
      cases hrun
      exact h
  | cons call rest ih =>
      rw [run] at hrun
      split at hrun
      · rename_i hlegal
        obtain ⟨next, hnext, hrest⟩ := Option.bind_eq_some_iff.mp hrun
        exact ih (hstep before call next hlegal hnext h) hrest
      · cases hrun

/-- The invariant holds in every run of legal calls. -/
theorem ok_of_run {calls : List NodeCall} (hrun : run {} calls = some use) :
    ∃ free, use.Ok free :=
  run_invariant (fun use => ∃ free, use.Ok free)
    (fun _ _ _ hlegal hstep ⟨_, hok⟩ => hok.step hlegal hstep) ⟨[], ok_initial⟩ hrun

/-- The loop over the list of threads follows `listNext`. -/
theorem Ok.next_eq (h : use.Ok free) (htn : tn ∈ use.linked) :
    use.store.links.next tn = listNext use.linked tn := by
  have hchain : use.store.links.Chain (.first .threads) use.linked := h.holds.chain .threads
  have hnodup : use.linked.Nodup := h.holds.nodup .threads
  obtain ⟨front, back, hsplit⟩ := List.append_of_mem htn
  rw [hsplit] at hchain hnodup ⊢
  have hnot : tn ∉ front := fun hin =>
    (List.disjoint_of_nodup_append hnodup) hin List.mem_cons_self
  rw [listNext, dropWhile_ne_append hnot]
  exact hchain.drop.read_eq_head?

/-! ## How many nodes there are -/

/-- If memory can be allocated, a node can be made. -/
theorem Ok.exists_make (h : use.Ok free) :
    ∃ store tn, use.store.makeThreadNode true = some (store, tn) := by
  unfold NodeStore.makeThreadNode
  cases hfree : free with
  | cons first rest =>
      subst hfree
      have hfirst : use.store.links.first .free = some first := h.holds.first_eq .free
      have hmem : first ∈ use.lists (first :: rest) .free := List.mem_cons_self
      obtain ⟨links, hremove, -⟩ := h.holds.remove hmem
      simp only [hfirst, hremove, Option.map_some]
      exact ⟨_, _, rfl⟩
  | nil =>
      subst hfree
      have hfirst : use.store.links.first .free = none := h.holds.first_eq .free
      simp only [hfirst, if_true]
      split
      · exact ⟨_, _, rfl⟩
      · exact ⟨_, _, rfl⟩

/-- With fewer than 150 nodes held there is one on the free list or in the array. -/
theorem Ok.make_below (h : use.Ok free) (malloc : Bool)
    (hheld : use.held.length < monitorTnArraySize) : ∃ store tn,
    use.store.makeThreadNode malloc = some (store, tn) ∧
      store.arrays = use.store.arrays := by
  unfold NodeStore.makeThreadNode
  cases hfree : free with
  | cons first rest =>
      subst hfree
      have hfirst : use.store.links.first .free = some first := h.holds.first_eq .free
      have hmem : first ∈ use.lists (first :: rest) .free := List.mem_cons_self
      obtain ⟨links, hremove, -⟩ := h.holds.remove hmem
      simp only [hfirst, hremove, Option.map_some]
      exact ⟨_, _, rfl, rfl⟩
  | nil =>
      subst hfree
      have hfirst : use.store.links.first .free = none := h.holds.first_eq .free
      have hcount := h.count
      have hpos : use.store.tnArrayPos < monitorTnArraySize := by
        rw [List.length_nil] at hcount
        omega
      simp only [hfirst, if_pos hpos, Option.map_some]
      exact ⟨_, _, rfl, rfl⟩

/-- **150 threads at a time need no memory.**  In every run in which fewer than 150 nodes
are held whenever a thread is created, libmonitor never allocates an array, whether or not
it could. -/
theorem arrays_eq_one {calls : List NodeCall} (hrun : run {} calls = some use)
    (hfew : ∀ front malloc rest middle, calls = front ++ .make malloc :: rest →
      run {} front = some middle → middle.held.length < monitorTnArraySize) :
    use.store.arrays = 1 := by
  induction calls using List.reverseRecOn generalizing use with
  | nil =>
      cases hrun
      rfl
  | append_singleton calls call ih =>
      obtain ⟨middle, hmiddle, hlast⟩ := run_append_eq_some_iff.mp hrun
      have hbefore := ih hmiddle fun front malloc rest mid hsplit =>
        hfew front malloc (rest ++ [call]) mid (by simp [hsplit])
      rw [← hbefore]
      rw [run] at hlast
      split at hlast
      · obtain ⟨next, hnext, hlast⟩ := Option.bind_eq_some_iff.mp hlast
        cases hlast
        cases call with
        | make malloc =>
            obtain ⟨free, hok⟩ := ok_of_run hmiddle
            obtain ⟨store, tn, hmade, harrays⟩ :=
              hok.make_below malloc (hfew calls malloc [] middle rfl hmiddle)
            simp only [step, hmade, Option.map_some, Option.some.injEq] at hnext
            subst hnext
            exact harrays
        | link tn =>
            simp only [step, NodeStore.linkThreadNode, Option.some.injEq] at hnext
            split at hnext <;> subst hnext <;> rfl
        | unlink tn =>
            obtain ⟨store, hstore, hnext⟩ := Option.map_eq_some_iff.mp hnext
            unfold NodeStore.unlinkThreadNode at hstore
            split at hstore
            · cases hstore
              split at hnext <;> subst hnext <;> rfl
            · obtain ⟨links, -, rfl⟩ := Option.map_eq_some_iff.mp hstore
              split at hnext <;> subst hnext <;> rfl
        | exitCleanup | reset =>
            cases hnext
            rfl
      · cases hlast

/-- Two threads are created, and the second one gets the node of the first. -/
def reuse : List NodeCall := [.make false, .link ⟨0, 0⟩, .unlink ⟨0, 0⟩, .make false]

theorem arrays_eq_one_of_reuse : ∃ use : NodeUse, run {} reuse = some use ∧
    use.held = [⟨0, 0⟩] ∧ use.store.arrays = 1 := by
  have hruns : ∃ use : NodeUse, run {} reuse = some use ∧ use.held = [⟨0, 0⟩] :=
    ⟨_, rfl, rfl⟩
  obtain ⟨use, hrun, hheld⟩ := hruns
  refine ⟨use, hrun, hheld,
    arrays_eq_one hrun fun front malloc rest middle hsplit hmiddle => ?_⟩
  unfold reuse at hsplit
  rcases front with _ | ⟨a, _ | ⟨b, _ | ⟨c, _ | ⟨d, more⟩⟩⟩⟩
  · cases hmiddle
    decide
  · simp at hsplit
  · simp at hsplit
  · simp only [List.cons_append, List.nil_append, List.cons.injEq] at hsplit
    obtain ⟨rfl, rfl, rfl, -⟩ := hsplit
    cases hmiddle
    decide
  · simp at hsplit

end NodeUse

end Papiex
