import Papiex.Lib.ArrayLoop
import Mathlib.Data.List.Range
import Mathlib.Data.Finset.Basic

/-!
# Signals under libmonitor

libmonitor installs its own handler for every signal, keeps what the application asks for
in a table, and offers each signal to the client first.  It wants two things.  The
application is to see what it would see without libmonitor; and there is always to be a
signal that no thread blocks, for the shootdown of the threads.

## Main results

* `SignalTable.removeClientSignals`: a mask loses the signals that are to stay open.
* `SignalTable.Open.call`: after every call there is an open signal.
* `shootdown_signal_open`: the signal for the shootdown is in no mask.

## Design notes

A signal is a number, as in the source, and the table a function on the numbers.  The loops
over all signals change each entry by itself, so they are stated at one entry.  What was
installed as a mask is kept in the table only for the statement.  The search for a spare
signal makes one pass and remembers one candidate of each kind; it is compared with the order
of preference (`SignalTable.preferred`).
-/

namespace Papiex

/-- `MONITOR_NSIG`. -/
def monitorNsig : ℕ := 65

/-- A signal set. -/
abbrev SigSet := ℕ → Bool

/-- `sa_handler`. -/
inductive SigHandler (H : Type*) where
  | dfl
  | ign
  | fn (handler : H)
  deriving DecidableEq

/-- `struct sigaction`. -/
structure SigAction (H : Type*) where
  handler : SigHandler H := .dfl
  flags : BitVec 32 := 0
  mask : SigSet := fun _ => false

def saSiginfo : BitVec 32 := 0x4
def saRestart : BitVec 32 := 0x10000000
def saOnstack : BitVec 32 := 0x08000000
def saResethand : BitVec 32 := 0x80000000

/-- `SAFLAGS_REQUIRED`. -/
def saflagsRequired : BitVec 32 := saSiginfo ||| saRestart

/-- `SAFLAGS_FORBIDDEN`. -/
def saflagsForbidden : BitVec 32 := saResethand ||| saOnstack

/-- `monitor_adjust_saflags`. -/
def monitorAdjustSaflags (flags : BitVec 32) : BitVec 32 :=
  (flags ||| saflagsRequired) &&& ~~~saflagsForbidden

/-- `struct monitor_signal_entry`. -/
structure SignalEntry (H C : Type*) where
  applAct : SigAction H := {}
  kernFlags : BitVec 32 := 0
  kernMask : SigSet := fun _ => false
  clientHandler : Option C := none
  avoid : Bool := false
  invalid : Bool := false
  noterm : Bool := false
  noraise : Bool := false
  stop : Bool := false
  blocked : Bool := false
  applHand : Bool := false
  keepOpen : Bool := false

/-- `monitor_signal_avoid_list`: `SIGKILL` and `SIGSTOP`. -/
def monitorSignalAvoidList : List ℕ := [9, 19]

/-- `monitor_signal_noterm_list`: `SIGCHLD`, `SIGCONT`, `SIGURG` and `SIGWINCH`. -/
def monitorSignalNotermList : List ℕ := [17, 18, 23, 28]

/-- `monitor_signal_noraise_list`: `SIGSEGV`, `SIGBUS` and `SIGILL`. -/
def monitorSignalNoraiseList : List ℕ := [11, 7, 4]

/-- `monitor_signal_stop_list`: `SIGTSTP`, `SIGTTIN` and `SIGTTOU`. -/
def monitorSignalStopList : List ℕ := [20, 21, 22]

/-- `monitor_extra_list`: `SIGUSR2`, `SIGUSR1`, `SIGPWR`, `SIGURG` and `SIGPIPE`. -/
def monitorExtraList : List ℕ := [12, 10, 30, 23, 13]

/-- `last_resort_signal`: `SIGWINCH`. -/
def lastResortSignal : ℕ := 28

/-- The system libmonitor starts on: the signals for which a handler can be installed,
what was installed before, `SIGRTMIN`, the signals of `--enable-client-signals`, and the
number in the variable `MONITOR_SHOOTDOWN_SIGNAL`, if there is one. -/
structure SignalSystem (H : Type*) where
  installs : ℕ → Bool
  initial : ℕ → SigAction H
  sigrtmin : ℕ
  openList : List ℕ
  shootdownVar : Option ℤ

/-- The variables of `signal.c`, and the masks that were given to the kernel. -/
structure SignalTable (H C : Type*) where
  entry : ℕ → SignalEntry H C
  shootdownList : List ℕ
  shootdownSignal : Option ℕ := none
  masks : List SigSet := []

section Functions

variable {H C : Type*}

/-- The entry of `monitor_signal_array` after the loops of `monitor_signal_init`. -/
def SignalSystem.entry (sys : SignalSystem H) (sig : ℕ) : SignalEntry H C :=
  let mse : SignalEntry H C :=
    { avoid := sig ∈ monitorSignalAvoidList
      noterm := sig ∈ monitorSignalNotermList
      noraise := sig ∈ monitorSignalNoraiseList
      stop := sig ∈ monitorSignalStopList
      keepOpen := sig ∈ sys.openList ∧ 1 ≤ sig ∧ sig < monitorNsig }
  if mse.avoid ∨ sig = 0 ∨ monitorNsig ≤ sig then mse
  else if sys.installs sig then
    { mse with applAct := sys.initial sig, kernFlags := saflagsRequired }
  else { mse with kernFlags := saflagsRequired, invalid := true }

/-- The signal can be taken for the shootdown. -/
def SignalEntry.Spare (mse : SignalEntry H C) : Bool :=
  !mse.avoid && !mse.invalid && !mse.stop && !mse.keepOpen

/-- The entry remembers an action of the application. -/
def SignalEntry.recordAppl (mse : SignalEntry H C) (act : SigAction H) : SignalEntry H C :=
  match act.handler with
  | .fn _ => { mse with applHand := true, applAct := act }
  | _ => { mse with applAct := act }

/-- `monitor_signal_init`. -/
def monitorSignalInit (C : Type*) (sys : SignalSystem H) : SignalTable H C :=
  let entry : ℕ → SignalEntry H C := sys.entry
  let realTime := ((List.range' 6 8).map (sys.sigrtmin + ·)).filter fun sig =>
    sig < monitorNsig ∧ (entry sig).Spare
  let extra := monitorExtraList.filter fun sig => (entry sig).Spare
  let table : SignalTable H C :=
    { entry := entry, shootdownList := realTime ++ extra ++ [lastResortSignal] }
  match sys.shootdownVar with
  | none => table
  | some var =>
      let sig := var.toNat
      if 0 < var ∧ sig < monitorNsig ∧ (entry sig).avoid = false ∧ (entry sig).invalid = false ∧
          (entry sig).stop = false then
        { table with
          entry := Function.update entry sig { entry sig with keepOpen := true }
          shootdownSignal := some sig }
      else table

/-- The search of `monitor_remove_client_signals` for an unblocked signal in the old and in
the new set. -/
def findAvail (entry : ℕ → SignalEntry H C) (set : SigSet) :
    List ℕ → Option ℕ → Option ℕ × Option ℕ
  | [], oldAvail => (oldAvail, none)
  | sig :: rest, oldAvail =>
      if (entry sig).blocked then findAvail entry set rest oldAvail
      else
        let oldAvail := oldAvail.or (some sig)
        if set sig then findAvail entry set rest oldAvail else (oldAvail, some sig)

/-- One signal of the loop of `monitor_remove_client_signals`. -/
def removeStep (slot : SignalEntry H C × Bool) : SignalEntry H C × Bool :=
  if slot.1.avoid = false ∧ slot.1.invalid = false then
    if slot.1.keepOpen then (slot.1, false)
    else if slot.2 then ({ slot.1 with blocked := true }, slot.2) else slot
  else slot

namespace SignalTable

/-- Change an entry. -/
def modify (table : SignalTable H C) (sig : ℕ) (change : SignalEntry H C → SignalEntry H C) :
    SignalTable H C :=
  { table with entry := Function.update table.entry sig (change (table.entry sig)) }

/-- The choice of a shootdown signal in `monitor_remove_client_signals`. -/
def reserve (table : SignalTable H C) (set : SigSet) : SignalTable H C :=
  match table.shootdownSignal with
  | some _ => table
  | none =>
      match findAvail table.entry set table.shootdownList none with
      | (some oldAvail, none) =>
          { table.modify oldAvail fun mse => { mse with keepOpen := true } with
            shootdownSignal := some oldAvail }
      | _ => table

/-- `monitor_remove_client_signals`: the table, and what is left of the set. -/
def removeClientSignals (table : SignalTable H C) (set : SigSet) : SignalTable H C × SigSet :=
  let reserved := table.reserve set
  let looped := (List.range' 1 (monitorNsig - 1)).foldl (ArrayLoop.modify fun _ => removeStep)
    fun sig => (reserved.entry sig, set sig)
  ({ reserved with entry := fun sig => (looped sig).1 }, fun sig => (looped sig).2)

/-- A mask that is given to the kernel. -/
def install (table : SignalTable H C) (set : SigSet) : SignalTable H C × SigSet :=
  let removed := table.removeClientSignals set
  ({ removed.1 with masks := removed.1.masks ++ [removed.2] }, removed.2)

/-- The number is one of a signal that libmonitor has a handler for. -/
def Handled (table : SignalTable H C) (sig : ℤ) : Prop :=
  0 < sig ∧ sig < monitorNsig ∧ (table.entry sig.toNat).invalid = false ∧
    (table.entry sig.toNat).avoid = false

instance (table : SignalTable H C) (sig : ℤ) : Decidable (table.Handled sig) :=
  inferInstanceAs (Decidable (_ ∧ _))

/-- The action of the application is put into effect. -/
def setAction (table : SignalTable H C) (sig : ℕ) (flags : BitVec 32) (mask : SigSet) :
    SignalTable H C :=
  let flagged := table.modify sig fun mse =>
    { mse with kernFlags := monitorAdjustSaflags flags, kernMask := mask }
  let installed := flagged.install mask
  installed.1.modify sig fun mse => { mse with kernMask := installed.2 }

/-- `monitor_appl_sigaction`: the table, and the old action or an error.  The real
`sigaction` cannot change the signals on the avoid list. -/
def applSigaction (table : SignalTable H C) (sig : ℤ) (act : Option (SigAction H)) :
    SignalTable H C × Option (SigAction H) :=
  if sig ≤ 0 ∨ monitorNsig ≤ sig ∨ (table.entry sig.toNat).invalid = true then (table, none)
  else if (table.entry sig.toNat).avoid then (table, if act.isSome then none else some {})
  else
    let old := (table.entry sig.toNat).applAct
    match act with
    | none => (table, some old)
    | some act =>
        let kept := table.modify sig.toNat fun mse => mse.recordAppl act
        (kept.setAction sig.toNat act.flags act.mask, some old)

/-- `monitor_sigaction`, of the client: the table, and if it succeeds. -/
def clientSigaction (table : SignalTable H C) (sig : ℤ) (handler : C)
    (act : Option (SigAction H)) : SignalTable H C × Bool :=
  if table.Handled sig then
    let caught := table.modify sig.toNat fun mse =>
      { mse with keepOpen := true, clientHandler := some handler }
    match act with
    | none => (caught, true)
    | some act => (caught.setAction sig.toNat act.flags act.mask, true)
  else (table, false)

/-- `sigprocmask` and `pthread_sigmask` with `SIG_BLOCK` or `SIG_SETMASK`. -/
def sigprocmask (table : SignalTable H C) (set : SigSet) : SignalTable H C := (table.install set).1

end SignalTable

/-- A call that changes the table: `sigaction` of the application, `monitor_sigaction` of the
client, or a call that sets a mask. -/
inductive SignalCall (H C : Type*) where
  | appl (sig : ℤ) (act : Option (SigAction H))
  | client (sig : ℤ) (handler : C) (act : Option (SigAction H))
  | mask (set : SigSet)

/-- The table after a call. -/
def SignalTable.call (table : SignalTable H C) : SignalCall H C → SignalTable H C
  | .appl sig act => (table.applSigaction sig act).1
  | .client sig handler act => (table.clientSigaction sig handler act).1
  | .mask set => table.sigprocmask set

/-- The search of `monitor_shootdown_signal`. -/
def findShootdown (entry : ℕ → SignalEntry H C) :
    List ℕ → Option ℕ → Option ℕ → Option ℕ × Option ℕ × Option ℕ
  | [], ans2, ans3 => (none, ans2, ans3)
  | sig :: rest, ans2, ans3 =>
      if (entry sig).blocked then findShootdown entry rest ans2 ans3
      else
        let ans3 := ans3.or (some sig)
        if (entry sig).clientHandler.isSome then findShootdown entry rest ans2 ans3
        else
          let ans2 := ans2.or (some sig)
          if (entry sig).applHand then findShootdown entry rest ans2 ans3
          else (some sig, ans2, ans3)

/-- `monitor_shootdown_signal`. -/
def SignalTable.monitorShootdownSignal (table : SignalTable H C) : SignalTable H C × ℕ :=
  match table.shootdownSignal with
  | some sig => (table, sig)
  | none =>
      let (ans1, ans2, ans3) := findShootdown table.entry table.shootdownList none none
      let sig := ((ans1.or ans2).or ans3).getD lastResortSignal
      ({ table with shootdownSignal := some sig }, sig)

end Functions

/-! ## A signal for the shootdown -/

section Shootdown

variable {H C : Type*} {table : SignalTable H C} {entry : ℕ → SignalEntry H C} {set : SigSet}
variable {sig : ℕ}

/-- libmonitor has a handler for the signal. -/
structure SignalEntry.Valid (mse : SignalEntry H C) : Prop where
  notAvoided : mse.avoid = false
  notInvalid : mse.invalid = false

/-- What the search for an unblocked signal finds. -/
theorem findAvail_spec (entry : ℕ → SignalEntry H C) (set : SigSet) (list : List ℕ)
    (oldAvail : Option ℕ) :
    (∀ new, (findAvail entry set list oldAvail).2 = some new →
        new ∈ list ∧ (entry new).blocked = false ∧ set new = false) ∧
      (∀ old, (findAvail entry set list oldAvail).1 = some old →
        oldAvail = some old ∨ old ∈ list ∧ (entry old).blocked = false) ∧
      ((findAvail entry set list oldAvail).1 = none →
        oldAvail = none ∧ ∀ sig ∈ list, (entry sig).blocked = true) := by
  induction list generalizing oldAvail with
  | nil => exact ⟨nofun, fun old h => .inl h, fun h => ⟨h, nofun⟩⟩
  | cons sig rest ih =>
      unfold findAvail
      by_cases hblocked : (entry sig).blocked = true
      · rw [if_pos hblocked]
        obtain ⟨hnew, hold, hnone⟩ := ih oldAvail
        refine ⟨fun new h => ?_, fun old h => ?_, fun h => ⟨(hnone h).1, ?_⟩⟩
        · exact (hnew new h).imp_left (List.mem_cons_of_mem _)
        · exact (hold old h).imp_right (And.imp_left (List.mem_cons_of_mem _))
        · exact List.forall_mem_cons.mpr ⟨hblocked, (hnone h).2⟩
      · rw [if_neg hblocked]
        have hopen : (entry sig).blocked = false := Bool.eq_false_of_not_eq_true hblocked
        -- the signal, or an earlier one, is available in the old set
        have hfirst : ∀ old, oldAvail.or (some sig) = some old →
            oldAvail = some old ∨ old ∈ sig :: rest ∧ (entry old).blocked = false := by
          intro old h
          cases oldAvail with
          | none =>
              cases h
              exact .inr ⟨List.mem_cons_self, hopen⟩
          | some earlier => exact .inl h
        have hsome : oldAvail.or (some sig) ≠ none := by cases oldAvail <;> nofun
        dsimp only
        split
        · obtain ⟨hnew, hold, hnone⟩ := ih (oldAvail.or (some sig))
          refine ⟨fun new h => ?_, fun old h => ?_, fun h => absurd (hnone h).1 hsome⟩
          · exact (hnew new h).imp_left (List.mem_cons_of_mem _)
          · rcases hold old h with h | ⟨hmem, h⟩
            · exact hfirst old h
            · exact .inr ⟨List.mem_cons_of_mem _ hmem, h⟩
        · rename_i hset
          refine ⟨fun new h => ?_, hfirst, fun h => absurd h hsome⟩
          cases h
          exact ⟨List.mem_cons_self, hopen, Bool.eq_false_of_not_eq_true hset⟩

/-- The loop of `monitor_remove_client_signals` comes to each signal once. -/
theorem SignalTable.removeClientSignals_apply (table : SignalTable H C) (set : SigSet) (sig : ℕ) :
    ((table.removeClientSignals set).1.entry sig, (table.removeClientSignals set).2 sig) =
      if 1 ≤ sig ∧ sig < monitorNsig then removeStep ((table.reserve set).entry sig, set sig)
      else ((table.reserve set).entry sig, set sig) := by
  have hmem : sig ∈ List.range' 1 (monitorNsig - 1) ↔ 1 ≤ sig ∧ sig < monitorNsig := by
    rw [List.mem_range'_1]
    exact Iff.rfl
  show (List.range' 1 (monitorNsig - 1)).foldl (ArrayLoop.modify fun _ => removeStep)
    (fun sig => ((table.reserve set).entry sig, set sig)) sig = _
  split
  · rename_i hsig
    exact ArrayLoop.foldl_modify_of_mem List.nodup_range' (hmem.mpr hsig)
  · rename_i hsig
    exact ArrayLoop.foldl_modify_of_notMem (mt hmem.mp hsig)

/-- There is an open signal, and the masks that were installed are accounted for. -/
structure SignalTable.Open (table : SignalTable H C) : Prop where
  tracked : ∀ mask ∈ table.masks, ∀ sig, mask sig = true → 1 ≤ sig → sig < monitorNsig →
    (table.entry sig).Valid → (table.entry sig).blocked = true
  listed : ∀ sig ∈ table.shootdownList, 1 ≤ sig ∧ sig < monitorNsig ∧ (table.entry sig).Valid
  available : table.shootdownSignal = none →
    ∃ sig ∈ table.shootdownList, (table.entry sig).blocked = false
  chosen : ∀ sig, table.shootdownSignal = some sig → 1 ≤ sig ∧ sig < monitorNsig ∧
    (table.entry sig).Valid ∧ (table.entry sig).keepOpen = true ∧
      (table.entry sig).blocked = false

/-- A change of an entry that blocks nothing and opens nothing to masks. -/
structure SignalEntry.Keeps (before after : SignalEntry H C) : Prop where
  avoid : after.avoid = before.avoid
  invalid : after.invalid = before.invalid
  blocked : after.blocked = before.blocked
  keepOpen : before.keepOpen = true → after.keepOpen = true

theorem SignalEntry.Keeps.valid_iff {before after : SignalEntry H C} (h : before.Keeps after) :
    after.Valid ↔ before.Valid :=
  ⟨fun hv => ⟨h.avoid ▸ hv.1, h.invalid ▸ hv.2⟩,
    fun hv => ⟨h.avoid.trans hv.1, h.invalid.trans hv.2⟩⟩

/-- Entries that change like that. -/
theorem SignalTable.Open.of_keeps {table' : SignalTable H C} (h : table.Open)
    (hkeeps : ∀ sig, (table.entry sig).Keeps (table'.entry sig))
    (hlist : table'.shootdownList = table.shootdownList)
    (hsignal : table'.shootdownSignal = table.shootdownSignal)
    (hmasks : table'.masks = table.masks) : table'.Open where
  tracked mask hmask sig hset hpos hlt hvalid := by
    rw [(hkeeps sig).blocked]
    exact h.tracked mask (hmasks ▸ hmask) sig hset hpos hlt ((hkeeps sig).valid_iff.mp hvalid)
  listed sig hsig := by
    rw [(hkeeps sig).valid_iff]
    exact h.listed sig (hlist ▸ hsig)
  available hnone := by
    obtain ⟨sig, hmem, hopen⟩ := h.available (hsignal ▸ hnone)
    exact ⟨sig, hlist ▸ hmem, (hkeeps sig).blocked.trans hopen⟩
  chosen sig hsig := by
    obtain ⟨hpos, hlt, hvalid, hkeep, hopen⟩ := h.chosen sig (hsignal ▸ hsig)
    exact ⟨hpos, hlt, (hkeeps sig).valid_iff.mpr hvalid, (hkeeps sig).keepOpen hkeep,
      (hkeeps sig).blocked.trans hopen⟩

theorem SignalTable.Open.modify (h : table.Open) (sig : ℕ)
    (change : SignalEntry H C → SignalEntry H C)
    (hkeeps : (table.entry sig).Keeps (change (table.entry sig))) :
    (table.modify sig change).Open := by
  refine h.of_keeps (fun other => ?_) rfl rfl rfl
  show (table.entry other).Keeps (Function.update table.entry sig _ other)
  by_cases hother : other = sig
  · rw [hother, Function.update_self]
    exact hkeeps
  · rw [Function.update_of_ne hother]
    exact ⟨rfl, rfl, rfl, id⟩

/-- An open signal is taken for the shootdown and kept open. -/
theorem SignalTable.Open.choose (h : table.Open) (hpos : 1 ≤ sig) (hlt : sig < monitorNsig)
    (hvalid : (table.entry sig).Valid) (hopen : (table.entry sig).blocked = false) :
    ({ table.modify sig fun mse => { mse with keepOpen := true } with
        shootdownSignal := some sig } : SignalTable H C).Open := by
  have hkept := h.modify sig (fun mse => { mse with keepOpen := true })
    ⟨rfl, rfl, rfl, fun _ => rfl⟩
  refine ⟨hkept.tracked, hkept.listed, nofun, fun chosen hchosen => ?_⟩
  cases hchosen
  refine ⟨hpos, hlt, ?_⟩
  show (Function.update table.entry sig _ sig).Valid ∧
    (Function.update table.entry sig _ sig).keepOpen = true ∧
      (Function.update table.entry sig _ sig).blocked = false
  rw [Function.update_self]
  exact ⟨⟨hvalid.1, hvalid.2⟩, rfl, hopen⟩

/-- The reserved signal is open, or there is one that the set does not block. -/
theorem SignalTable.Open.reserve (h : table.Open) (set : SigSet) :
    (table.reserve set).Open ∧ (table.reserve set).masks = table.masks ∧
      ((table.reserve set).shootdownSignal = none → ∃ sig ∈ (table.reserve set).shootdownList,
        ((table.reserve set).entry sig).blocked = false ∧ set sig = false) := by
  unfold SignalTable.reserve
  cases hsignal : table.shootdownSignal with
  | some chosen =>
      refine ⟨h, rfl, fun hnone => ?_⟩
      rw [hsignal] at hnone
      cases hnone
  | none =>
      obtain ⟨hnew, hold, hnone⟩ := findAvail_spec table.entry set table.shootdownList none
      generalize findAvail table.entry set table.shootdownList none = found at hnew hold hnone
      rcases found with ⟨_ | old, _ | new⟩
      · -- there is always an unblocked signal
        obtain ⟨sig, hmem, hopen⟩ := h.available hsignal
        rw [(hnone rfl).2 sig hmem] at hopen
        cases hopen
      · obtain ⟨hmem, hopen, hset⟩ := hnew new rfl
        exact ⟨h, rfl, fun _ => ⟨new, hmem, hopen, hset⟩⟩
      · obtain ⟨hmem, hopen⟩ := (hold old rfl).resolve_left nofun
        obtain ⟨hpos, hlt, hvalid⟩ := h.listed old hmem
        exact ⟨h.choose hpos hlt hvalid hopen, rfl, nofun⟩
      · obtain ⟨hmem, hopen, hset⟩ := hnew new rfl
        exact ⟨h, rfl, fun _ => ⟨new, hmem, hopen, hset⟩⟩

/-- What a mask does to an entry whose signal is, or is not, in it. -/
structure SignalEntry.Masks (before : SignalEntry H C) (member : Bool) (after : SignalEntry H C) :
    Prop where
  valid : after.Valid ↔ before.Valid
  keepOpen : after.keepOpen = before.keepOpen
  stays : before.blocked = true → after.blocked = true
  free : before.blocked = false → before.keepOpen = true ∨ member = false → after.blocked = false

theorem SignalEntry.Masks.refl (mse : SignalEntry H C) (member : Bool) : mse.Masks member mse :=
  ⟨Iff.rfl, rfl, id, fun hfree _ => hfree⟩

theorem removeStep_masks (slot : SignalEntry H C × Bool) :
    slot.1.Masks slot.2 (removeStep slot).1 := by
  unfold removeStep
  split_ifs with hvalid hkeep hmember
  · exact .refl _ _
  · refine ⟨⟨fun hv => ⟨hv.1, hv.2⟩, fun hv => ⟨hv.1, hv.2⟩⟩, rfl, fun _ => rfl, fun _ hwhy => ?_⟩
    rcases hwhy with hopen | hout
    · exact absurd hopen hkeep
    · exact absurd (hout.symm.trans hmember) Bool.false_ne_true
  · exact .refl _ _
  · exact .refl _ _

/-- What is left in the set is recorded as blocked. -/
theorem removeStep_tracked {slot : SignalEntry H C × Bool} (hvalid : slot.1.Valid)
    (h : (removeStep slot).2 = true) : (removeStep slot).1.blocked = true := by
  unfold removeStep at h ⊢
  rw [if_pos ⟨hvalid.1, hvalid.2⟩] at h ⊢
  split_ifs at h ⊢ with hkeep hmember
  · rfl
  · exact absurd h hmember

/-- **A mask that is installed leaves a signal open.** -/
theorem SignalTable.Open.install (h : table.Open) (set : SigSet) : (table.install set).1.Open := by
  obtain ⟨hreserved, hmasks, hopen⟩ := h.reserve set
  -- the loop, at one signal
  have hloop : ∀ sig, ((table.install set).1.entry sig, (table.install set).2 sig) =
      if 1 ≤ sig ∧ sig < monitorNsig then removeStep ((table.reserve set).entry sig, set sig)
      else ((table.reserve set).entry sig, set sig) := table.removeClientSignals_apply set
  have hmask : ∀ sig,
      ((table.reserve set).entry sig).Masks (set sig) ((table.install set).1.entry sig) := by
    intro sig
    have hsig : (table.install set).1.entry sig = _ := congrArg Prod.fst (hloop sig)
    rw [hsig]
    split_ifs
    · exact removeStep_masks ((table.reserve set).entry sig, set sig)
    · exact .refl _ _
  refine ⟨fun mask hmem sig hset hpos hlt hvalid => ?_, fun sig hsig => ?_, fun hnone => ?_,
    fun sig hsig => ?_⟩
  · rcases List.mem_append.mp hmem with hold | hnew
    · exact (hmask sig).stays
        (hreserved.tracked mask hold sig hset hpos hlt ((hmask sig).valid.mp hvalid))
    · rw [List.mem_singleton.mp hnew] at hset
      have hsig := hloop sig
      rw [if_pos ⟨hpos, hlt⟩] at hsig
      have hleft : (removeStep ((table.reserve set).entry sig, set sig)).2 = true :=
        (congrArg Prod.snd hsig).symm.trans hset
      exact (congrArg (fun slot => slot.1.blocked) hsig).trans
        (removeStep_tracked ((hmask sig).valid.mp hvalid) hleft)
  · obtain ⟨hpos, hlt, hvalid⟩ := hreserved.listed sig hsig
    exact ⟨hpos, hlt, (hmask sig).valid.mpr hvalid⟩
  · obtain ⟨sig, hmem, hblocked, hset⟩ := hopen hnone
    exact ⟨sig, hmem, (hmask sig).free hblocked (.inr hset)⟩
  · obtain ⟨hpos, hlt, hvalid, hkeep, hblocked⟩ := hreserved.chosen sig hsig
    exact ⟨hpos, hlt, (hmask sig).valid.mpr hvalid, (hmask sig).keepOpen.trans hkeep,
      (hmask sig).free hblocked (.inl hkeep)⟩

/-- An action that goes to the kernel leaves a signal open. -/
theorem SignalTable.Open.setAction (h : table.Open) (sig : ℕ) (flags : BitVec 32)
    (mask : SigSet) : (table.setAction sig flags mask).Open := by
  have hflagged := h.modify sig
    (fun mse => { mse with kernFlags := monitorAdjustSaflags flags, kernMask := mask })
    ⟨rfl, rfl, rfl, id⟩
  exact (hflagged.install mask).modify sig (fun mse => { mse with kernMask := _ })
    ⟨rfl, rfl, rfl, id⟩

theorem SignalEntry.recordAppl_keeps (mse : SignalEntry H C) (act : SigAction H) :
    mse.Keeps (mse.recordAppl act) := by
  unfold SignalEntry.recordAppl
  split <;> exact ⟨rfl, rfl, rfl, id⟩

/-- **A call leaves a signal open.** -/
theorem SignalTable.Open.call (h : table.Open) (call : SignalCall H C) :
    (table.call call).Open := by
  cases call with
  | appl sig act =>
      show (table.applSigaction sig act).1.Open
      unfold SignalTable.applSigaction
      dsimp only
      split
      · exact h
      split
      · exact h
      · cases act with
        | none => exact h
        | some act =>
            exact (h.modify sig.toNat (fun mse => mse.recordAppl act)
              (SignalEntry.recordAppl_keeps _ act)).setAction _ _ _
  | client sig handler act =>
      show (table.clientSigaction sig handler act).1.Open
      unfold SignalTable.clientSigaction
      split_ifs
      · have hcaught := h.modify sig.toNat
          (fun mse => { mse with keepOpen := true, clientHandler := some handler })
          ⟨rfl, rfl, rfl, fun _ => rfl⟩
        cases act with
        | none => exact hcaught
        | some act => exact hcaught.setAction _ _ _
      · exact h
  | mask set => exact h.install set

variable {sys : SignalSystem H}

/-- The system lets a handler be installed, so libmonitor has one. -/
theorem SignalSystem.entry_installed (hinstalls : sys.installs sig = true) (hpos : 1 ≤ sig)
    (hlt : sig < monitorNsig) (havoid : sig ∉ monitorSignalAvoidList) :
    (sys.entry sig : SignalEntry H C).Valid ∧
      (sys.entry sig : SignalEntry H C).applAct = sys.initial sig := by
  have hin : ¬(decide (sig ∈ monitorSignalAvoidList) = true ∨ sig = 0 ∨ monitorNsig ≤ sig) := by
    rw [decide_eq_true_iff]
    rintro (hmem | hzero | hle)
    · exact havoid hmem
    · omega
    · exact absurd hlt (Nat.not_lt.mpr hle)
  unfold SignalSystem.entry
  rw [if_neg hin, if_pos hinstalls]
  exact ⟨⟨decide_eq_false havoid, rfl⟩, rfl⟩

theorem SignalSystem.entry_blocked (sys : SignalSystem H) (sig : ℕ) :
    (sys.entry sig : SignalEntry H C).blocked = false := by
  unfold SignalSystem.entry
  dsimp only
  split_ifs <;> rfl

theorem SignalEntry.Valid.of_spare {mse : SignalEntry H C} (h : mse.Spare = true) : mse.Valid := by
  simp only [SignalEntry.Spare, Bool.and_eq_true, Bool.not_eq_true'] at h
  exact ⟨h.1.1.1, h.1.1.2⟩

/-- **At the start there is an open signal.** -/
theorem SignalTable.Open.init (hinstalls : sys.installs lastResortSignal = true) :
    (monitorSignalInit C sys).Open := by
  have hlast : (sys.entry lastResortSignal : SignalEntry H C).Valid :=
    (SignalSystem.entry_installed hinstalls (by decide) (by decide) (by decide)).1
  -- the table before the variable is looked at
  have hbase : ∀ list : List ℕ, (∀ sig ∈ list, 1 ≤ sig ∧ sig < monitorNsig ∧
      (sys.entry sig : SignalEntry H C).Valid) → lastResortSignal ∈ list →
        ({ entry := sys.entry, shootdownList := list } : SignalTable H C).Open :=
    fun list hlist hmem =>
      ⟨nofun, hlist, fun _ => ⟨_, hmem, sys.entry_blocked _⟩, nofun⟩
  have htable := hbase
    (((List.range' 6 8).map (sys.sigrtmin + ·)).filter (fun sig =>
        sig < monitorNsig ∧ (sys.entry sig : SignalEntry H C).Spare) ++
      monitorExtraList.filter (fun sig => (sys.entry sig : SignalEntry H C).Spare) ++
        [lastResortSignal])
    (by
      intro sig hsig
      rcases List.mem_append.mp hsig with hsig | hsig
      · rcases List.mem_append.mp hsig with hsig | hsig
        · obtain ⟨hmem, hspare⟩ := List.mem_filter.mp hsig
          obtain ⟨i, hi, rfl⟩ := List.mem_map.mp hmem
          obtain ⟨hlt, hspare⟩ := of_decide_eq_true hspare
          have hpos := (List.mem_range'_1.mp hi).1
          exact ⟨by omega, hlt, .of_spare hspare⟩
        · obtain ⟨hmem, hspare⟩ := List.mem_filter.mp hsig
          have hrange : ∀ sig ∈ monitorExtraList, 1 ≤ sig ∧ sig < monitorNsig := by decide
          exact ⟨(hrange sig hmem).1, (hrange sig hmem).2, .of_spare hspare⟩
      · rw [List.mem_singleton.mp hsig]
        exact ⟨by decide, by decide, hlast⟩)
    (List.mem_append_right _ List.mem_cons_self)
  unfold monitorSignalInit
  dsimp only
  cases sys.shootdownVar with
  | none => exact htable
  | some var =>
      dsimp only
      split_ifs with hvar
      · obtain ⟨hpos, hlt, havoid, hinvalid, -⟩ := hvar
        exact htable.choose (by omega) hlt ⟨havoid, hinvalid⟩ (sys.entry_blocked _)
      · exact htable

/-- The order of preference for the shootdown signal: a signal that nobody handles, one that
the client does not handle, and any that is not blocked. -/
def SignalTable.preferred (table : SignalTable H C) : Option ℕ :=
  let unblocked (sig : ℕ) : Bool := !(table.entry sig).blocked
  let clientless (sig : ℕ) : Bool := unblocked sig && (table.entry sig).clientHandler.isNone
  let unused (sig : ℕ) : Bool := clientless sig && !(table.entry sig).applHand
  ((table.shootdownList.find? unused).or (table.shootdownList.find? clientless)).or
    (table.shootdownList.find? unblocked)

/-- **The search in one pass finds the first in the order of preference.** -/
theorem findShootdown_eq (entry : ℕ → SignalEntry H C) (list : List ℕ) (ans2 ans3 : Option ℕ) :
    let found := findShootdown entry list ans2 ans3
    (found.1.or found.2.1).or found.2.2 =
      ((list.find? fun sig => !(entry sig).blocked && (entry sig).clientHandler.isNone &&
          !(entry sig).applHand).or
        (ans2.or (list.find? fun sig =>
            !(entry sig).blocked && (entry sig).clientHandler.isNone))).or
          (ans3.or (list.find? fun sig => !(entry sig).blocked)) := by
  induction list generalizing ans2 ans3 with
  | nil => simp [findShootdown]
  | cons sig rest ih =>
      unfold findShootdown
      by_cases hblocked : (entry sig).blocked = true
      · simpa [hblocked] using ih ans2 ans3
      · have hopen : (entry sig).blocked = false := Bool.eq_false_of_not_eq_true hblocked
        by_cases hclient : (entry sig).clientHandler.isSome = true
        · have hnone : (entry sig).clientHandler.isNone = false := by
            rw [Option.isNone_eq_false_iff]
            exact hclient
          simpa [hopen, hclient, hnone, Option.or_assoc] using ih ans2 (ans3.or (some sig))
        · have hnone : (entry sig).clientHandler.isNone = true := by
            rw [Option.isNone_iff_eq_none]
            exact Option.not_isSome_iff_eq_none.mp hclient
          by_cases happl : (entry sig).applHand = true
          · simpa [hopen, hclient, hnone, happl, Option.or_assoc] using
              ih (ans2.or (some sig)) (ans3.or (some sig))
          · have hunused : (entry sig).applHand = false := Bool.eq_false_of_not_eq_true happl
            simp [hopen, hclient, hnone, hunused]

/-- The preferred signal is one of the list that is not blocked, if there is one. -/
theorem SignalTable.preferred_spec (h : ∃ sig ∈ table.shootdownList,
    (table.entry sig).blocked = false) :
    ∃ sig ∈ table.shootdownList,
      table.preferred = some sig ∧ (table.entry sig).blocked = false := by
  unfold SignalTable.preferred
  dsimp only
  cases hfirst : table.shootdownList.find? fun sig =>
      !(table.entry sig).blocked && (table.entry sig).clientHandler.isNone &&
        !(table.entry sig).applHand with
  | some sig =>
      have hunused := List.find?_some hfirst
      simp only [Bool.and_eq_true, Bool.not_eq_true'] at hunused
      exact ⟨sig, List.mem_of_find?_eq_some hfirst, rfl, hunused.1.1⟩
  | none =>
      cases hsecond : table.shootdownList.find? fun sig =>
          !(table.entry sig).blocked && (table.entry sig).clientHandler.isNone with
      | some sig =>
          have hclientless := List.find?_some hsecond
          simp only [Bool.and_eq_true, Bool.not_eq_true'] at hclientless
          exact ⟨sig, List.mem_of_find?_eq_some hsecond, rfl, hclientless.1⟩
      | none =>
          cases hthird : table.shootdownList.find? fun sig => !(table.entry sig).blocked with
          | some sig =>
              have hopen := List.find?_some hthird
              simp only [Bool.not_eq_true'] at hopen
              exact ⟨sig, List.mem_of_find?_eq_some hthird, rfl, hopen⟩
          | none =>
              obtain ⟨sig, hmem, hopen⟩ := h
              exact absurd (by rw [hopen]; rfl) (List.find?_eq_none.mp hthird sig hmem)

/-- The signal for the shootdown: the one that was chosen, or the preferred one. -/
theorem SignalTable.Open.shootdownSignal (h : table.Open) :
    let sig := table.monitorShootdownSignal.2
    1 ≤ sig ∧ sig < monitorNsig ∧ (table.entry sig).Valid ∧ (table.entry sig).blocked = false ∧
      (table.shootdownSignal = none → table.preferred = some sig) := by
  unfold SignalTable.monitorShootdownSignal
  cases hsignal : table.shootdownSignal with
  | some sig =>
      obtain ⟨hpos, hlt, hvalid, -, hopen⟩ := h.chosen sig hsignal
      exact ⟨hpos, hlt, hvalid, hopen, nofun⟩
  | none =>
      obtain ⟨sig, hmem, hpreferred, hopen⟩ := table.preferred_spec (h.available hsignal)
      have hfound := findShootdown_eq table.entry table.shootdownList none none
      simp only [Option.none_or] at hfound
      have hanswer : (((findShootdown table.entry table.shootdownList none none).1.or
          (findShootdown table.entry table.shootdownList none none).2.1).or
            (findShootdown table.entry table.shootdownList none none).2.2).getD
              lastResortSignal = sig :=
        congrArg (Option.getD · lastResortSignal) (hfound.trans hpreferred)
      obtain ⟨hpos, hlt, hvalid⟩ := h.listed sig hmem
      dsimp only
      rw [hanswer]
      exact ⟨hpos, hlt, hvalid, hopen, fun _ => hpreferred⟩

/-- **There is always a signal for the shootdown.**  Whatever masks the application and the
client ask for, the signal that is taken for the shootdown is one that libmonitor handles,
and it is in no mask that was installed; unless it was fixed before, it is the first in the
order of preference.  The masks that are installed after the choice are another matter. -/
theorem shootdown_signal_open (sys : SignalSystem H)
    (hinstalls : sys.installs lastResortSignal = true) (calls : List (SignalCall H C)) :
    let table := calls.foldl SignalTable.call (monitorSignalInit C sys)
    let sig := table.monitorShootdownSignal.2
    table.Handled sig ∧ (∀ mask ∈ table.masks, mask sig = false) ∧
      (table.shootdownSignal = none → table.preferred = some sig) := by
  intro table sig
  have hopen : table.Open := by
    show (calls.foldl SignalTable.call (monitorSignalInit C sys)).Open
    have hrun : ∀ start : SignalTable H C, start.Open →
        (calls.foldl SignalTable.call start).Open := by
      induction calls with
      | nil => exact fun _ h => h
      | cons call rest ih => exact fun _ h => ih _ (h.call call)
    exact hrun _ (.init hinstalls)
  obtain ⟨hpos, hlt, hvalid, hblocked, hpreferred⟩ := hopen.shootdownSignal
  refine ⟨⟨by omega, by omega, hvalid.notInvalid, hvalid.notAvoided⟩, fun mask hmask => ?_,
    hpreferred⟩
  refine Bool.eq_false_of_not_eq_true fun hset => ?_
  have htracked := hopen.tracked mask hmask _ hset hpos hlt hvalid
  exact Bool.false_ne_true (hblocked.symm.trans htracked)

/-- A system that lets a handler be installed for every signal. -/
def plainSystem (H : Type*) : SignalSystem H where
  installs := fun _ => true
  initial := fun _ => {}
  sigrtmin := 34
  openList := []
  shootdownVar := none

/-- The client takes the profiling signal, and the application blocks all signals. -/
def blockingCalls : List (SignalCall String String) :=
  [.client 27 "sample" none, .mask fun _ => true]

/-- The application blocks all signals, and one is reserved. -/
theorem shootdown_signal_open_of_blocking :
    let table := blockingCalls.foldl SignalTable.call
      (monitorSignalInit String (plainSystem String))
    table.shootdownSignal = some 40 ∧ table.masks.map (· 41) = [true] ∧
      ∀ mask ∈ table.masks, mask 40 = false := by
  have hchosen : (blockingCalls.foldl SignalTable.call
      (monitorSignalInit String (plainSystem String))).shootdownSignal = some 40 := by decide
  have hopen := shootdown_signal_open (C := String) (plainSystem String) rfl blockingCalls
  refine ⟨hchosen, by decide, fun mask hmask => ?_⟩
  have hout := hopen.2.1 mask hmask
  unfold SignalTable.monitorShootdownSignal at hout
  rw [hchosen] at hout
  exact hout

end Shootdown

end Papiex
