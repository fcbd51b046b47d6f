import Papiex.Lib.Interposed
import Papiex.Monitor.Signals

/-!
# The signals that the application sees

Every signal comes to libmonitor's handler, which offers it to the client and then does what
the application's action says.  A program that runs on the kernel alone has its handlers
called by the kernel.  This module compares the two.

* `SignalSystem.step`: a process of one thread on the kernel alone, with its actions and its
  mask.
* `MonitoredSignals.step`: the same process under libmonitor, which keeps some events for the
  client and passes the others on to the kernel.
* `SignalSystem.Shows`: the table of libmonitor shows the actions that the kernel would hold.
* `SignalSystem.Shows.sigaction`, `SignalSystem.Shows.dispatch`: this is so after a call, and
  a signal then has the effect that it has on the kernel alone, or is the client's.

Two things are not the same.  A mask reaches the kernel without the signals that libmonitor
keeps open, so what is passed on for a mask call is the smaller set.  And libmonitor does not
know `SA_RESETHAND`, lets the process go on after a `SIGSEGV` that was only sent, and comes
back to an instruction whose fault is ignored; `SignalEvent.Lasting` leaves these out.

A handler runs to its end before the next event.  A signal that the mask holds back is an
event again when the kernel lets it through; which of them the kernel drops is left out.
-/

namespace Papiex

/-- What comes of a signal. -/
inductive SignalEffect (H : Type*) where
  | held
  | ignored
  | stopped
  | ended
  | ran (handler : H) (siginfo : Bool)
  deriving DecidableEq

/-- What a call or a signal shows to the application: of an old action the handler and how it
is called, of an old mask its signals. -/
inductive SignalAnswer (H : Type*) where
  | refused
  | old (handler : SigHandler H) (siginfo : Bool)
  | previous (handler : SigHandler H)
  | masked (old : List ℕ)
  | effect (effect : SignalEffect H)
  deriving DecidableEq

/-- The first argument of `sigprocmask`. -/
inductive MaskHow where
  | block
  | unblock
  | setmask
  deriving DecidableEq

/-- The calls that have to do with signals, and the signals.  A signal is the fault of an
instruction or was sent, and `code` is what the client's handler returns if it is called. -/
inductive SignalEvent (H C : Type*) where
  | sigaction (sig : ℤ) (act : Option (SigAction H))
  | signal (sig : ℤ) (handler : SigHandler H)
  | sigprocmask (how : MaskHow) (set : Option SigSet)
  | monitorSigaction (sig : ℤ) (handler : C) (act : Option (SigAction H))
  | deliver (sig : ℕ) (fault : Bool) (code : ℤ)

/-- The process does not go on. -/
def SignalAnswer.isEnd {H : Type*} : SignalAnswer H → Bool
  | .effect .ended => true
  | _ => false

/-- Only an effect ends the process. -/
theorem SignalAnswer.isEnd_iff {H : Type*} {answer : SignalAnswer H} :
    answer.isEnd = true ↔ answer = .effect .ended := by
  unfold SignalAnswer.isEnd
  split
  · exact ⟨fun _ => rfl, fun _ => rfl⟩
  · rename_i hne
    exact ⟨nofun, fun heq => absurd heq hne⟩

/-- `SA_SIGINFO` of an action. -/
def SigAction.siginfo {H : Type*} (act : SigAction H) : Bool := act.flags &&& saSiginfo ≠ 0

/-- `SA_RESETHAND` of an action. -/
def SigAction.resethand {H : Type*} (act : SigAction H) : Bool := act.flags &&& saResethand ≠ 0

/-- What `sigaction` shows. -/
def SignalAnswer.ofSigaction {H : Type*} : Option (SigAction H) → SignalAnswer H
  | none => .refused
  | some act => .old act.handler act.siginfo

/-- What `signal` shows. -/
def SignalAnswer.ofSignal {H : Type*} : Option (SigAction H) → SignalAnswer H
  | none => .refused
  | some act => .previous act.handler

/-- The default action of a signal on Linux. -/
def defaultEffect (H : Type*) (sig : ℕ) : SignalEffect H :=
  if sig = 17 ∨ sig = 18 ∨ sig = 23 ∨ sig = 28 then .ignored
  else if sig = 19 ∨ sig = 20 ∨ sig = 21 ∨ sig = 22 then .stopped
  else .ended

/-- The signals of faults: `SIGILL`, `SIGTRAP`, `SIGBUS`, `SIGFPE` and `SIGSEGV`. -/
def faultSignals : List ℕ := [4, 5, 7, 8, 11]

/-! ## Masks -/

/-- The mask after `sigprocmask`. -/
def MaskHow.apply (how : MaskHow) (mask : SigSet) : Option SigSet → SigSet
  | none => mask
  | some set =>
      match how with
      | .block => fun sig => mask sig || set sig
      | .unblock => fun sig => mask sig && !set sig
      | .setmask => set

/-- A mask holds a signal back.  `SIGKILL` and `SIGSTOP` cannot be blocked. -/
def SigSet.blocks (mask : SigSet) (sig : ℕ) : Bool :=
  mask sig && !decide (sig ∈ monitorSignalAvoidList)

/-- The signals that a mask holds back. -/
def SigSet.signals (mask : SigSet) : List ℕ := (List.range' 1 (monitorNsig - 1)).filter mask.blocks

section Kernel

variable {H C : Type*}

/-! ## Without libmonitor -/

/-- What the kernel holds for a process: its actions and its mask. -/
structure KernelSignals (H : Type*) where
  actions : ℕ → SigAction H
  mask : SigSet

/-- `sigaction` of the C library: the actions, and the old one or an error. -/
def SignalSystem.sigaction (sys : SignalSystem H) (actions : ℕ → SigAction H) (sig : ℤ)
    (act : Option (SigAction H)) : (ℕ → SigAction H) × Option (SigAction H) :=
  if sig ≤ 0 ∨ monitorNsig ≤ sig then (actions, none)
  else if sig.toNat ∈ monitorSignalAvoidList then
    (actions, if act.isSome then none else some (actions sig.toNat))
  else if sys.installs sig.toNat = false then (actions, none)
  else
    match act with
    | none => (actions, some (actions sig.toNat))
    | some act => (Function.update actions sig.toNat act, some (actions sig.toNat))

/-- A signal that the mask lets through, for the process alone.  A fault is not ignored. -/
def kernelDeliver (actions : ℕ → SigAction H) (sig : ℕ) (fault : Bool) :
    (ℕ → SigAction H) × SignalEffect H :=
  match (actions sig).handler with
  | .dfl => (actions, defaultEffect H sig)
  | .ign => (actions, if fault then defaultEffect H sig else .ignored)
  | .fn handler =>
      (if (actions sig).resethand then
          Function.update actions sig { actions sig with handler := .dfl }
        else actions,
        .ran handler (actions sig).siginfo)

/-- A signal for the process alone.  A fault does not wait for the mask. -/
def KernelSignals.deliver (state : KernelSignals H) (sig : ℕ) (fault : Bool) :
    KernelSignals H × SignalEffect H :=
  if state.mask.blocks sig then (state, if fault then defaultEffect H sig else .held)
  else
    let delivered := kernelDeliver state.actions sig fault
    ({ state with actions := delivered.1 }, delivered.2)

/-- The actions that a process starts with. -/
def SignalSystem.start (sys : SignalSystem H) (sig : ℕ) : SigAction H :=
  if sig ∈ monitorSignalAvoidList then {} else sys.initial sig

/-- A step of the process alone.  `signal` of the C library asks for `SA_RESTART` and blocks
the signal in its handler.  The client has no part in it. -/
def SignalSystem.step (sys : SignalSystem H) (state : KernelSignals H) :
    SignalEvent H C → KernelSignals H × SignalAnswer H
  | .sigaction sig act =>
      let result := sys.sigaction state.actions sig act
      ({ state with actions := result.1 }, .ofSigaction result.2)
  | .signal sig handler =>
      let result := sys.sigaction state.actions sig
        (some { handler := handler, flags := saRestart, mask := fun other => sig = other })
      ({ state with actions := result.1 }, .ofSignal result.2)
  | .sigprocmask how set =>
      ({ state with mask := how.apply state.mask set }, .masked state.mask.signals)
  | .monitorSigaction _ _ _ => (state, .refused)
  | .deliver sig fault _ =>
      let delivered := state.deliver sig fault
      (delivered.1, .effect delivered.2)

/-! ## With libmonitor -/

/-- The table, the mask that the kernel has, and the signals whose handler libmonitor has
taken back. -/
structure MonitoredSignals (H C : Type*) where
  table : SignalTable H C
  mask : SigSet
  reset : ℕ → Bool := fun _ => false

/-- `monitor_signal_handler`: the signals whose handler is taken back, and the effect, if the
signal is not the client's.  The empty mask that it sets before it takes a handler back is
gone when it returns. -/
def MonitoredSignals.handler (process : MonitoredSignals H C) (sig : ℕ) (fault : Bool)
    (code : ℤ) : MonitoredSignals H C × Option (SignalEffect H) :=
  let mse := process.table.entry sig
  if mse.clientHandler.isSome ∧ code = 0 then (process, none)
  else
    match mse.applAct.handler with
    | .ign => (process, some .ignored)
    | .dfl =>
        if mse.noterm then (process, some .ignored)
        else if mse.stop then (process, some (defaultEffect H 19))
        else
          let reset := { process with reset := Function.update process.reset sig true }
          -- without `raise` the default action comes with the same fault again, or not at all
          if mse.noraise then (reset, some (if fault then defaultEffect H sig else .ignored))
          else (reset, some (defaultEffect H sig))
    | .fn handler => (process, some (.ran handler mse.applAct.siginfo))

/-- A signal that the mask lets through comes to the handler of libmonitor, if there is one. -/
def MonitoredSignals.dispatch (process : MonitoredSignals H C) (sig : ℕ) (fault : Bool)
    (code : ℤ) : MonitoredSignals H C × Option (SignalEffect H) :=
  if process.table.Handled sig ∧ process.reset sig = false then process.handler sig fault code
  else (process, some (defaultEffect H sig))

/-- A signal for the process under libmonitor. -/
def MonitoredSignals.deliver (process : MonitoredSignals H C) (sig : ℕ) (fault : Bool)
    (code : ℤ) : MonitoredSignals H C × Option (SignalEffect H) :=
  if process.mask.blocks sig then
    (process, some (if fault then defaultEffect H sig else .held))
  else process.dispatch sig fault code

/-- The real `sigaction` puts libmonitor's handler back. -/
def MonitoredSignals.restore (process : MonitoredSignals H C) (table : SignalTable H C)
    (sig : ℤ) (act : Option (SigAction H)) : MonitoredSignals H C :=
  { process with
    table := table
    reset :=
      if act.isSome ∧ process.table.Handled sig then Function.update process.reset sig.toNat false
      else process.reset }

/-- `sigprocmask` and `pthread_sigmask`: the table, and the set that is given to the kernel.
Only a set that blocks is taken apart. -/
def SignalTable.letThrough (table : SignalTable H C) (how : MaskHow) :
    Option SigSet → SignalTable H C × Option SigSet
  | none => (table, none)
  | some set =>
      if how = .unblock then (table, some set)
      else ((table.install set).1, some (table.install set).2)

/-- A step of the process under libmonitor: what is passed on, and the answer, if the event
is not kept. -/
def MonitoredSignals.step (process : MonitoredSignals H C) (event : SignalEvent H C) :
    MonitoredSignals H C × Option (SignalEvent H C × SignalAnswer H) :=
  match event with
  | .sigaction sig act =>
      let result := process.table.applSigaction sig act
      (process.restore result.1 sig act, some (event, .ofSigaction result.2))
  | .signal sig handler =>
      let act : Option (SigAction H) := some { handler := handler }
      let result := process.table.applSigaction sig act
      (process.restore result.1 sig act, some (event, .ofSignal result.2))
  | .sigprocmask how set =>
      let through := process.table.letThrough how set
      ({ process with table := through.1, mask := how.apply process.mask through.2 },
        some (.sigprocmask how through.2, .masked process.mask.signals))
  | .monitorSigaction sig handler act =>
      (process.restore (process.table.clientSigaction sig handler act).1 sig act, none)
  | .deliver sig fault code =>
      let delivered := process.deliver sig fault code
      (delivered.1, delivered.2.map fun effect => (event, .effect effect))

end Kernel

section Shows

variable {H C : Type*} {sys : SignalSystem H} {table : SignalTable H C}
variable {process : MonitoredSignals H C} {actions : ℕ → SigAction H} {state : KernelSignals H}
variable {sig : ℕ}

/-! ## What the calls leave alone -/

/-- The part of an entry that the handler goes by. -/
structure SignalSettings (H C : Type*) where
  applAct : SigAction H
  clientHandler : Option C
  avoid : Bool
  invalid : Bool
  noterm : Bool
  noraise : Bool
  stop : Bool

def SignalEntry.settings (mse : SignalEntry H C) : SignalSettings H C where
  applAct := mse.applAct
  clientHandler := mse.clientHandler
  avoid := mse.avoid
  invalid := mse.invalid
  noterm := mse.noterm
  noraise := mse.noraise
  stop := mse.stop

/-- The settings of all signals. -/
def SignalTable.settings (table : SignalTable H C) (sig : ℕ) : SignalSettings H C :=
  (table.entry sig).settings

/-- A change of an entry changes the settings of one signal. -/
theorem SignalTable.modify_settings (table : SignalTable H C) (sig : ℕ)
    (change : SignalEntry H C → SignalEntry H C) :
    (table.modify sig change).settings =
      Function.update table.settings sig (change (table.entry sig)).settings := by
  funext other
  show (Function.update table.entry sig _ other).settings = _
  by_cases hother : other = sig
  · rw [hother, Function.update_self, Function.update_self]
  · rw [Function.update_of_ne hother, Function.update_of_ne hother]
    rfl

/-- A change of what the handler does not go by. -/
theorem SignalTable.modify_settings_of_eq (table : SignalTable H C) {sig : ℕ}
    (change : SignalEntry H C → SignalEntry H C)
    (h : (change (table.entry sig)).settings = (table.entry sig).settings) :
    (table.modify sig change).settings = table.settings := by
  rw [SignalTable.modify_settings, h]
  exact Function.update_eq_self sig table.settings

/-- A mask changes no setting: `monitor_remove_client_signals` writes `mse_blocked` and
`mse_keep_open` alone. -/
theorem SignalTable.install_settings (table : SignalTable H C) (set : SigSet) :
    (table.install set).1.settings = table.settings := by
  have hreserve : (table.reserve set).settings = table.settings := by
    unfold SignalTable.reserve
    split
    · rfl
    · split
      · exact SignalTable.modify_settings_of_eq _ (fun mse => { mse with keepOpen := true }) rfl
      · rfl
  have hremove : ∀ slot : SignalEntry H C × Bool,
      (removeStep slot).1.settings = slot.1.settings := by
    intro slot
    unfold removeStep
    split_ifs <;> rfl
  rw [← hreserve]
  funext sig
  have hloop := congrArg Prod.fst (table.removeClientSignals_apply set sig)
  show ((table.removeClientSignals set).1.entry sig).settings = _
  rw [show (table.removeClientSignals set).1.entry sig = _ from hloop]
  split
  · exact hremove _
  · rfl

/-- The action that goes to the kernel changes no setting either. -/
theorem SignalTable.setAction_settings (table : SignalTable H C) (sig : ℕ) (flags : BitVec 32)
    (mask : SigSet) : (table.setAction sig flags mask).settings = table.settings := by
  unfold SignalTable.setAction
  dsimp only
  rw [SignalTable.modify_settings_of_eq _ _ rfl, SignalTable.install_settings,
    SignalTable.modify_settings_of_eq _ _ rfl]

/-- The client's call sets the client's handler. -/
theorem SignalTable.clientSigaction_settings (table : SignalTable H C) (sig : ℤ) (handler : C)
    (act : Option (SigAction H)) :
    (table.clientSigaction sig handler act).1.settings =
      if table.Handled sig then
        Function.update table.settings sig.toNat
          { table.settings sig.toNat with clientHandler := some handler }
      else table.settings := by
  unfold SignalTable.clientSigaction
  split
  · have hcaught : (table.modify sig.toNat fun mse =>
        { mse with keepOpen := true, clientHandler := some handler }).settings =
          Function.update table.settings sig.toNat
            { table.settings sig.toNat with clientHandler := some handler } :=
      SignalTable.modify_settings _ _ _
    cases act with
    | none => exact hcaught
    | some act => exact (SignalTable.setAction_settings _ _ _ _).trans hcaught
  · rfl

/-- The application's call sets the application's action. -/
theorem SignalEntry.recordAppl_settings (mse : SignalEntry H C) (act : SigAction H) :
    (mse.recordAppl act).settings = { mse.settings with applAct := act } := by
  unfold SignalEntry.recordAppl
  split <;> rfl

/-- libmonitor's handler is installed for the signal. -/
def SignalSystem.Caught (sys : SignalSystem H) (sig : ℕ) : Prop :=
  1 ≤ sig ∧ sig < monitorNsig ∧ sig ∉ monitorSignalAvoidList ∧ sys.installs sig = true

/-- An action that is not used up by its first signal, and does not ignore a fault. -/
structure SigAction.Lasting (act : SigAction H) (sig : ℕ) : Prop where
  once : act.resethand = false
  fault : sig ∈ faultSignals → act.handler ≠ .ign

/-- The default action lasts. -/
theorem SigAction.lasting_default (sig : ℕ) : ({} : SigAction H).Lasting sig where
  once := decide_eq_false fun h => h BitVec.zero_and
  fault _ := nofun

/-- What an action does when its signal comes, as long as it stays installed. -/
structure SigAction.Looks (sig : ℕ) (act plain : SigAction H) : Prop where
  handler : act.handler = plain.handler
  siginfo : act.siginfo = plain.siginfo
  lasting : plain.Lasting sig

theorem SigAction.Looks.refl {act : SigAction H} (h : act.Lasting sig) : act.Looks sig act :=
  ⟨rfl, rfl, h⟩

/-- Two old actions that look the same give one answer. -/
theorem SigAction.Looks.ofSigaction_eq {act plain : Option (SigAction H)}
    (h : Option.Rel (SigAction.Looks sig) act plain) :
    SignalAnswer.ofSigaction act = .ofSigaction plain := by
  cases h with
  | none => rfl
  | some hlooks => exact congrArg₂ SignalAnswer.old hlooks.handler hlooks.siginfo

/-- Two previous actions that look the same give one answer. -/
theorem SigAction.Looks.ofSignal_eq {act plain : Option (SigAction H)}
    (h : Option.Rel (SigAction.Looks sig) act plain) :
    SignalAnswer.ofSignal act = .ofSignal plain := by
  cases h with
  | none => rfl
  | some hlooks => exact congrArg SignalAnswer.previous hlooks.handler

/-- The action of `signal`, here and in the C library. -/
theorem SigAction.Looks.signal {handler : SigHandler H} (mask : SigSet)
    (h : sig ∈ faultSignals → handler ≠ .ign) :
    SigAction.Looks sig { handler := handler }
      { handler := handler, flags := saRestart, mask := mask } where
  handler := rfl
  siginfo := by
    show decide ((0 : BitVec 32) &&& saSiginfo ≠ 0) = decide (saRestart &&& saSiginfo ≠ 0)
    decide
  lasting :=
    { once := by
        show decide (saRestart &&& saResethand ≠ 0) = false
        decide
      fault := h }

/-- The table shows the actions. -/
structure SignalSystem.Shows (sys : SignalSystem H) (process : MonitoredSignals H C)
    (actions : ℕ → SigAction H) : Prop where
  flags : ∀ sig,
    ({ process.table.settings sig with applAct := {}, clientHandler := none } :
        SignalSettings H C) =
      { (sys.entry sig : SignalEntry H C).settings with applAct := {}, clientHandler := none }
  reset : ∀ sig, process.reset sig = false
  looks : ∀ sig, sys.Caught sig → (process.table.settings sig).applAct.Looks sig (actions sig)
  avoided : ∀ sig ∈ monitorSignalAvoidList, actions sig = {}

/-- The flags of an entry at the start. -/
theorem SignalSystem.entry_flags (sys : SignalSystem H) (sig : ℕ) :
    let mse : SignalEntry H C := sys.entry sig
    mse.avoid = decide (sig ∈ monitorSignalAvoidList) ∧
      mse.noterm = decide (sig ∈ monitorSignalNotermList) ∧
      mse.noraise = decide (sig ∈ monitorSignalNoraiseList) ∧
      mse.stop = decide (sig ∈ monitorSignalStopList) ∧
      (1 ≤ sig → sig < monitorNsig →
        mse.invalid = (!decide (sig ∈ monitorSignalAvoidList) && !sys.installs sig)) := by
  unfold SignalSystem.entry
  dsimp only
  split_ifs with hout hinstalls
  · refine ⟨rfl, rfl, rfl, rfl, fun hpos hlt => ?_⟩
    rcases hout with havoided | hzero | hle
    · rw [havoided]
      rfl
    · omega
    · exact absurd hlt (Nat.not_lt.mpr hle)
  · refine ⟨rfl, rfl, rfl, rfl, fun _ _ => ?_⟩
    rw [hinstalls, Bool.not_true, Bool.and_false]
  · refine ⟨rfl, rfl, rfl, rfl, fun _ _ => ?_⟩
    rw [Bool.eq_false_of_not_eq_true hinstalls,
      decide_eq_false fun hmem => hout (.inl (decide_eq_true hmem))]
    rfl

namespace SignalSystem.Shows

theorem avoid (h : sys.Shows process actions) (sig : ℕ) :
    (process.table.entry sig).avoid = decide (sig ∈ monitorSignalAvoidList) :=
  (congrArg SignalSettings.avoid (h.flags sig)).trans (sys.entry_flags sig).1

theorem noterm (h : sys.Shows process actions) (sig : ℕ) :
    (process.table.entry sig).noterm = decide (sig ∈ monitorSignalNotermList) :=
  (congrArg SignalSettings.noterm (h.flags sig)).trans (sys.entry_flags sig).2.1

theorem noraise (h : sys.Shows process actions) (sig : ℕ) :
    (process.table.entry sig).noraise = decide (sig ∈ monitorSignalNoraiseList) :=
  (congrArg SignalSettings.noraise (h.flags sig)).trans (sys.entry_flags sig).2.2.1

theorem stop (h : sys.Shows process actions) (sig : ℕ) :
    (process.table.entry sig).stop = decide (sig ∈ monitorSignalStopList) :=
  (congrArg SignalSettings.stop (h.flags sig)).trans (sys.entry_flags sig).2.2.2.1

theorem invalid (h : sys.Shows process actions) (hpos : 1 ≤ sig) (hlt : sig < monitorNsig) :
    (process.table.entry sig).invalid =
      (!decide (sig ∈ monitorSignalAvoidList) && !sys.installs sig) :=
  (congrArg SignalSettings.invalid (h.flags sig)).trans ((sys.entry_flags sig).2.2.2.2 hpos hlt)

theorem handled_iff (h : sys.Shows process actions) (sig : ℕ) :
    process.table.Handled sig ↔ sys.Caught sig := by
  constructor
  · rintro ⟨hpos, hlt, hinvalid, havoid⟩
    have hpos : 1 ≤ sig := by omega
    have hlt : sig < monitorNsig := by omega
    have hmem : sig ∉ monitorSignalAvoidList :=
      of_decide_eq_false ((h.avoid sig).symm.trans havoid)
    have hinstalls := (h.invalid hpos hlt).symm.trans hinvalid
    rw [decide_eq_false hmem] at hinstalls
    exact ⟨hpos, hlt, hmem, by simpa using hinstalls⟩
  · rintro ⟨hpos, hlt, hmem, hinstalls⟩
    refine ⟨by omega, by omega, (h.invalid hpos hlt).trans ?_,
      (h.avoid sig).trans (decide_eq_false hmem)⟩
    rw [hinstalls, Bool.not_true, Bool.and_false]

theorem restore_reset (h : sys.Shows process actions) (table : SignalTable H C) (sig : ℤ)
    (act : Option (SigAction H)) (other : ℕ) :
    (process.restore table sig act).reset other = false := by
  unfold MonitoredSignals.restore
  dsimp only
  split
  · by_cases hother : other = sig.toNat
    · rw [hother, Function.update_self]
    · rw [Function.update_of_ne hother]
      exact h.reset other
  · exact h.reset other

/-- A change of the table that leaves the settings alone, except for the client. -/
theorem of_settings (h : sys.Shows process actions) {table : SignalTable H C} {mask : SigSet}
    {reset : ℕ → Bool}
    (hsettings : ∀ sig, ({ table.settings sig with clientHandler := none } : SignalSettings H C) =
      { process.table.settings sig with clientHandler := none })
    (hreset : ∀ sig, reset sig = false) : sys.Shows ⟨table, mask, reset⟩ actions where
  flags sig := by
    rw [← h.flags sig]
    exact congrArg (fun settings : SignalSettings H C => { settings with applAct := {} })
      (hsettings sig)
  reset := hreset
  looks sig hsig := by
    have hact := congrArg SignalSettings.applAct (hsettings sig)
    show (table.settings sig).applAct.Looks sig (actions sig)
    rw [show (table.settings sig).applAct = _ from hact]
    exact h.looks sig hsig
  avoided := h.avoided

/-- A change of the action of one signal. -/
theorem of_update (h : sys.Shows process actions) {table : SignalTable H C} {mask : SigSet}
    {reset : ℕ → Bool} {act plain : SigAction H} (hmem : sig ∉ monitorSignalAvoidList)
    (hsettings : table.settings = Function.update process.table.settings sig
      { process.table.settings sig with applAct := act })
    (hreset : ∀ sig, reset sig = false) (hlooks : act.Looks sig plain) :
    sys.Shows ⟨table, mask, reset⟩ (Function.update actions sig plain) where
  flags other := by
    rw [show (⟨table, mask, reset⟩ : MonitoredSignals H C).table.settings = _ from hsettings,
      ← h.flags other]
    by_cases hother : other = sig
    · rw [hother, Function.update_self]
    · rw [Function.update_of_ne hother]
  reset := hreset
  looks other hcaught := by
    rw [show (⟨table, mask, reset⟩ : MonitoredSignals H C).table.settings = _ from hsettings]
    by_cases hother : other = sig
    · rw [hother, Function.update_self, Function.update_self]
      exact hlooks
    · rw [Function.update_of_ne hother, Function.update_of_ne hother]
      exact h.looks other hcaught
  avoided other hmem' := by
    have hother : other ≠ sig := fun heq => hmem (heq ▸ hmem')
    rw [Function.update_of_ne hother]
    exact h.avoided other hmem'

/-- **An action of the application is put on record as the kernel would have it.** -/
theorem sigaction (h : sys.Shows process actions) (sig : ℤ) {act plain : Option (SigAction H)}
    (hact : Option.Rel (SigAction.Looks sig.toNat) act plain) :
    sys.Shows (process.restore (process.table.applSigaction sig act).1 sig act)
        (sys.sigaction actions sig plain).1 ∧
      Option.Rel (SigAction.Looks sig.toNat) (process.table.applSigaction sig act).2
        (sys.sigaction actions sig plain).2 := by
  have hsame : sys.Shows (process.restore process.table sig act) actions :=
    h.of_settings (fun _ => rfl) (h.restore_reset process.table sig act)
  unfold SignalTable.applSigaction SignalSystem.sigaction
  by_cases hrange : sig ≤ 0 ∨ (monitorNsig : ℤ) ≤ sig
  · rw [if_pos (hrange.imp_right .inl), if_pos hrange]
    exact ⟨hsame, .none⟩
  obtain ⟨hpos, hlt⟩ := not_or.mp hrange
  have hpos : 1 ≤ sig.toNat := by omega
  have hlt : sig.toNat < monitorNsig := by omega
  have havoid := h.avoid sig.toNat
  have hinvalid := h.invalid hpos hlt
  by_cases hmem : sig.toNat ∈ monitorSignalAvoidList
  · -- the real `sigaction`, which changes nothing
    rw [decide_eq_true hmem] at havoid hinvalid
    rw [if_neg (by rw [hinvalid]; tauto), if_pos havoid, if_neg hrange, if_pos hmem,
      h.avoided _ hmem]
    refine ⟨hsame, ?_⟩
    cases hact with
    | none => exact .some (.refl (SigAction.lasting_default _))
    | some _ => exact .none
  rw [decide_eq_false hmem] at havoid hinvalid
  by_cases hinstalls : sys.installs sig.toNat = true
  · rw [hinstalls] at hinvalid
    have hlooks := h.looks sig.toNat ⟨hpos, hlt, hmem, hinstalls⟩
    rw [if_neg (by rw [hinvalid]; tauto), if_neg (by rw [havoid]; nofun), if_neg hrange,
      if_neg hmem, if_neg (by rw [hinstalls]; nofun)]
    cases hact with
    | none => exact ⟨hsame, .some hlooks⟩
    | @some act plain hact =>
        refine ⟨h.of_update hmem ?_ (h.restore_reset process.table sig (some act)) hact,
          .some hlooks⟩
        rw [SignalTable.setAction_settings, SignalTable.modify_settings]
        exact congrArg _ (SignalEntry.recordAppl_settings _ act)
  · rw [Bool.eq_false_of_not_eq_true hinstalls] at hinvalid
    rw [if_pos (.inr (.inr hinvalid)), if_neg hrange, if_neg hmem,
      if_pos (Bool.eq_false_of_not_eq_true hinstalls)]
    exact ⟨hsame, .none⟩

/-- What libmonitor does by default is what the kernel does. -/
theorem default_effect (h : sys.Shows process actions) (hmem : sig ∉ monitorSignalAvoidList) :
    defaultEffect H sig =
      if (process.table.entry sig).noterm then .ignored
      else if (process.table.entry sig).stop then defaultEffect H 19
      else .ended := by
  have hnoterm : (process.table.entry sig).noterm = true ↔
      sig = 17 ∨ sig = 18 ∨ sig = 23 ∨ sig = 28 := by
    rw [h.noterm, decide_eq_true_iff]
    simp [monitorSignalNotermList]
  have hstop : (process.table.entry sig).stop = true ↔
      sig = 19 ∨ sig = 20 ∨ sig = 21 ∨ sig = 22 := by
    have hkill : sig ≠ 19 := fun heq => hmem (heq ▸ by decide)
    rw [h.stop, decide_eq_true_iff]
    simp [monitorSignalStopList, hkill]
  show (if sig = 17 ∨ sig = 18 ∨ sig = 23 ∨ sig = 28 then SignalEffect.ignored
    else if sig = 19 ∨ sig = 20 ∨ sig = 21 ∨ sig = 22 then .stopped else .ended) = _
  rw [show defaultEffect H 19 = .stopped from rfl]
  simp only [hnoterm, hstop]

/-- **A signal that is not the client's has the effect that it has on the kernel alone.** -/
theorem dispatch (h : sys.Shows process actions) (fault : Bool) (code : ℤ)
    (hsig : sig ∈ monitorSignalAvoidList ∨ sys.Caught sig)
    (hnoraise : sig ∈ monitorSignalNoraiseList → fault = true)
    (hfault : fault = true → sig ∈ faultSignals) :
    let dispatched := process.dispatch sig fault code
    (∀ effect, dispatched.2 = some effect →
        (kernelDeliver actions sig fault).2 = effect ∧
          (effect ≠ .ended → sys.Shows dispatched.1 (kernelDeliver actions sig fault).1)) ∧
      (dispatched.2 = none → sys.Shows dispatched.1 actions) := by
  unfold MonitoredSignals.dispatch
  rcases hsig with hmem | hcaught
  · -- the kernel does not call libmonitor
    have hnot : ¬(process.table.Handled sig ∧ process.reset sig = false) := fun hhandled =>
      ((h.handled_iff sig).mp hhandled.1).2.2.1 hmem
    rw [if_neg hnot]
    have hkernel : kernelDeliver actions sig fault = (actions, defaultEffect H sig) := by
      unfold kernelDeliver
      rw [h.avoided sig hmem]
    rw [hkernel]
    exact ⟨fun effect heffect => ⟨Option.some.inj heffect, fun _ => h⟩, nofun⟩
  · rw [if_pos ⟨(h.handled_iff sig).mpr hcaught, h.reset sig⟩]
    have hlooks := h.looks sig hcaught
    unfold MonitoredSignals.handler
    dsimp only
    by_cases hclient : (process.table.entry sig).clientHandler.isSome = true ∧ code = 0
    · rw [if_pos hclient]
      exact ⟨nofun, fun _ => h⟩
    rw [if_neg hclient]
    unfold kernelDeliver
    have hhandler : (process.table.entry sig).applAct.handler = (actions sig).handler :=
      hlooks.handler
    rw [hhandler]
    cases hkernel : (actions sig).handler with
    | ign =>
        -- an ignored fault is left out
        have hsent : fault = false := Bool.eq_false_of_not_eq_true fun htrue =>
          hlooks.lasting.fault (hfault htrue) hkernel
        rw [hsent]
        exact ⟨fun effect heffect => ⟨Option.some.inj heffect, fun _ => h⟩, nofun⟩
    | fn handler =>
        dsimp only
        rw [hlooks.lasting.once]
        refine ⟨fun effect heffect => ⟨?_, fun _ => h⟩, nofun⟩
        exact (congrArg _ hlooks.siginfo.symm).trans (Option.some.inj heffect)
    | dfl =>
        have hdefault := h.default_effect hcaught.2.2.1
        dsimp only
        rw [hdefault]
        by_cases hnoterm : (process.table.entry sig).noterm = true
        · rw [if_pos hnoterm, if_pos hnoterm]
          exact ⟨fun effect heffect => ⟨Option.some.inj heffect, fun _ => h⟩, nofun⟩
        rw [if_neg hnoterm, if_neg hnoterm]
        by_cases hstop : (process.table.entry sig).stop = true
        · rw [if_pos hstop, if_pos hstop]
          exact ⟨fun effect heffect => ⟨Option.some.inj heffect, fun _ => h⟩, nofun⟩
        rw [if_neg hstop, if_neg hstop]
        -- the process ends, also by the fault that comes again
        have hended : ∀ reset : MonitoredSignals H C,
            (if (process.table.entry sig).noraise = true then
              (reset, some (if fault = true then SignalEffect.ended else .ignored))
            else (reset, some (SignalEffect.ended : SignalEffect H))) = (reset, some .ended) := by
          intro reset
          split
          · rename_i hflag
            have hmem := of_decide_eq_true ((h.noraise sig).symm.trans hflag)
            rw [if_pos (hnoraise hmem)]
          · rfl
        rw [hended]
        exact ⟨fun effect heffect => ⟨Option.some.inj heffect,
          fun hne => absurd (Option.some.inj heffect).symm hne⟩, nofun⟩

end SignalSystem.Shows

end Shows

end Papiex
