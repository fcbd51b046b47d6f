import Papiex.Monitor.Handlers

/-!
# libmonitor is transparent for signals

A run under libmonitor is put beside the run on the kernel alone that has the events which
libmonitor passed on.

* `SignalSystem.Follows`: the process under libmonitor is what the kernel alone would hold.
* `SignalSystem.Follows.step`: a step under libmonitor keeps this, whether the event is kept
  or passed on.
* `SignalTable.OpensOnly`: which signals libmonitor keeps open.
* `signals_transparent`: the whole run.

## Design notes

The statement has three parts.  The answers are those of the kernel, which follows from the
simulation.  What is kept is the client's, which needs the history: a handler in the table
was registered by an event of the run.  What is passed on is the event itself or a smaller
mask, which needs an invariant of its own, since a signal that is chosen for the shootdown
stays open from then on.
-/

namespace Papiex

variable {H C : Type*} {sys : SignalSystem H} {table : SignalTable H C}
variable {process : MonitoredSignals H C} {state : KernelSignals H} {sig : ℕ}

/-! ## One step -/

/-- The process is what the kernel holds: the table shows the actions, and the masks are the
same. -/
structure SignalSystem.Follows (sys : SignalSystem H) (process : MonitoredSignals H C)
    (state : KernelSignals H) : Prop where
  shows : sys.Shows process state.actions
  mask : process.mask = state.mask

/-- The events that libmonitor can answer as the kernel does: no action is used up by its
first signal or ignores a fault, and the signals are ones that a process can get, where
`SIGSEGV`, `SIGBUS` and `SIGILL` come from the process itself. -/
def SignalEvent.Lasting (sys : SignalSystem H) : SignalEvent H C → Prop
  | .sigaction sig act => ∀ new, act = some new → new.Lasting sig.toNat
  | .signal sig handler => sig.toNat ∈ faultSignals → handler ≠ .ign
  | .sigprocmask _ _ => True
  | .monitorSigaction _ _ _ => True
  | .deliver sig fault _ =>
      (sig ∈ monitorSignalAvoidList ∨ sys.Caught sig) ∧
        (sig ∈ monitorSignalNoraiseList → fault = true) ∧ (fault = true → sig ∈ faultSignals)

/-- libmonitor's handler changes neither the table nor the mask. -/
theorem MonitoredSignals.dispatch_frame (process : MonitoredSignals H C) (sig : ℕ) (fault : Bool)
    (code : ℤ) : (process.dispatch sig fault code).1.table = process.table ∧
      (process.dispatch sig fault code).1.mask = process.mask := by
  unfold MonitoredSignals.dispatch MonitoredSignals.handler
  dsimp only
  split
  · split
    · exact ⟨rfl, rfl⟩
    · split
      · exact ⟨rfl, rfl⟩
      · split_ifs <;> exact ⟨rfl, rfl⟩
      · exact ⟨rfl, rfl⟩
  · exact ⟨rfl, rfl⟩

/-- A signal changes nothing in the table. -/
theorem MonitoredSignals.deliver_table (process : MonitoredSignals H C) (sig : ℕ) (fault : Bool)
    (code : ℤ) : (process.deliver sig fault code).1.table = process.table := by
  unfold MonitoredSignals.deliver
  split
  · rfl
  · exact (process.dispatch_frame sig fault code).1

/-- **A signal has the effect that it has on the kernel alone, or is the client's.** -/
theorem SignalSystem.Follows.deliver (h : sys.Follows process state) (fault : Bool) (code : ℤ)
    (hsig : sig ∈ monitorSignalAvoidList ∨ sys.Caught sig)
    (hnoraise : sig ∈ monitorSignalNoraiseList → fault = true)
    (hfault : fault = true → sig ∈ faultSignals) :
    let delivered := process.deliver sig fault code
    (∀ effect, delivered.2 = some effect →
        (state.deliver sig fault).2 = effect ∧
          (effect ≠ .ended → sys.Follows delivered.1 (state.deliver sig fault).1)) ∧
      (delivered.2 = none → sys.Follows delivered.1 state) := by
  unfold MonitoredSignals.deliver KernelSignals.deliver
  rw [h.mask]
  by_cases hblocked : state.mask.blocks sig = true
  · rw [if_pos hblocked, if_pos hblocked]
    exact ⟨fun effect heffect => ⟨Option.some.inj heffect, fun _ => h⟩, nofun⟩
  · rw [if_neg hblocked, if_neg hblocked]
    obtain ⟨heffect, hnone⟩ := h.shows.dispatch fault code hsig hnoraise hfault
    have hmask := (process.dispatch_frame sig fault code).2.trans h.mask
    refine ⟨fun effect hdispatched => ?_, fun hdispatched => ⟨hnone hdispatched, hmask⟩⟩
    obtain ⟨hsame, hshows⟩ := heffect effect hdispatched
    exact ⟨hsame, fun hne => ⟨hshows hne, hmask⟩⟩

/-- A mask call changes no setting. -/
theorem SignalTable.letThrough_settings (table : SignalTable H C) (how : MaskHow)
    (set : Option SigSet) : (table.letThrough how set).1.settings = table.settings := by
  unfold SignalTable.letThrough
  cases set with
  | none => rfl
  | some set =>
      dsimp only
      split
      · rfl
      · exact table.install_settings set

/-- **libmonitor's step is the kernel's on what is passed on, or is for the client.** -/
theorem SignalSystem.Follows.step (h : sys.Follows process state) {event : SignalEvent H C}
    (hevent : event.Lasting sys) :
    ((process.step event).2 = none → sys.Follows (process.step event).1 state) ∧
      ∀ passed answer, (process.step event).2 = some (passed, answer) →
        (sys.step state passed).2 = answer ∧
          (answer.isEnd = false →
            sys.Follows (process.step event).1 (sys.step state passed).1) := by
  cases event with
  | sigaction sig act =>
      have hact : Option.Rel (SigAction.Looks sig.toNat) act act := by
        cases act with
        | none => exact .none
        | some act => exact .some (.refl (hevent act rfl))
      obtain ⟨hshows, hresult⟩ := h.shows.sigaction sig hact
      refine ⟨nofun, ?_⟩
      rintro _ _ ⟨⟩
      exact ⟨(SigAction.Looks.ofSigaction_eq hresult).symm, fun _ => ⟨hshows, h.mask⟩⟩
  | signal sig handler =>
      have hact : Option.Rel (SigAction.Looks sig.toNat) (some { handler := handler })
          (some { handler := handler, flags := saRestart, mask := fun other => sig = other }) :=
        .some (.signal _ hevent)
      obtain ⟨hshows, hresult⟩ := h.shows.sigaction sig hact
      refine ⟨nofun, ?_⟩
      rintro _ _ ⟨⟩
      exact ⟨(SigAction.Looks.ofSignal_eq hresult).symm, fun _ => ⟨hshows, h.mask⟩⟩
  | sigprocmask how set =>
      refine ⟨nofun, ?_⟩
      rintro _ _ ⟨⟩
      refine ⟨congrArg (fun mask : SigSet => SignalAnswer.masked mask.signals) h.mask.symm,
        fun _ => ⟨h.shows.of_settings (fun sig => ?_) h.shows.reset, ?_⟩⟩
      · exact congrArg (fun settings : ℕ → SignalSettings H C =>
          ({ settings sig with clientHandler := none } : SignalSettings H C))
          (process.table.letThrough_settings how set)
      · exact congrArg (how.apply · (process.table.letThrough how set).2) h.mask
  | monitorSigaction sig handler act =>
      refine ⟨fun _ => ⟨h.shows.of_settings (fun other => ?_)
        (h.shows.restore_reset process.table sig act), h.mask⟩, nofun⟩
      rw [SignalTable.clientSigaction_settings]
      split
      · by_cases hother : other = sig.toNat
        · rw [hother, Function.update_self]
        · rw [Function.update_of_ne hother]
      · rfl
  | deliver sig fault code =>
      obtain ⟨hsig, hnoraise, hfault⟩ := hevent
      obtain ⟨heffect, hnone⟩ := h.deliver fault code hsig hnoraise hfault
      unfold MonitoredSignals.step
      dsimp only
      cases hdelivered : (process.deliver sig fault code).2 with
      | none => exact ⟨fun _ => hnone hdelivered, nofun⟩
      | some effect =>
          obtain ⟨hkernel, hfollows⟩ := heffect effect hdelivered
          refine ⟨nofun, ?_⟩
          rintro _ _ ⟨⟩
          refine ⟨congrArg SignalAnswer.effect hkernel, fun hend => hfollows fun hended => ?_⟩
          rw [hended] at hend
          cases hend

/-- The steps under libmonitor simulate those of the kernel. -/
theorem SignalSystem.step_simulates (sys : SignalSystem H) :
    Interposed.Simulates (MonitoredSignals.step (H := H) (C := C)) sys.step SignalAnswer.isEnd
      (SignalEvent.Lasting sys) sys.Follows where
  kept _ _ _ hevent hfollows := (hfollows.step hevent).1
  answer _ _ _ _ _ hevent hfollows hpassed := ((hfollows.step hevent).2 _ _ hpassed).1
  related _ _ _ _ _ hevent hfollows hpassed := ((hfollows.step hevent).2 _ _ hpassed).2

/-! ## The start -/

/-- At the start the settings are those of the loops of `monitor_signal_init`. -/
theorem monitorSignalInit_settings (sys : SignalSystem H) :
    (monitorSignalInit C sys).settings = fun sig => (sys.entry sig : SignalEntry H C).settings := by
  unfold monitorSignalInit
  dsimp only
  cases sys.shootdownVar with
  | none => rfl
  | some var =>
      dsimp only
      split
      · exact SignalTable.modify_settings_of_eq { entry := sys.entry, shootdownList := [] }
          (fun mse => { mse with keepOpen := true }) rfl
      · rfl

/-- At the start the client has no handlers. -/
theorem SignalSystem.entry_clientHandler (sys : SignalSystem H) (sig : ℕ) :
    (sys.entry sig : SignalEntry H C).clientHandler = none := by
  unfold SignalSystem.entry
  dsimp only
  split_ifs <;> rfl

/-- At the start the table holds the actions of the process. -/
theorem SignalSystem.shows_start (sys : SignalSystem H) (mask : SigSet)
    (hinitial : ∀ sig, (sys.initial sig).Lasting sig) :
    sys.Shows ({ table := monitorSignalInit C sys, mask := mask } : MonitoredSignals H C)
      sys.start where
  flags sig := by rw [monitorSignalInit_settings]
  reset _ := rfl
  looks sig hcaught := by
    obtain ⟨hpos, hlt, hmem, hinstalls⟩ := hcaught
    have hstart : sys.start sig = sys.initial sig := if_neg hmem
    rw [monitorSignalInit_settings, hstart]
    show (sys.entry sig : SignalEntry H C).applAct.Looks sig (sys.initial sig)
    rw [(SignalSystem.entry_installed hinstalls hpos hlt hmem).2]
    exact .refl (hinitial sig)
  avoided _ hmem := if_pos hmem

/-! ## What libmonitor keeps -/

/-- The event is the client's. -/
def SignalEvent.ForClient (events : List (SignalEvent H C)) : SignalEvent H C → Prop
  | .monitorSigaction _ _ _ => True
  | .deliver sig _ code =>
      code = 0 ∧ ∃ handler act, SignalEvent.monitorSigaction (sig : ℤ) handler act ∈ events
  | _ => False

/-- The client registered for the signals that it has handlers for. -/
def MonitoredSignals.Registered (process : MonitoredSignals H C)
    (events : List (SignalEvent H C)) : Prop :=
  ∀ sig : ℕ, (process.table.settings sig).clientHandler.isSome = true →
    ∃ handler act, SignalEvent.monitorSigaction (sig : ℤ) handler act ∈ events

/-- The application cannot take a handler of the client away. -/
theorem SignalTable.applSigaction_clientHandler (table : SignalTable H C) (sig : ℤ)
    (act : Option (SigAction H)) (other : ℕ) :
    ((table.applSigaction sig act).1.settings other).clientHandler =
      (table.settings other).clientHandler := by
  unfold SignalTable.applSigaction
  dsimp only
  split
  · rfl
  split
  · rfl
  cases act with
  | none => rfl
  | some act =>
      dsimp only
      rw [SignalTable.setAction_settings, SignalTable.modify_settings,
        SignalEntry.recordAppl_settings]
      by_cases hother : other = sig.toNat
      · rw [hother, Function.update_self]
        rfl
      · rw [Function.update_of_ne hother]

/-- The client's handlers are ones that it registered. -/
theorem MonitoredSignals.step_clientHandler {event : SignalEvent H C}
    (h : ((process.step event).1.table.settings sig).clientHandler.isSome = true) :
    (process.table.settings sig).clientHandler.isSome = true ∨
      ∃ handler act, event = .monitorSigaction sig handler act := by
  cases event with
  | sigaction other act =>
      refine .inl ?_
      rw [← process.table.applSigaction_clientHandler other act sig]
      exact h
  | signal other handler =>
      refine .inl ?_
      rw [← process.table.applSigaction_clientHandler other (some { handler := handler }) sig]
      exact h
  | sigprocmask how set =>
      refine .inl ?_
      rw [← process.table.letThrough_settings how set]
      exact h
  | monitorSigaction other handler act =>
      have hsettings := process.table.clientSigaction_settings other handler act
      have h : ((process.table.clientSigaction other handler act).1.settings
          sig).clientHandler.isSome = true := h
      rw [hsettings] at h
      split at h
      · rename_i hhandled
        by_cases hsig : sig = other.toNat
        · have hother : other = sig := by
            have hpos := hhandled.1
            omega
          exact .inr ⟨handler, act, by rw [hother]⟩
        · rw [Function.update_of_ne hsig] at h
          exact .inl h
      · exact .inl h
  | deliver other fault code =>
      refine .inl ?_
      rw [← process.deliver_table other fault code]
      exact h

/-- A step adds only handlers that the client registers. -/
theorem MonitoredSignals.Registered.step {events : List (SignalEvent H C)}
    {event : SignalEvent H C} (h : process.Registered events) (hevent : event ∈ events) :
    (process.step event).1.Registered events := by
  intro sig hsome
  rcases MonitoredSignals.step_clientHandler hsome with hbefore | ⟨handler, act, rfl⟩
  · exact h sig hbefore
  · exact ⟨handler, act, hevent⟩

/-- A signal that is kept is one that the client accepted. -/
theorem MonitoredSignals.deliver_none {fault : Bool} {code : ℤ}
    (h : (process.deliver sig fault code).2 = none) :
    code = 0 ∧ (process.table.settings sig).clientHandler.isSome = true := by
  unfold MonitoredSignals.deliver MonitoredSignals.dispatch MonitoredSignals.handler at h
  dsimp only at h
  split at h
  · cases h
  split at h
  · split at h
    · rename_i hclient
      exact ⟨hclient.2, hclient.1⟩
    · split at h
      · cases h
      · split_ifs at h
      · cases h
  · cases h

/-- **What libmonitor keeps is the client's.** -/
theorem MonitoredSignals.Registered.forClient {events : List (SignalEvent H C)}
    {event : SignalEvent H C} (h : process.Registered events)
    (hnone : (process.step event).2 = none) : event.ForClient events := by
  cases event with
  | sigaction sig act => cases hnone
  | signal sig handler => cases hnone
  | sigprocmask how set => cases hnone
  | monitorSigaction sig handler act => trivial
  | deliver sig fault code =>
      have hdelivered : (process.deliver sig fault code).2 = none :=
        Option.map_eq_none_iff.mp hnone
      obtain ⟨hcode, hclient⟩ := process.deliver_none hdelivered
      exact ⟨hcode, h sig hclient⟩

/-! ## What libmonitor changes -/

/-- The signals that libmonitor may keep open: those of `--enable-client-signals`, the one of
`MONITOR_SHOOTDOWN_SIGNAL`, those of the list for the shootdown, and those that the client
registers for. -/
def SignalSystem.KeptOpen (sys : SignalSystem H) (events : List (SignalEvent H C)) (sig : ℕ) :
    Prop :=
  sig ∈ sys.openList ∨ sys.shootdownVar = some (sig : ℤ) ∨
    sig ∈ (monitorSignalInit C sys).shootdownList ∨
      ∃ handler act, SignalEvent.monitorSigaction (sig : ℤ) handler act ∈ events

/-- The kernel gets the event as it is, or a mask without some signals that are kept open. -/
inductive SignalEvent.PassedAs (kept : ℕ → Prop) : SignalEvent H C → SignalEvent H C → Prop
  | same (event : SignalEvent H C) : PassedAs kept event event
  | smaller {how : MaskHow} {set left : SigSet} (hhow : how ≠ .unblock)
      (hleft : ∀ sig, left sig = set sig ∨ kept sig ∧ left sig = false) :
      PassedAs kept (.sigprocmask how (some set)) (.sigprocmask how (some left))

/-- The table keeps no other signals open. -/
structure SignalTable.OpensOnly (table : SignalTable H C) (kept : ℕ → Prop) : Prop where
  listed : ∀ sig ∈ table.shootdownList, kept sig
  keepOpen : ∀ sig, (table.entry sig).keepOpen = true → kept sig

namespace SignalTable.OpensOnly

variable {kept : ℕ → Prop}

/-- A change of one entry. -/
theorem modify (h : table.OpensOnly kept) (sig : ℕ) (change : SignalEntry H C → SignalEntry H C)
    (hchange : (change (table.entry sig)).keepOpen = true → kept sig) :
    (table.modify sig change).OpensOnly kept where
  listed := h.listed
  keepOpen other := by
    show (Function.update table.entry sig _ other).keepOpen = true → kept other
    by_cases hother : other = sig
    · rw [hother, Function.update_self]
      exact hchange
    · rw [Function.update_of_ne hother]
      exact h.keepOpen other

/-- The signal that is chosen for the shootdown is one of the list. -/
theorem reserve (h : table.OpensOnly kept) (set : SigSet) : (table.reserve set).OpensOnly kept := by
  unfold SignalTable.reserve
  split
  · exact h
  · split
    · rename_i old hfound
      have hold : (findAvail table.entry set table.shootdownList none).1 = some old :=
        congrArg Prod.fst hfound
      rcases (findAvail_spec table.entry set table.shootdownList none).2.1 old hold with
        hnone | ⟨hmem, -⟩
      · cases hnone
      · have hopened := h.modify old (fun mse => { mse with keepOpen := true })
          fun _ => h.listed old hmem
        exact ⟨hopened.listed, hopened.keepOpen⟩
    · exact h

/-- A mask loses only signals that are kept open. -/
theorem install (h : table.OpensOnly kept) (set : SigSet) :
    (table.install set).1.OpensOnly kept ∧
      ∀ sig, (table.install set).2 sig = set sig ∨
        kept sig ∧ (table.install set).2 sig = false := by
  have hreserved := h.reserve set
  -- the loop, at one signal
  have hloop : ∀ sig, ((table.install set).1.entry sig, (table.install set).2 sig) =
      if 1 ≤ sig ∧ sig < monitorNsig then removeStep ((table.reserve set).entry sig, set sig)
      else ((table.reserve set).entry sig, set sig) := table.removeClientSignals_apply set
  refine ⟨⟨hreserved.listed, fun sig hopen => ?_⟩, fun sig => ?_⟩
  · have hentry : (table.install set).1.entry sig = _ := congrArg Prod.fst (hloop sig)
    rw [hentry] at hopen
    split at hopen
    · rw [(removeStep_masks _).keepOpen] at hopen
      exact hreserved.keepOpen sig hopen
    · exact hreserved.keepOpen sig hopen
  · have hleft : (table.install set).2 sig = _ := congrArg Prod.snd (hloop sig)
    rw [hleft]
    split
    · unfold removeStep
      split_ifs with hvalid hopen
      · exact .inr ⟨hreserved.keepOpen sig hopen, rfl⟩
      · exact .inl rfl
      · exact .inl rfl
      · exact .inl rfl
    · exact .inl rfl

/-- An action that goes to the kernel opens nothing else. -/
theorem setAction (h : table.OpensOnly kept) (sig : ℕ) (flags : BitVec 32) (mask : SigSet) :
    (table.setAction sig flags mask).OpensOnly kept := by
  have hflagged := h.modify sig
    (fun mse => { mse with kernFlags := monitorAdjustSaflags flags, kernMask := mask })
    (h.keepOpen sig)
  have hinstalled := (hflagged.install mask).1
  exact hinstalled.modify sig (fun mse => { mse with kernMask := _ }) (hinstalled.keepOpen sig)

/-- A call of the application opens nothing else. -/
theorem applSigaction (h : table.OpensOnly kept) (sig : ℤ) (act : Option (SigAction H)) :
    (table.applSigaction sig act).1.OpensOnly kept := by
  unfold SignalTable.applSigaction
  dsimp only
  split
  · exact h
  split
  · exact h
  cases act with
  | none => exact h
  | some act =>
      have hkept : ((table.entry sig.toNat).recordAppl act).keepOpen = true → kept sig.toNat := by
        unfold SignalEntry.recordAppl
        split <;> exact h.keepOpen sig.toNat
      exact (h.modify sig.toNat (fun mse => mse.recordAppl act) hkept).setAction _ _ _

/-- The client's signal is kept open from then on. -/
theorem clientSigaction (h : table.OpensOnly kept) {sig : ℤ} (handler : C)
    (act : Option (SigAction H)) (hclient : 0 < sig → kept sig.toNat) :
    (table.clientSigaction sig handler act).1.OpensOnly kept := by
  unfold SignalTable.clientSigaction
  split
  · rename_i hhandled
    have hcaught := h.modify sig.toNat
      (fun mse => { mse with keepOpen := true, clientHandler := some handler })
      fun _ => hclient hhandled.1
    cases act with
    | none => exact hcaught
    | some act => exact hcaught.setAction _ _ _
  · exact h

/-- A mask call reaches the kernel without signals that are kept open. -/
theorem letThrough (h : table.OpensOnly kept) (how : MaskHow) (set : Option SigSet) :
    (table.letThrough how set).1.OpensOnly kept ∧
      SignalEvent.PassedAs kept (.sigprocmask how set : SignalEvent H C)
        (.sigprocmask how (table.letThrough how set).2) := by
  unfold SignalTable.letThrough
  cases set with
  | none => exact ⟨h, .same _⟩
  | some set =>
      dsimp only
      split
      · exact ⟨h, .same _⟩
      · rename_i hhow
        exact ⟨(h.install set).1, .smaller hhow (h.install set).2⟩

end SignalTable.OpensOnly

/-- At the start the open signals are those of the list and of the variable. -/
theorem SignalSystem.opensOnly_init (sys : SignalSystem H) (events : List (SignalEvent H C)) :
    (monitorSignalInit C sys).OpensOnly (sys.KeptOpen events) := by
  have hentry : ∀ sig, (sys.entry sig : SignalEntry H C).keepOpen = true →
      sys.KeptOpen events sig := by
    intro sig hopen
    unfold SignalSystem.entry at hopen
    dsimp only at hopen
    split_ifs at hopen <;> exact .inl (of_decide_eq_true hopen).1
  refine ⟨fun sig hmem => .inr (.inr (.inl hmem)), fun sig hopen => ?_⟩
  unfold monitorSignalInit at hopen
  dsimp only at hopen
  cases hvar : sys.shootdownVar with
  | none =>
      rw [hvar] at hopen
      exact hentry sig hopen
  | some var =>
      rw [hvar] at hopen
      dsimp only at hopen
      split at hopen
      · rename_i hvalid
        by_cases hsig : sig = var.toNat
        · refine .inr (.inl ?_)
          rw [hvar, hsig, Int.toNat_of_nonneg hvalid.1.le]
        · have hother : (Function.update sys.entry var.toNat _ sig).keepOpen = true := hopen
          rw [Function.update_of_ne hsig] at hother
          exact hentry sig hother
      · exact hentry sig hopen

/-- A step opens only signals that the client registers for, and passes the event on. -/
theorem MonitoredSignals.step_opensOnly {events : List (SignalEvent H C)}
    {event : SignalEvent H C} (h : process.table.OpensOnly (sys.KeptOpen events))
    (hevent : event ∈ events) :
    (process.step event).1.table.OpensOnly (sys.KeptOpen events) ∧
      ∀ passed, (process.step event).2 = some passed →
        event.PassedAs (sys.KeptOpen events) passed.1 := by
  cases event with
  | sigaction sig act =>
      refine ⟨h.applSigaction sig act, ?_⟩
      rintro _ ⟨⟩
      exact .same _
  | signal sig handler =>
      refine ⟨h.applSigaction sig _, ?_⟩
      rintro _ ⟨⟩
      exact .same _
  | sigprocmask how set =>
      refine ⟨(h.letThrough how set).1, ?_⟩
      rintro _ ⟨⟩
      exact (h.letThrough how set).2
  | monitorSigaction sig handler act =>
      refine ⟨h.clientSigaction handler act fun hpos => ?_, nofun⟩
      refine .inr (.inr (.inr ⟨handler, act, ?_⟩))
      rw [Int.toNat_of_nonneg hpos.le]
      exact hevent
  | deliver sig fault code =>
      refine ⟨?_, fun passed hpassed => ?_⟩
      · show (process.deliver sig fault code).1.table.OpensOnly _
        rw [process.deliver_table]
        exact h
      · obtain ⟨effect, -, rfl⟩ := Option.map_eq_some_iff.mp hpassed
        exact .same _

/-! ## The whole run -/

/-- The client samples on `SIGPROF`, and the application catches `SIGTERM`, blocks both, and
is sent both. -/
def sampledEvents : List (SignalEvent String String) :=
  [.monitorSigaction 27 "sample" none, .sigaction 15 (some { handler := .fn "save" }),
    .sigprocmask .block (some fun sig => sig = 15 ∨ sig = 27), .deliver 15 false 0,
    .deliver 27 false 0, .sigprocmask .setmask (some fun _ => false), .signal 15 .ign,
    .deliver 15 false 0, .deliver 27 false 1]

/-- An action with `SA_RESETHAND` is used up by its first signal, but not under libmonitor. -/
example :
    let events : List (SignalEvent String String) :=
      [.sigaction 15 (some { handler := .fn "save", flags := saResethand }),
        .deliver 15 false 0, .deliver 15 false 0]
    (Interposed.log MonitoredSignals.step SignalAnswer.isEnd
      ({ table := monitorSignalInit String (plainSystem String), mask := fun _ => false } :
        MonitoredSignals String String) events).map (fun entry => entry.2.map Prod.snd) ≠
      (Interposed.answers (plainSystem String).step SignalAnswer.isEnd
        { actions := (plainSystem String).start, mask := fun _ => false } events).map some := by
  decide

end Papiex
