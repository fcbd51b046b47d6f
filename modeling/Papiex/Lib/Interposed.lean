import Mathlib.Data.List.Basic
import Mathlib.Data.List.Infix

/-!
# A layer between a program and a system

A layer takes the events that would have gone to a system.  Some it keeps for itself; the
others it passes on, changed or as they are, and gives back an answer.  It is transparent if
the answers are those that the system gives to the events that were passed on, and to no
others.  A run is over with an answer that ends it.

* `log`, `answered`: what a run on the layer leaves behind.
* `Simulates`: one event on the layer is the event that it passes on, on the system, or none.
* `Simulates.answers_answered`: the answers of a whole run are those of the system.
* `log_prefix`, `log_events`: no event is lost or made up.
* `log_forall`: what holds of the layer through a run holds at each event.
-/

namespace Interposed

universe u v w x

variable {S : Type u} {T : Type v} {E : Type w} {O : Type x}
variable {layer : S → E → S × Option (E × O)} {system : T → E → T × O} {ended : O → Bool}
variable {state : S} {plain : T} {event : E} {events : List E}

/-- The events of a run on the layer, each with what was passed on for it and the answer, if
it was not kept. -/
def log (layer : S → E → S × Option (E × O)) (ended : O → Bool) :
    S → List E → List (E × Option (E × O))
  | _, [] => []
  | state, event :: events =>
      (event, (layer state event).2) ::
        if (layer state event).2.any fun passed => ended passed.2 then []
        else log layer ended (layer state event).1 events

/-- The events that were passed on, with their answers. -/
def answered (entries : List (E × Option (E × O))) : List (E × O) :=
  entries.filterMap Prod.snd

/-- The answers of the system. -/
def answers (system : T → E → T × O) (ended : O → Bool) : T → List E → List O
  | _, [] => []
  | plain, event :: events =>
      (system plain event).2 ::
        if ended (system plain event).2 then []
        else answers system ended (system plain event).1 events

/-- One event on the layer is the event that it passes on, on the system, or none. -/
structure Simulates (layer : S → E → S × Option (E × O)) (system : T → E → T × O)
    (ended : O → Bool) (Allowed : E → Prop) (Related : S → T → Prop) : Prop where
  kept : ∀ state plain event, Allowed event → Related state plain →
    (layer state event).2 = none → Related (layer state event).1 plain
  answer : ∀ state plain event passed answer, Allowed event → Related state plain →
    (layer state event).2 = some (passed, answer) → (system plain passed).2 = answer
  related : ∀ state plain event passed answer, Allowed event → Related state plain →
    (layer state event).2 = some (passed, answer) → ended answer = false →
      Related (layer state event).1 (system plain passed).1

variable {Allowed : E → Prop} {Related : S → T → Prop}

/-- **The answers are those of the system.** -/
theorem Simulates.answers_answered (h : Simulates layer system ended Allowed Related)
    (hallowed : ∀ event ∈ events, Allowed event) (hrelated : Related state plain) :
    answers system ended plain ((answered (log layer ended state events)).map Prod.fst) =
      (answered (log layer ended state events)).map Prod.snd := by
  induction events generalizing state plain with
  | nil => rfl
  | cons event events ih =>
      obtain ⟨hevent, hevents⟩ := List.forall_mem_cons.mp hallowed
      unfold log
      cases hpassed : (layer state event).2 with
      | none => exact ih hevents (h.kept _ _ _ hevent hrelated hpassed)
      | some entry =>
          obtain ⟨passed, answer⟩ := entry
          have hsame := h.answer _ _ _ _ _ hevent hrelated hpassed
          show (system plain passed).2 :: _ = answer :: _
          rw [hsame]
          refine congrArg (List.cons answer) ?_
          cases hended : ended answer with
          | true => simp [hended]
          | false =>
              simpa [answered, hended] using
                ih hevents (h.related _ _ _ _ _ hevent hrelated hpassed hended)

/-- The log is about the first events, in order. -/
theorem log_prefix (layer : S → E → S × Option (E × O)) (ended : O → Bool) (state : S)
    (events : List E) : (log layer ended state events).map Prod.fst <+: events := by
  induction events generalizing state with
  | nil => exact List.prefix_rfl
  | cons event events ih =>
      unfold log
      refine List.cons_prefix_cons.mpr ⟨rfl, ?_⟩
      split
      · exact List.nil_prefix
      · exact ih _

/-- No event is left out, unless the run is over. -/
theorem log_events
    (h : ∀ entry ∈ log layer ended state events,
      (entry.2.any fun passed => ended passed.2) = false) :
    (log layer ended state events).map Prod.fst = events := by
  induction events generalizing state with
  | nil => rfl
  | cons event events ih =>
      unfold log at h ⊢
      obtain ⟨hrunning, hrest⟩ := List.forall_mem_cons.mp h
      rw [if_neg (Bool.eq_false_iff.mp hrunning)] at hrest ⊢
      exact congrArg (List.cons event) (ih hrest)

/-- What holds of the layer through a run holds at each of its events. -/
theorem log_forall (Inv : S → Prop) (Fact : E → Option (E × O) → Prop)
    (hstep : ∀ state event, event ∈ events → Inv state →
      Inv (layer state event).1 ∧ Fact event (layer state event).2)
    (hinv : Inv state) : ∀ entry ∈ log layer ended state events, Fact entry.1 entry.2 := by
  induction events generalizing state with
  | nil => exact nofun
  | cons event events ih =>
      obtain ⟨hnext, hfact⟩ := hstep state event List.mem_cons_self hinv
      unfold log
      refine List.forall_mem_cons.mpr ⟨hfact, ?_⟩
      split
      · exact nofun
      · exact ih (fun state event hmem => hstep state event (List.mem_cons_of_mem _ hmem)) hnext

end Interposed
