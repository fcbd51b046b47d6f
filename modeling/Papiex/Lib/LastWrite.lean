import Mathlib.Data.List.Basic
import Mathlib.Data.Option.Basic

/-!
# The last write wins

A cell and a sequence of events, each of which may write the cell.  The content
after the sequence is the value of the last event that writes.  Whoever knows that
all the events that write agree does not need to know which is the last one.

## Main results

* `after_eq_getLast?`: the content is that of the last write.
* `after_eq_some`: the content, if all the events that write agree.
-/

namespace LastWrite

universe u v

variable {α : Type u} {V : Type v} {written : α → Option V} {events : List α}
variable {start : Option V} {val : V}

/-- The content of a cell after these events; `written` says what an event writes. -/
def after (written : α → Option V) (start : Option V) (events : List α) : Option V :=
  events.foldl (fun old event => (written event).or old) start

@[simp] theorem after_nil : after written start [] = start := rfl

@[simp] theorem after_cons {event : α} :
    after written start (event :: events) = after written ((written event).or start) events := rfl

/-- The content is the last value that is written. -/
theorem after_eq_getLast? :
    after written start events = (events.filterMap written).getLast?.or start := by
  induction events generalizing start with
  | nil => rfl
  | cons event events ih =>
      rw [after_cons, ih]
      cases hevent : written event with
      | none => rw [List.filterMap_cons_none hevent, Option.none_or]
      | some val =>
          rw [List.filterMap_cons_some hevent, List.getLast?_cons, Option.some_or]
          cases (events.filterMap written).getLast? <;> rfl

/-- What is in the cell was there or has been written. -/
theorem of_after_eq_some (h : after written start events = some val) :
    start = some val ∨ ∃ event ∈ events, written event = some val := by
  induction events generalizing start with
  | nil => exact .inl h
  | cons event events ih =>
      rcases ih h with hstart | ⟨other, hmem, hother⟩
      · rcases Option.or_eq_some_iff.mp hstart with hwritten | ⟨-, hold⟩
        · exact .inr ⟨event, List.mem_cons_self, hwritten⟩
        · exact .inl hold
      · exact .inr ⟨other, List.mem_cons_of_mem _ hmem, hother⟩

/-- Events that do not write leave the cell alone. -/
theorem after_eq_start (h : ∀ event ∈ events, written event = none) :
    after written start events = start := by
  induction events generalizing start with
  | nil => rfl
  | cons event events ih =>
      rw [List.forall_mem_cons] at h
      rw [after_cons, h.1, Option.none_or, ih h.2]

/-- Writes that all agree are found, and leave a cell with that content as it is. -/
theorem after_eq_some (hagree : ∀ event ∈ events, ∀ other, written event = some other → other = val)
    (h : start = some val ∨ ∃ event ∈ events, written event = some val) :
    after written start events = some val := by
  induction events generalizing start with
  | nil => simpa using h
  | cons event events ih =>
      rw [List.forall_mem_cons] at hagree
      rw [after_cons]
      refine ih hagree.2 ?_
      cases hevent : written event with
      | some other =>
          rw [hagree.1 other hevent, Option.some_or]
          exact .inl rfl
      | none =>
          rw [Option.none_or]
          rcases h with hstart | ⟨other, hmem, hother⟩
          · exact .inl hstart
          · rcases List.mem_cons.mp hmem with rfl | hlater
            · rw [hevent] at hother
              cases hother
            · exact .inr ⟨other, hlater, hother⟩

end LastWrite
