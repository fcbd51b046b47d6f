import Papiex.Lib.Intervals

/-!
# Stopwatches with laps

A stopwatch is started, read on the way (a *lap*) and stopped, any number of
times over.  The cheap implementation keeps a running total and the reading it
was last re-based to (`Meter`).  What it is for is said by the `Ledger`: the
list of completed episodes, with the readings at their two ends, and the open
episode if there is one.

The two agree as long as the watch is used properly, that is started when it is
closed and read or stopped when it is open: the total of the meter is the sum
over the episodes of the ledger (`Meter.Carries.step`).  The readings a lap
leaves behind telescope away, so a lap that is followed by another lap or by
the stop of its episode is not seen by the ledger at all (`ofOps_unsplit`).

## Main results

* `Ledger`: the episodes of a watch, of which `Ledger.total` is the length.
* `ofOps_unsplit`: laps change nothing in the length.
* `Within.total_bounds`: the length is within the time that has gone by.
* `Carries.step`: a meter that adds differences carries the ledger.
-/

namespace Stopwatch

universe u v

variable {R : Type u} {G : Type v}

/-- One use of the watch, with the reading taken at it. -/
inductive Op (R : Type u) where
  | start (reading : R)
  | lap (reading : R)
  | stop (reading : R)

/-- The same operation on a measure of the reading. -/
def Op.map (measure : R → G) : Op R → Op G
  | .start reading => .start (measure reading)
  | .lap reading => .lap (measure reading)
  | .stop reading => .stop (measure reading)

/-- The reading taken at an operation. -/
def Op.reading : Op R → R
  | .start reading => reading
  | .lap reading => reading
  | .stop reading => reading

/-! ## The ledger -/

/-- Completed episodes, oldest first, as pairs of the readings at start and at
stop; and the open episode, as the readings at its start and at its last lap. -/
structure Ledger (R : Type u) where
  closed : List (R × R)
  opened : Option (R × R)

namespace Ledger

/-- The ledger of a watch that was never used. -/
def empty : Ledger R := ⟨[], none⟩

/-- Enter one operation.  A stop of a closed watch enters nothing. -/
def step (ledger : Ledger R) : Op R → Ledger R
  | .start reading => { ledger with opened := some (reading, reading) }
  | .lap reading =>
      { ledger with opened := ledger.opened.map fun episode => (episode.1, reading) }
  | .stop reading =>
      { closed := ledger.closed ++
          (ledger.opened.map fun episode => (episode.1, reading)).toList
        opened := none }

/-- The operation is a proper use of the watch: start when closed, lap and stop
when open. -/
def Allows (ledger : Ledger R) : Op R → Prop
  | .start _ => ledger.opened = none
  | .lap _ => ledger.opened ≠ none
  | .stop _ => ledger.opened ≠ none

section Total

variable [AddCommGroup G]

/-- The measured amount: the sum over the completed episodes of the measure at
stop minus the measure at start, and for an open episode the measure at its
last lap minus the measure at its start. -/
def total (measure : R → G) (ledger : Ledger R) : G :=
  (ledger.closed.map fun episode => measure episode.2 - measure episode.1).sum +
    (ledger.opened.elim 0 fun episode => measure episode.2 - measure episode.1)

variable (measure : R → G) (ledger : Ledger R)

@[simp] theorem total_empty : total measure (empty : Ledger R) = 0 := by
  simp [total, empty]

theorem total_step_start (reading : R) (hallow : ledger.opened = none) :
    total measure (ledger.step (.start reading)) = total measure ledger := by
  simp [total, step, hallow]

/-- A lap adds the time since the last reading. -/
theorem total_step_lap (reading : R) {first last : R}
    (hopen : ledger.opened = some (first, last)) :
    total measure (ledger.step (.lap reading)) =
      total measure ledger + (measure reading - measure last) := by
  simp only [total, step, hopen, Option.map_some, Option.elim_some]
  abel

/-- A stop adds the time since the last reading. -/
theorem total_step_stop (reading : R) {first last : R}
    (hopen : ledger.opened = some (first, last)) :
    total measure (ledger.step (.stop reading)) =
      total measure ledger + (measure reading - measure last) := by
  simp only [total, step, hopen, Option.map_some, Option.elim_some, Option.elim_none,
    Option.toList_some, List.map_append, List.map_cons, List.map_nil, List.sum_append,
    List.sum_cons, List.sum_nil]
  abel

end Total

/-! ### Whole ledgers -/

/-- The ledger of a sequence of operations. -/
def ofOps (ops : List (Op R)) : Ledger R := ops.foldl step empty

/-- **The watch is open exactly after an unmatched start.**  The operations may
be spread over a longer sequence of events, of which `op` reads them off. -/
theorem opened_foldl_filterMap_iff {α : Type*} (op : α → Option (Op R)) (events : List α)
    (ledger : Ledger R) :
    ((events.filterMap op).foldl step ledger).opened ≠ none ↔
      (∃ front event reading rest, events = front ++ event :: rest ∧
          op event = some (.start reading) ∧ ∀ later ∈ rest, ∀ r, op later ≠ some (.stop r)) ∨
        ledger.opened ≠ none ∧ ∀ event ∈ events, ∀ r, op event ≠ some (.stop r) := by
  induction events generalizing ledger with
  | nil => simp
  | cons event events ih =>
      -- an unmatched start of the longer sequence is its head or one of its tail
      have hsplit : (∃ front first reading rest, event :: events = front ++ first :: rest ∧
          op first = some (.start reading) ∧ ∀ later ∈ rest, ∀ r, op later ≠ some (.stop r)) ↔
          (∃ reading, op event = some (.start reading) ∧
            ∀ later ∈ events, ∀ r, op later ≠ some (.stop r)) ∨
          ∃ front first reading rest, events = front ++ first :: rest ∧
            op first = some (.start reading) ∧
              ∀ later ∈ rest, ∀ r, op later ≠ some (.stop r) := by
        constructor
        · rintro ⟨front, first, reading, rest, heq, hstart, hrest⟩
          cases front with
          | nil =>
              cases heq
              exact .inl ⟨reading, hstart, hrest⟩
          | cons head front =>
              cases heq
              exact .inr ⟨front, first, reading, rest, rfl, hstart, hrest⟩
        · rintro (⟨reading, hstart, hrest⟩ | ⟨front, first, reading, rest, rfl, hstart, hrest⟩)
          · exact ⟨[], event, reading, events, rfl, hstart, hrest⟩
          · exact ⟨event :: front, first, reading, rest, rfl, hstart, hrest⟩
      rw [hsplit]
      cases h : op event with
      | none =>
          rw [List.filterMap_cons_none h, ih]
          simp [h]
      | some first =>
          rw [List.filterMap_cons_some h, List.foldl_cons, ih]
          cases first with
          | start reading =>
              simp only [step, List.forall_mem_cons, h]
              simp only [ne_eq, reduceCtorEq, not_false_eq_true, true_and, implies_true,
                Option.some.injEq, Op.start.injEq, exists_eq_left']
              constructor
              · rintro (hearlier | hnone)
                · exact .inl (.inr hearlier)
                · exact .inl (.inl hnone)
              · rintro ((hnone | hearlier) | ⟨-, hnone⟩)
                · exact .inr hnone
                · exact .inl hearlier
                · exact .inr hnone
          | lap reading => cases ho : ledger.opened <;> simp [step, h, ho]
          | stop reading => simp [step, h]

/-! ### Laps telescope -/

theorem step_lap_lap (ledger : Ledger R) (early late : R) :
    (ledger.step (.lap early)).step (.lap late) = ledger.step (.lap late) := by
  cases h : ledger.opened <;> simp [step, h]

theorem step_lap_stop (ledger : Ledger R) (early late : R) :
    (ledger.step (.lap early)).step (.stop late) = ledger.step (.stop late) := by
  cases h : ledger.opened <;> simp [step, h]

/-- Leave out each lap that a later lap or the stop of its episode follows. -/
def unsplit : List (Op R) → List (Op R)
  | [] => []
  | .lap _ :: .lap late :: rest => unsplit (.lap late :: rest)
  | .lap _ :: .stop late :: rest => unsplit (.stop late :: rest)
  | op :: rest => op :: unsplit rest

/-- **Laps split a measurement without changing it.** -/
theorem foldl_unsplit (ops : List (Op R)) (ledger : Ledger R) :
    (unsplit ops).foldl step ledger = ops.foldl step ledger := by
  induction ops using unsplit.induct generalizing ledger with
  | case1 => rfl
  | case2 early late rest ih =>
      rw [unsplit, ih, List.foldl_cons, List.foldl_cons, List.foldl_cons, step_lap_lap]
  | case3 early late rest ih =>
      rw [unsplit, ih, List.foldl_cons, List.foldl_cons, List.foldl_cons, step_lap_stop]
  | case4 op rest hlap hstop ih =>
      rw [unsplit.eq_4 op rest hlap hstop, List.foldl_cons, List.foldl_cons, ih]

/-- **The ledger does not see how its episodes were split.** -/
theorem ofOps_unsplit (ops : List (Op R)) : ofOps (unsplit ops) = ofOps ops :=
  foldl_unsplit ops empty

/-! ### Readings that never decrease -/

section Bounds

open Intervals

variable [LinearOrder G]

/-- The completed episodes as intervals of the measure. -/
def spans (measure : R → G) (ledger : Ledger R) : List (G × G) :=
  ledger.closed.map fun episode => (measure episode.1, measure episode.2)

/-- All that was measured lies between two values: the completed episodes follow each
other, and after them the open one, from its start to its last lap. -/
structure Within (measure : R → G) (first last : G) (ledger : Ledger R) : Prop where
  closed : Consecutive first last (ledger.spans measure)
  opened : ∀ start lap, ledger.opened = some (start, lap) →
    Consecutive first (measure start) (ledger.spans measure) ∧
      measure start ≤ measure lap ∧ measure lap ≤ last

variable {measure : R → G} {first last : G} {ledger : Ledger R}

theorem within_empty (h : first ≤ last) : Within measure first last (empty : Ledger R) :=
  ⟨.nil h, fun _ _ hopen => by simp [empty] at hopen⟩

/-- One operation with a reading that has not decreased. -/
theorem Within.step (h : Within measure first last ledger) (op : Op R)
    (hle : last ≤ measure op.reading) :
    Within measure first (measure op.reading) (ledger.step op) := by
  cases op with
  | start reading =>
      refine ⟨h.closed.mono hle, fun start lap hopen => ?_⟩
      cases hopen
      exact ⟨h.closed.mono hle, le_rfl, le_rfl⟩
  | lap reading =>
      refine ⟨h.closed.mono hle, fun _ _ hopen => ?_⟩
      obtain ⟨⟨start, lap⟩, hepisode, heq⟩ := Option.map_eq_some_iff.mp hopen
      cases heq
      obtain ⟨hbefore, hproper, hlast⟩ := h.opened start lap hepisode
      exact ⟨hbefore, hproper.trans (hlast.trans hle), le_rfl⟩
  | stop reading =>
      refine ⟨?_, fun _ _ hopen => by simp [Ledger.step] at hopen⟩
      cases hepisode : ledger.opened with
      | none =>
          have hsame : (ledger.step (.stop reading)).spans measure = ledger.spans measure := by
            simp [Ledger.step, spans, hepisode]
          rw [hsame]
          exact h.closed.mono hle
      | some episode =>
          obtain ⟨start, lap⟩ := episode
          obtain ⟨hbefore, hproper, hlast⟩ := h.opened start lap hepisode
          have hmore : (ledger.step (.stop reading)).spans measure =
              ledger.spans measure ++ [(measure start, measure reading)] := by
            simp [Ledger.step, spans, hepisode]
          rw [hmore]
          exact hbefore.concat (hproper.trans (hlast.trans hle))

/-- What lies within a time lies within a longer one. -/
theorem Within.mono (h : Within measure first last ledger) {later : G} (hle : last ≤ later) :
    Within measure first later ledger := by
  refine ⟨h.closed.mono hle, fun start lap hopen => ?_⟩
  obtain ⟨hbefore, hproper, hlap⟩ := h.opened start lap hopen
  exact ⟨hbefore, hproper, hlap.trans hle⟩

/-- **A sequence of operations whose readings never decrease.** -/
theorem Within.foldl {ops : List (Op R)} {stop : G} (h : Within measure first last ledger)
    (hafter : ∀ op ∈ ops, last ≤ measure op.reading)
    (hsorted : ops.Pairwise fun earlier later => measure earlier.reading ≤ measure later.reading)
    (hbefore : ∀ op ∈ ops, measure op.reading ≤ stop) (hle : last ≤ stop) :
    Within measure first stop (ops.foldl Ledger.step ledger) := by
  induction ops generalizing ledger last with
  | nil => exact h.mono hle
  | cons op ops ih =>
      rw [List.forall_mem_cons] at hafter hbefore
      rw [List.pairwise_cons] at hsorted
      rw [List.foldl_cons]
      exact ih (h.step op hafter.1) hsorted.1 hsorted.2 hbefore.2 hbefore.1

variable [AddCommGroup G] [IsOrderedAddMonoid G]

/-- **What a ledger comes to lies between nothing and the whole.** -/
theorem Within.total_bounds (h : Within measure first last ledger) :
    0 ≤ ledger.total measure ∧ ledger.total measure ≤ last - first := by
  have hclosed : (ledger.closed.map fun episode => measure episode.2 - measure episode.1).sum =
      lengths (ledger.spans measure) := by
    rw [lengths, spans, List.map_map]
    rfl
  rw [total, hclosed]
  cases hepisode : ledger.opened with
  | none =>
      rw [Option.elim_none, add_zero]
      exact ⟨h.closed.lengths_nonneg, h.closed.lengths_le⟩
  | some episode =>
      obtain ⟨start, lap⟩ := episode
      obtain ⟨hbefore, hproper, hlast⟩ := h.opened start lap hepisode
      have hlength := (hbefore.concat hproper).mono hlast
      rw [Option.elim_some]
      have hsum := lengths_concat (ledger.spans measure) (measure start, measure lap)
      rw [← hsum]
      exact ⟨hlength.lengths_nonneg, hlength.lengths_le⟩

end Bounds

end Ledger

/-! ## The meter -/

/-- The running total and the reading it was last re-based to. -/
structure Meter (G : Type v) where
  total : G
  base : G

namespace Meter

variable [AddCommGroup G]

/-- What each operation does to the meter: a start re-bases it, a lap adds the
distance from the base and re-bases, a stop adds the distance and leaves the
base where it is. -/
def step (meter : Meter G) : Op G → Meter G
  | .start reading => { meter with base := reading }
  | .lap reading => ⟨meter.total + (reading - meter.base), reading⟩
  | .stop reading => { meter with total := meter.total + (reading - meter.base) }

/-- The meter carries the ledger: same total, and while an episode is open the
base is the reading of its last lap. -/
structure Carries (measure : R → G) (meter : Meter G) (ledger : Ledger R) : Prop where
  total_eq : meter.total = ledger.total measure
  base_eq : ∀ first last, ledger.opened = some (first, last) → meter.base = measure last

variable {measure : R → G} {meter : Meter G} {ledger : Ledger R}

theorem carries_empty (base : G) : Carries measure ⟨0, base⟩ (Ledger.empty : Ledger R) :=
  ⟨by simp, fun _ _ h => by simp [Ledger.empty] at h⟩

/-- **The meter keeps carrying the ledger** as long as the watch is used
properly. -/
theorem Carries.step (h : Carries measure meter ledger) (op : Op R)
    (hallow : ledger.Allows op) :
    Carries measure (meter.step (op.map measure)) (ledger.step op) := by
  cases op with
  | start reading =>
      refine ⟨?_, fun first last hopen => ?_⟩
      · rw [Ledger.total_step_start measure ledger reading hallow]
        exact h.total_eq
      · simp only [Ledger.step, Option.some.injEq, Prod.mk.injEq] at hopen
        rw [← hopen.2]
        rfl
  | lap reading =>
      obtain ⟨⟨first, last⟩, hopen⟩ := Option.ne_none_iff_exists'.mp hallow
      refine ⟨?_, fun first' last' hopen' => ?_⟩
      · rw [Ledger.total_step_lap measure ledger reading hopen, ← h.base_eq _ _ hopen,
          ← h.total_eq]
        rfl
      · simp only [Ledger.step, hopen, Option.map_some, Option.some.injEq,
          Prod.mk.injEq] at hopen'
        rw [← hopen'.2]
        rfl
  | stop reading =>
      obtain ⟨⟨first, last⟩, hopen⟩ := Option.ne_none_iff_exists'.mp hallow
      refine ⟨?_, fun first' last' hopen' => by simp [Ledger.step] at hopen'⟩
      rw [Ledger.total_step_stop measure ledger reading hopen, ← h.base_eq _ _ hopen,
        ← h.total_eq]
      rfl

end Meter

end Stopwatch
