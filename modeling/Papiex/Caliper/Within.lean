import Papiex.Caliper.Accounting

/-!
# Calipers and their thread

The library itself starts point 0 when a thread is initialised and stops it when the
thread ends.  Whatever is measured at the other points in between is a part of what
is measured at point 0: in every counter that never decreases, and in the cycles, the
episodes of a point follow each other between the two samples of point 0.

## Main results

* `partOf_thread`: what a point measures is a part of what point 0 measures.
* `useRecorded_of_run`, `countsUses_of_run`: which calipers count as used.

## Design notes

Nothing is assumed about what is measured but that the samples do not decrease from call to
call.  The episodes of a point are disjoint intervals between the two samples of point 0,
which is a fact about ledgers; that the percentages are between 0 and 100 follows from it.
-/

namespace Papiex

open Stopwatch

/-- The calls on the record of a thread: those of the program, between the start and
the stop of point 0 by the library. -/
def threadCalls (first : Sampling) (user : List Call) (last : Sampling) : List Call :=
  .start 0 (some []) first :: (user ++ [.stop 0 last])

/-- A quantity that the calls sample never decreases along them. -/
def NeverDecreases (measure : ReadBuffer → ℤ) (calls : List Call) : Prop :=
  calls.Pairwise fun earlier later => measure earlier.io.sampled ≤ measure later.io.sampled

/-- A count that is a part of another. -/
structure PartOf (part whole : ℤ) : Prop where
  nonneg : 0 ≤ part
  le : part ≤ whole

namespace Call

variable {p : ℕ} {user : List Call} {first last : Sampling}

theorem reading_of_opOn {call : Call} {op : Op ReadBuffer} (h : opOn p call = some op) :
    op.reading = call.io.sampled := by
  cases call with
  | start point label io =>
      obtain ⟨-, heq⟩ := Option.ite_none_right_eq_some.mp h
      cases heq
      rfl
  | accum point io =>
      obtain ⟨-, heq⟩ := Option.ite_none_right_eq_some.mp h
      cases heq
      rfl
  | stop point io =>
      obtain ⟨-, heq⟩ := Option.ite_none_right_eq_some.mp h
      cases heq
      rfl

/-- Point 0 has one episode, which is the whole thread. -/
theorem ledgerOf_zero (huser : ∀ call ∈ user, 1 ≤ call.point) :
    ledgerOf 0 (threadCalls first user last) = ⟨[(first.sampled, last.sampled)], none⟩ := by
  have hnone : user.filterMap (opOn 0) = [] := by
    rw [List.filterMap_eq_nil_iff]
    intro call hcall
    apply opOn_of_ne
    have hpoint := huser call hcall
    omega
  have hstart : opOn 0 (.start 0 (some []) first) = some (.start first.sampled) := rfl
  rw [ledgerOf, opsOn, threadCalls, List.filterMap_cons_some hstart, List.filterMap_append, hnone]
  rfl

/-- The other points have the episodes of the program. -/
theorem ledgerOf_pos (hp : 1 ≤ p) :
    ledgerOf p (threadCalls first user last) = ledgerOf p user := by
  have hzero : (0 : ℤ) ≠ p := by omega
  have hstart : opOn p (.start 0 (some []) first) = none := opOn_of_ne hzero
  have hlast : opOn p (.stop 0 last) = none := opOn_of_ne hzero
  have hstop : [Call.stop 0 last].filterMap (opOn p) = [] := by
    rw [List.filterMap_cons_none hlast, List.filterMap_nil]
  rw [ledgerOf, ledgerOf, opsOn, opsOn, threadCalls, List.filterMap_cons_none hstart,
    List.filterMap_append, hstop, List.append_nil]

/-- **What is measured at a point is a part of what is measured at point 0.** -/
theorem partOf_total {measure : ReadBuffer → ℤ} (huser : ∀ call ∈ user, 1 ≤ call.point)
    (hmeasure : NeverDecreases measure (threadCalls first user last)) (hp : 1 ≤ p) :
    PartOf ((ledgerOf p (threadCalls first user last)).total measure)
      ((ledgerOf 0 (threadCalls first user last)).total measure) := by
  obtain ⟨hfirst, hrest⟩ := List.pairwise_cons.mp hmeasure
  obtain ⟨hsorted, -, hlast⟩ := List.pairwise_append.mp hrest
  have hwhole : measure first.sampled ≤ measure last.sampled := hfirst (.stop 0 last) (by simp)
  have hops : ∀ op ∈ user.filterMap (opOn p), ∃ call ∈ user, op.reading = call.io.sampled := by
    intro op hop
    obtain ⟨call, hcall, heq⟩ := List.mem_filterMap.mp hop
    exact ⟨call, hcall, reading_of_opOn heq⟩
  have hwithin : (ledgerOf p user).Within measure (measure first.sampled)
      (measure last.sampled) := by
    refine (Ledger.within_empty le_rfl).foldl ?_ ?_ ?_ hwhole
    · intro op hop
      obtain ⟨call, hcall, heq⟩ := hops op hop
      rw [heq]
      exact hfirst call (List.mem_append_left _ hcall)
    · refine List.pairwise_filterMap.mpr (hsorted.imp fun hle op hop op' hop' => ?_)
      rw [reading_of_opOn hop, reading_of_opOn hop']
      exact hle
    · intro op hop
      obtain ⟨call, hcall, heq⟩ := hops op hop
      rw [heq]
      exact hlast call hcall (.stop 0 last) List.mem_cons_self
  have htotal : (ledgerOf 0 (threadCalls first user last)).total measure =
      measure last.sampled - measure first.sampled := by
    rw [ledgerOf_zero huser]
    simp [Ledger.total]
  rw [ledgerOf_pos hp, htotal]
  exact ⟨hwithin.total_bounds.1, hwithin.total_bounds.2⟩

end Call

/-! ## Runs of a thread -/

variable {cfg : Config} {user : List Call} {first last : Sampling} {final : Option PerthreadData}

/-- **Every point has measured a part of what point 0 has**, in every counter that
never decreases and in the cycles. -/
theorem partOf_thread (hev : cfg.eventcnt ≠ 0) (huser : ∀ call ∈ user, 1 ≤ call.point)
    (hread : ∀ call ∈ threadCalls first user last, call.io.read.Succeeds)
    (hcounters : ∀ i < cfg.eventcnt,
      NeverDecreases (fun sampled => sampled.counters i) (threadCalls first user last))
    (hcyc : NeverDecreases ReadBuffer.realCyc (threadCalls first user last))
    (hrun : FallibleRun.run (Call.exec cfg) (some {}) (threadCalls first user last) = .ok final) :
    ∃ thread, final = some thread ∧ ∀ p, 1 ≤ p → p < maxCalipers →
      (∀ i < cfg.eventcnt, PartOf ((thread.data p).counters i) ((thread.data 0).counters i)) ∧
      PartOf (thread.data p).realCyc (thread.data 0).realCyc := by
  obtain ⟨thread, rfl, hzero⟩ := accounts_of_run hev hread hrun (Nat.succ_pos 31)
  refine ⟨thread, rfl, fun p hp hlt => ?_⟩
  obtain ⟨same, hsame, hpoint⟩ := accounts_of_run hev hread hrun hlt
  cases hsame
  constructor
  · intro i hi
    rw [hpoint.pointAccounted.counters_eq i hi, hzero.pointAccounted.counters_eq i hi]
    exact Call.partOf_total huser (hcounters i hi) hp
  · rw [hpoint.pointAccounted.realCyc_eq, hzero.pointAccounted.realCyc_eq]
    exact Call.partOf_total huser hcyc hp

/-- What point 0 has counted is what the thread was sampled with at its end less what
it was sampled with at its start. -/
theorem counters_zero (hev : cfg.eventcnt ≠ 0) (huser : ∀ call ∈ user, 1 ≤ call.point)
    (hread : ∀ call ∈ threadCalls first user last, call.io.read.Succeeds)
    {thread : PerthreadData}
    (hrun : FallibleRun.run (Call.exec cfg) (some {}) (threadCalls first user last) =
      .ok (some thread)) {i : ℕ} (hi : i < cfg.eventcnt) :
    (thread.data 0).counters i = last.sampled.counters i - first.sampled.counters i := by
  obtain ⟨same, hsame, hzero⟩ := accounts_of_run hev hread hrun (Nat.succ_pos 31)
  cases hsame
  rw [hzero.pointAccounted.counters_eq i hi, Call.ledgerOf_zero huser]
  simp [Ledger.total]

/-! ## Used calipers -/

/-- The call ends a measurement at point `p`: each accum and each stop counts one. -/
def Call.Measures (p : ℕ) : Call → Prop
  | .start _ _ _ => False
  | .accum point _ => point = p
  | .stop point _ => point = p

theorem Call.Measures.point_eq {p : ℕ} {call : Call} (h : call.Measures p) :
    call.point = p := by
  cases call with
  | start => exact h.elim
  | accum => exact h
  | stop => exact h

/-- A call that ends a measurement at its point counts one use more there. -/
theorem Call.apply_used (cfg : Config) (thread : PerthreadData) {call : Call} {p : ℕ}
    (hpoint : call.point = p) :
    call.Measures p ∧ ((call.apply cfg thread).data p).used =
        Binary32.round ((thread.data p).used + 1) ∨
      ¬ call.Measures p ∧ ((call.apply cfg thread).data p).used = (thread.data p).used := by
  cases call with
  | start point label io =>
      cases hpoint
      exact .inr ⟨id, by simp [apply, PerthreadData.startPoint]⟩
  | accum point io =>
      cases hpoint
      exact .inl ⟨rfl, by simp [apply, PerthreadData.accumPoint]⟩
  | stop point io =>
      cases hpoint
      exact .inl ⟨rfl, by simp [apply, PerthreadData.stopPoint]⟩

/-- What a call makes of the number of uses of its own point. -/
theorem Call.apply_used_pos_iff (cfg : Config) (thread : PerthreadData) {call : Call} {p : ℕ}
    (hpoint : call.point = p) (hused : 0 ≤ (thread.data p).used) :
    0 ≤ ((call.apply cfg thread).data p).used ∧
      (0 < ((call.apply cfg thread).data p).used ↔
        0 < (thread.data p).used ∨ call.Measures p) := by
  rcases Call.apply_used cfg thread hpoint with ⟨hmeasures, hmore⟩ | ⟨hnot, hsame⟩
  · have hround : 0 < Binary32.round ((thread.data p).used + 1) :=
      Binary32.round_pos (by linarith)
    rw [hmore]
    exact ⟨hround.le, iff_of_true hround (.inr hmeasures)⟩
  · rw [hsame]
    exact ⟨hused, (or_iff_left hnot).symm⟩

/-- The record of point `p` says whether one of the calls seen has measured at it. -/
def UseRecorded (p : ℕ) (tls : Option PerthreadData) (seen : List Call) : Prop :=
  ∃ thread, tls = some thread ∧ thread.maxCaliperEntries = maxCalipers ∧
    0 ≤ (thread.data p).used ∧ (0 < (thread.data p).used ↔ ∃ call ∈ seen, call.Measures p)

theorem useRecorded_nil (p : ℕ) : UseRecorded p (some {}) [] :=
  ⟨{}, rfl, rfl, le_rfl, by simp⟩

/-- One call: a point is on record as used once it was measured. -/
theorem UseRecorded.exec (hev : cfg.eventcnt ≠ 0) {p : ℕ} (hp : p < maxCalipers)
    {before after : Option PerthreadData} {seen : List Call} {call : Call}
    (h : UseRecorded p before seen) (hexec : call.exec cfg before = .ok after) :
    UseRecorded p after (seen ++ [call]) := by
  obtain ⟨thread, rfl, hentries, hused, hiff⟩ := h
  have hlowest := call.lowest_nonneg
  have hmore : (∃ other ∈ seen ++ [call], other.Measures p) ↔
      0 < (thread.data p).used ∨ call.Measures p := by
    rw [hiff]
    simp [or_and_right, exists_or]
  obtain ⟨hlow, ⟨hbeyond, rfl⟩ | ⟨-, -, rfl⟩⟩ := (Call.exec_eq_ok_iff hev).mp hexec
  · refine ⟨thread, rfl, hentries, hused, ?_⟩
    have hnot : ¬ call.Measures p := fun h => by
      have := h.point_eq
      omega
    rw [hmore]
    simp [hnot]
  · refine ⟨call.apply cfg thread, rfl, by simpa using hentries, ?_⟩
    rw [hmore]
    by_cases hpoint : call.point = p
    · exact call.apply_used_pos_iff cfg thread hpoint hused
    · have hnot : ¬ call.Measures p := fun h => hpoint h.point_eq
      rw [Call.apply_data_of_ne cfg thread call (by omega)]
      exact ⟨hused, by simp [hnot]⟩

/-- The points that were measured are those on record as used. -/
theorem useRecorded_of_run (hev : cfg.eventcnt ≠ 0) {calls : List Call}
    (hrun : FallibleRun.run (Call.exec cfg) (some {}) calls = .ok final) {p : ℕ}
    (hp : p < maxCalipers) : UseRecorded p final calls := by
  have hsim := FallibleRun.run_simulation (UseRecorded p) (fun seen call => seen ++ [call])
    (fun call _ before after seen hrel hexec => hrel.exec hev hp hexec) (useRecorded_nil p) hrun
  rwa [FallibleRun.foldl_concat, List.nil_append] at hsim

/-- The numbers of uses are whole, and no more than a `float` can count. -/
def CountsUses (tls : Option PerthreadData) : Prop :=
  ∃ thread, tls = some thread ∧ ∀ p, ∃ n : ℕ, n ≤ 2 ^ 24 ∧ (thread.data p).used = n

/-- One call: a `float` holds the number of uses, which stops at `2 ^ 24`. -/
theorem CountsUses.exec (hev : cfg.eventcnt ≠ 0) {before after : Option PerthreadData}
    {call : Call} (h : CountsUses before) (hexec : call.exec cfg before = .ok after) :
    CountsUses after := by
  obtain ⟨thread, rfl, hwhole⟩ := h
  have hlowest := call.lowest_nonneg
  obtain ⟨hlow, ⟨-, rfl⟩ | ⟨-, -, rfl⟩⟩ := (Call.exec_eq_ok_iff hev).mp hexec
  · exact ⟨thread, rfl, hwhole⟩
  · refine ⟨call.apply cfg thread, rfl, fun p => ?_⟩
    obtain ⟨n, hn, hused⟩ := hwhole p
    by_cases hpoint : call.point = p
    · rcases Call.apply_used cfg thread hpoint with ⟨-, hmore⟩ | ⟨-, hsame⟩
      · obtain ⟨m, hm, hround⟩ := Binary32.round_natCast_succ hn
        exact ⟨m, hm, by rw [hmore, hused, hround]⟩
      · exact ⟨n, hn, hsame.trans hused⟩
    · rw [Call.apply_data_of_ne cfg thread call (by omega)]
      exact ⟨n, hn, hused⟩

/-- After every run a `float` holds the numbers of uses. -/
theorem countsUses_of_run (hev : cfg.eventcnt ≠ 0) {calls : List Call}
    (hrun : FallibleRun.run (Call.exec cfg) (some {}) calls = .ok final) : CountsUses final :=
  FallibleRun.run_invariant CountsUses (fun _ _ _ _ h hexec => h.exec hev hexec)
    ⟨{}, rfl, fun _ => ⟨0, Nat.zero_le _, Nat.cast_zero.symm⟩⟩ hrun

end Papiex
