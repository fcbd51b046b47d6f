import Mathlib.Data.Int.Order.Basic
import Mathlib.Data.List.Induction
import Mathlib.Tactic.Linarith
import Mathlib.Logic.Function.Basic

/-!
# The caliper points of the Pathscale instrumentation

A program unit compiled with the Pathscale instrumentation asks once for the
points of its loops and once for those of its calls, and `pathscale.c` hands
them out from `total_points`, the first point of the thread that is still free.
The capacity check only looks at the count of the request, and the point of an
entry is computed from `total_points` plus the *index* of the entry.  So a
second request for one array, which the code prepares for with `realloc`, skips
points, and the next request gets them again.

What holds is said in one invariant, `OwnPoints`: every point lies below the
mark and inside the table, and no two entries share one.

## Main results

* `PointArray.point?_extend`: what an initialisation leaves in an array.
* `points_distinct_of_sound`: while every initialisation is sound the points differ.

## Design notes

The two initialisations are the same code on two arrays and gates, and one definition with
the kind as its parameter.  The counts are those of the source, an `int` each, so the mark
can wrap.  An initialisation is sound if it hands out no point, or is the first for its array
and leaves the mark an `int`; the property is about runs of sound ones.
-/

namespace Papiex

namespace Pathscale

/-- The value a C `int` keeps of a sum. -/
def int32 (n : ℤ) : ℤ := Int.bmod n (2 ^ 32)

theorem int32_of_range {n : ℤ} (hlow : -2 ^ 31 ≤ n) (hhigh : n < 2 ^ 31) : int32 n = n :=
  Int.bmod_eq_of_le (by omega) (by omega)

/-- The two arrays of a program unit. -/
inductive PointKind where
  | loops
  | calls
  deriving DecidableEq

/-- The bit of `papiex_pathscale_enable` that opens the hooks of an array:
`PATHSCALE_LOOPS` and `PATHSCALE_FUNCS`. -/
def PointKind.gate : PointKind → ℕ
  | .loops => 1
  | .calls => 2

/-- One array of a program unit with its count.  An entry that was allocated and
never written is `none`. -/
structure PointArray where
  num : ℤ
  entries : List (Option ℤ)

/-- The entry at an index, if one was written there. -/
def PointArray.point? (array : PointArray) (i : ℕ) : Option ℤ := array.entries[i]?.join

/-- Write an entry. -/
def PointArray.write (array : PointArray) (id : ℕ) (point : ℤ) : PointArray :=
  { array with entries := array.entries.set id (some point) }

theorem PointArray.point?_write {array : PointArray} {id : ℕ} {old : ℤ}
    (hold : array.point? id = some old) (point : ℤ) (i : ℕ) :
    (array.write id point).point? i = if i = id then some point else array.point? i := by
  have hlt : id < array.entries.length := by
    by_contra hbeyond
    rw [point?, List.getElem?_eq_none (not_lt.mp hbeyond)] at hold
    cases hold
  unfold point? write
  by_cases hi : i = id
  · rw [hi, if_pos rfl, List.getElem?_set_self hlt, Option.join_some]
  · rw [if_neg hi, List.getElem?_set_ne (Ne.symm hi)]

/-- The arrays of a `pathscale_pu_t`. -/
structure PathscalePu where
  loops : PointArray
  calls : PointArray

namespace PathscalePu

/-- The handle `__profile_pu_init` returns. -/
def fresh : PathscalePu := ⟨⟨0, []⟩, ⟨0, []⟩⟩

/-- The array of a kind. -/
def array (pu : PathscalePu) : PointKind → PointArray
  | .loops => pu.loops
  | .calls => pu.calls

/-- Put an array back into the unit. -/
def setArray (pu : PathscalePu) (new : PointArray) : PointKind → PathscalePu
  | .loops => { pu with loops := new }
  | .calls => { pu with calls := new }

@[simp] theorem array_fresh (kind : PointKind) : fresh.array kind = ⟨0, []⟩ := by
  cases kind <;> rfl

theorem array_setArray (pu : PathscalePu) (new : PointArray) (kind other : PointKind) :
    (pu.setArray new kind).array other = if other = kind then new else pu.array other := by
  cases kind <;> cases other <;> rfl

end PathscalePu

variable {ι : Type*} [DecidableEq ι]

/-- The points of one thread: `total_points` and the arrays of the program units. -/
structure Points (ι : Type*) where
  totalPoints : ℤ
  units : ι → PathscalePu

namespace Points

/-- Before any initialisation. -/
def start : Points ι := ⟨1, fun _ => .fresh⟩

/-- The array of a unit. -/
def array (s : Points ι) (pu : ι) (kind : PointKind) : PointArray := (s.units pu).array kind

/-- Change one array of one unit. -/
def setArray (s : Points ι) (pu : ι) (kind : PointKind) (new : PointArray) : Points ι :=
  { s with units := Function.update s.units pu ((s.units pu).setArray new kind) }

@[simp] theorem totalPoints_setArray (s : Points ι) (pu : ι) (kind : PointKind)
    (new : PointArray) : (s.setArray pu kind new).totalPoints = s.totalPoints := rfl

theorem array_setArray (s : Points ι) (pu : ι) (kind : PointKind) (new : PointArray)
    (other : ι) (otherKind : PointKind) :
    (s.setArray pu kind new).array other otherKind =
      if other = pu ∧ otherKind = kind then new else s.array other otherKind := by
  by_cases hpu : other = pu
  · subst hpu
    simp [array, setArray, PathscalePu.array_setArray]
  · simp [array, setArray, hpu]

@[simp] theorem array_setArray_self (s : Points ι) (pu : ι) (kind : PointKind)
    (new : PointArray) : (s.setArray pu kind new).array pu kind = new := by
  rw [array_setArray, if_pos ⟨rfl, rfl⟩]

theorem array_setArray_of_ne (s : Points ι) {pu other : ι} {kind otherKind : PointKind}
    (new : PointArray) (hne : ¬ (other = pu ∧ otherKind = kind)) :
    (s.setArray pu kind new).array other otherKind = s.array other otherKind := by
  rw [array_setArray, if_neg hne]

/-- An array put in the place of one with the same count and no other entries. -/
theorem setArray_shrinks {s : Points ι} {pu : ι} {kind : PointKind} {new : PointArray}
    (hnum : new.num = (s.array pu kind).num)
    (hpoint : ∀ i point, new.point? i = some point →
      (s.array pu kind).point? i = some point) :
    (∀ other otherKind, ((s.setArray pu kind new).array other otherKind).num =
        (s.array other otherKind).num) ∧
      ∀ other otherKind i point,
        ((s.setArray pu kind new).array other otherKind).point? i = some point →
          (s.array other otherKind).point? i = some point := by
  constructor
  · intro other otherKind
    rw [array_setArray]
    split
    · rename_i hslot
      rw [hslot.1, hslot.2, hnum]
    · rfl
  · intro other otherKind i point hp
    rw [array_setArray] at hp
    split at hp
    · rename_i hslot
      rw [hslot.1, hslot.2]
      exact hpoint i point hp
    · exact hp

end Points

/-! ## The two initialisations -/

/-- The array after a successful `realloc` and the loop that fills it:
`for (i=num;i<num+count;i++) array[i] = -(total_points+i)`. -/
def PointArray.extend (totalPoints : ℤ) (count : ℕ) (array : PointArray) : PointArray where
  num := int32 (array.num + count)
  entries := (List.range (int32 (array.num + count)).toNat).map fun i : ℕ =>
    if (i : ℤ) < array.num then array.point? i else some (int32 (-int32 (totalPoints + i)))

/-- **What the loop of an initialisation leaves in the array**: new points are negative, and the
old ones stay. -/
theorem PointArray.point?_extend (totalPoints : ℤ) (count : ℕ) (array : PointArray) (i : ℕ) :
    (array.extend totalPoints count).point? i =
      if (i : ℤ) < int32 (array.num + count) then
        if (i : ℤ) < array.num then array.point? i
        else some (int32 (-int32 (totalPoints + i)))
      else none := by
  have hlt : i < (int32 (array.num + count)).toNat ↔ (i : ℤ) < int32 (array.num + count) := by
    omega
  by_cases h : (i : ℤ) < int32 (array.num + count)
  · rw [if_pos h, PointArray.point?, PointArray.extend]
    simp [hlt.mpr h]
  · rw [if_neg h, PointArray.point?, PointArray.extend]
    simp [hlt, h]

/-- Asked for no more entries, an array keeps those it has. -/
theorem PointArray.extend_zero (totalPoints : ℤ) {array : PointArray} (hnonneg : 0 ≤ array.num)
    (hlt : array.num < 2 ^ 31) :
    (array.extend totalPoints 0).num = array.num ∧
      ∀ i point, (array.extend totalPoints 0).point? i = some point →
        array.point? i = some point := by
  have hnum : int32 (array.num + (0 : ℕ)) = array.num := by
    rw [Nat.cast_zero, add_zero]
    exact int32_of_range (by omega) hlt
  refine ⟨hnum, fun i point hp => ?_⟩
  rw [PointArray.point?_extend, hnum] at hp
  by_cases hi : (i : ℤ) < array.num
  · rwa [if_pos hi, if_pos hi] at hp
  · rw [if_neg hi] at hp
    cases hp

/-- An empty array receives the points from the mark on, negated. -/
theorem PointArray.extend_empty {totalPoints : ℤ} {count : ℕ} {array : PointArray}
    (hnum : array.num = 0) (hone : 1 ≤ totalPoints) (hlt : totalPoints + count < 2 ^ 31) :
    (array.extend totalPoints count).num = count ∧
      ∀ i, (array.extend totalPoints count).point? i =
        if i < count then some (-(totalPoints + i)) else none := by
  have hcount : int32 (array.num + count) = count := by
    rw [hnum, zero_add]
    exact int32_of_range (by omega) (by omega)
  refine ⟨hcount, fun i => ?_⟩
  rw [PointArray.point?_extend, hcount, hnum]
  by_cases hi : i < count
  · have hmark : int32 (totalPoints + i) = totalPoints + i :=
      int32_of_range (by omega) (by omega)
    rw [if_pos hi, if_pos (by omega), if_neg (by omega), hmark,
      int32_of_range (by omega) (by omega)]
  · rw [if_neg hi, if_neg (by omega)]

/-- What both initialisations do with the calipers of the thread at hand.
`allocated` says what `realloc` did; when it fails its `NULL` replaces the
array, and the count stays. -/
def profileInit (kind : PointKind) (enable : ℕ) (maxCaliperEntries : ℤ) (pu : ι) (count : ℕ)
    (allocated : Bool) (s : Points ι) : Points ι :=
  if enable &&& kind.gate = 0 then s
  else if maxCaliperEntries < int32 (s.totalPoints + count) then s
  else if allocated then
    { s.setArray pu kind ((s.array pu kind).extend s.totalPoints count) with
      totalPoints := int32 (s.totalPoints + count) }
  else s.setArray pu kind { s.array pu kind with entries := [] }

/-- `__profile_loop_init`. -/
def profileLoopInit (enable : ℕ) (maxCaliperEntries : ℤ) (pu : ι) (numLoops : ℕ)
    (allocated : Bool) (s : Points ι) : Points ι :=
  profileInit .loops enable maxCaliperEntries pu numLoops allocated s

/-- `__profile_call_init`. -/
def profileCallInit (enable : ℕ) (maxCaliperEntries : ℤ) (pu : ι) (numCalls : ℕ)
    (allocated : Bool) (s : Points ι) : Points ι :=
  profileInit .calls enable maxCaliperEntries pu numCalls allocated s

/-- A call of one of the two, with what `realloc` did. -/
structure Init (ι : Type*) where
  kind : PointKind
  pu : ι
  count : ℕ
  allocated : Bool

/-- Execute the call. -/
def Init.exec (enable : ℕ) (maxCaliperEntries : ℤ) (s : Points ι) (init : Init ι) : Points ι :=
  match init.kind with
  | .loops => profileLoopInit enable maxCaliperEntries init.pu init.count init.allocated s
  | .calls => profileCallInit enable maxCaliperEntries init.pu init.count init.allocated s

theorem Init.exec_eq (enable : ℕ) (maxCaliperEntries : ℤ) (s : Points ι) (init : Init ι) :
    init.exec enable maxCaliperEntries s =
      profileInit init.kind enable maxCaliperEntries init.pu init.count init.allocated s := by
  unfold Init.exec
  cases init.kind <;> rfl

/-- What an initialisation does to the mark and the counts only depends on these. -/
theorem Init.exec_congr (enable : ℕ) (maxCaliperEntries : ℤ) {s s' : Points ι}
    (htotal : s.totalPoints = s'.totalPoints)
    (hnum : ∀ pu kind, (s.array pu kind).num = (s'.array pu kind).num) (init : Init ι) :
    (init.exec enable maxCaliperEntries s).totalPoints =
        (init.exec enable maxCaliperEntries s').totalPoints ∧
      ∀ pu kind, ((init.exec enable maxCaliperEntries s).array pu kind).num =
        ((init.exec enable maxCaliperEntries s').array pu kind).num := by
  have hset : ∀ new new' : PointArray, new.num = new'.num → ∀ pu kind,
      ((s.setArray init.pu init.kind new).array pu kind).num =
        ((s'.setArray init.pu init.kind new').array pu kind).num := by
    intro new new' hnew pu kind
    rw [Points.array_setArray, Points.array_setArray]
    split
    · exact hnew
    · exact hnum pu kind
  rw [Init.exec_eq, Init.exec_eq, profileInit, profileInit, htotal]
  split
  · exact ⟨htotal, hnum⟩
  split
  · exact ⟨htotal, hnum⟩
  split
  · refine ⟨rfl, hset _ _ ?_⟩
    simp only [PointArray.extend, hnum]
  · exact ⟨htotal, hset _ _ (hnum init.pu init.kind)⟩

/-- The initialisations one after another. -/
def runInits (enable : ℕ) (maxCaliperEntries : ℤ) (inits : List (Init ι)) : Points ι :=
  inits.foldl (Init.exec enable maxCaliperEntries) Points.start

/-! ## Points of one's own -/

/-- **Every entry has a caliper of its own.**  In absolute values the points are
caliper points of the table other than 0, and different entries have different
ones. -/
structure OwnPoints (maxCaliperEntries : ℤ) (s : Points ι) : Prop where
  range : ∀ pu kind i point, (s.array pu kind).point? i = some point →
    1 ≤ |point| ∧ |point| ≤ maxCaliperEntries - 1
  distinct : ∀ pu kind i point pu' kind' i' point',
    (s.array pu kind).point? i = some point → (s.array pu' kind').point? i' = some point' →
      |point| = |point'| → pu = pu' ∧ kind = kind' ∧ i = i'

/-- The initialisation hands out no point: its hooks are switched off, it asks
for none, the table is too small for it, or there is no memory. -/
def Init.AssignsNothing (enable : ℕ) (maxCaliperEntries : ℤ) (s : Points ι)
    (init : Init ι) : Prop :=
  enable &&& init.kind.gate = 0 ∨ init.count = 0 ∨
    maxCaliperEntries < int32 (s.totalPoints + init.count) ∨ init.allocated = false

/-- Either the initialisation hands out no point, or it is the first for its
array and `total_points` stays an `int`. -/
def Init.Sound (enable : ℕ) (maxCaliperEntries : ℤ) (s : Points ι) (init : Init ι) : Prop :=
  init.AssignsNothing enable maxCaliperEntries s ∨
    (s.array init.pu init.kind).num = 0 ∧ s.totalPoints + init.count < 2 ^ 31

/-- The invariant: the points in use are the entries' own and lie below `total_points`. -/
structure BelowMark (maxCaliperEntries : ℤ) (s : Points ι) : Prop extends
    OwnPoints maxCaliperEntries s where
  one_le : 1 ≤ s.totalPoints
  totalPoints_lt : s.totalPoints < 2 ^ 31
  num_nonneg : ∀ pu kind, 0 ≤ (s.array pu kind).num
  num_lt : ∀ pu kind, (s.array pu kind).num < s.totalPoints
  below : ∀ pu kind i point, (s.array pu kind).point? i = some point → |point| < s.totalPoints

/-- An array without entries receives that many points from the mark on, all still
negative; the other arrays stay. -/
structure Grants (s s' : Points ι) (pu : ι) (kind : PointKind) (granted : ℕ) : Prop where
  totalPoints_eq : s'.totalPoints = s.totalPoints + granted
  num_eq : (s'.array pu kind).num = granted
  point?_eq : ∀ i, (s'.array pu kind).point? i =
    if i < granted then some (-(s.totalPoints + i)) else none
  array_of_ne : ∀ pu' kind', ¬ (pu' = pu ∧ kind' = kind) →
    s'.array pu' kind' = s.array pu' kind'

namespace Grants

variable {s s' : Points ι} {pu pu' : ι} {kind kind' : PointKind} {granted i : ℕ} {point : ℤ}

omit [DecidableEq ι] in
theorem refl (hnum : (s.array pu kind).num = 0)
    (hempty : ∀ i, (s.array pu kind).point? i = none) : Grants s s pu kind 0 where
  totalPoints_eq := (add_zero _).symm
  num_eq := hnum
  point?_eq := hempty
  array_of_ne _ _ _ := rfl

omit [DecidableEq ι] in
/-- A point is one of the new ones or was there before. -/
theorem new_or_old (h : Grants s s' pu kind granted)
    (hpoint : (s'.array pu' kind').point? i = some point) :
    (pu' = pu ∧ kind' = kind) ∧ i < granted ∧ point = -(s.totalPoints + i) ∨
      (s.array pu' kind').point? i = some point := by
  by_cases hslot : pu' = pu ∧ kind' = kind
  · obtain ⟨rfl, rfl⟩ := hslot
    rw [h.point?_eq] at hpoint
    by_cases hi : i < granted
    · rw [if_pos hi] at hpoint
      exact .inl ⟨⟨rfl, rfl⟩, hi, (Option.some.inj hpoint).symm⟩
    · rw [if_neg hi] at hpoint
      cases hpoint
  · rw [h.array_of_ne _ _ hslot] at hpoint
    exact .inr hpoint

end Grants

namespace BelowMark

variable {enable : ℕ} {maxCaliperEntries : ℤ} {s s' : Points ι}

omit [DecidableEq ι] in
/-- With the mark in place, entries may disappear or change their sign. -/
theorem of_abs (h : BelowMark maxCaliperEntries s) (htotal : s'.totalPoints = s.totalPoints)
    (hnum : ∀ pu kind, (s'.array pu kind).num = (s.array pu kind).num)
    (hpoint : ∀ pu kind i point, (s'.array pu kind).point? i = some point →
      ∃ old, (s.array pu kind).point? i = some old ∧ |old| = |point|) :
    BelowMark maxCaliperEntries s' where
  range pu kind i point hp := by
    obtain ⟨old, hold, habs⟩ := hpoint pu kind i point hp
    rw [← habs]
    exact h.range pu kind i old hold
  distinct pu kind i point pu' kind' i' point' hp hp' heq := by
    obtain ⟨old, hold, habs⟩ := hpoint pu kind i point hp
    obtain ⟨old', hold', habs'⟩ := hpoint pu' kind' i' point' hp'
    exact h.distinct pu kind i old pu' kind' i' old' hold hold' (by rw [habs, habs', heq])
  one_le := by rw [htotal]; exact h.one_le
  totalPoints_lt := by rw [htotal]; exact h.totalPoints_lt
  num_nonneg pu kind := by rw [hnum]; exact h.num_nonneg pu kind
  num_lt pu kind := by rw [hnum, htotal]; exact h.num_lt pu kind
  below pu kind i point hp := by
    obtain ⟨old, hold, habs⟩ := hpoint pu kind i point hp
    rw [htotal, ← habs]
    exact h.below pu kind i old hold

/-- An array that receives the points from the mark on, and the mark moved past
them. -/
theorem of_grant (h : BelowMark maxCaliperEntries s) {pu : ι} {kind : PointKind} {count : ℕ}
    {new : PointArray} (hlt : s.totalPoints + count < 2 ^ 31)
    (hroom : s.totalPoints + count ≤ maxCaliperEntries) (hnum : new.num = count)
    (hpoint : ∀ i point, new.point? i = some point →
      i < count ∧ point = -(s.totalPoints + i)) :
    BelowMark maxCaliperEntries
      { s.setArray pu kind new with totalPoints := s.totalPoints + count } := by
  have hone := h.one_le
  -- an entry is either one of the new ones or an old one of another array
  have hcases : ∀ other otherKind i point,
      ((s.setArray pu kind new).array other otherKind).point? i = some point →
        other = pu ∧ otherKind = kind ∧ i < count ∧ |point| = s.totalPoints + i ∨
          (s.array other otherKind).point? i = some point ∧ |point| < s.totalPoints := by
    intro other otherKind i point hp
    rw [Points.array_setArray] at hp
    split at hp
    · rename_i hslot
      obtain ⟨hi, rfl⟩ := hpoint i point hp
      refine .inl ⟨hslot.1, hslot.2, hi, ?_⟩
      rw [abs_neg, abs_of_nonneg (by omega)]
    · exact .inr ⟨hp, h.below _ _ _ _ hp⟩
  refine ⟨⟨?_, ?_⟩, ?_, hlt, ?_, ?_, ?_⟩
  · intro other otherKind i point hp
    rcases hcases other otherKind i point hp with ⟨-, -, hi, habs⟩ | ⟨hold, -⟩
    · omega
    · exact h.range _ _ _ _ hold
  · intro one oneKind i point two twoKind i' point' hp hp' habs
    rcases hcases one oneKind i point hp with ⟨rfl, rfl, hi, hnew⟩ | ⟨hold, hbelow⟩ <;>
      rcases hcases two twoKind i' point' hp' with ⟨rfl, rfl, hi', hnew'⟩ | ⟨hold', hbelow'⟩
    · exact ⟨rfl, rfl, by omega⟩
    · omega
    · omega
    · exact h.distinct _ _ _ _ _ _ _ _ hold hold' habs
  · show 1 ≤ s.totalPoints + count
    omega
  · intro other otherKind
    show 0 ≤ ((s.setArray pu kind new).array other otherKind).num
    rw [Points.array_setArray]
    split
    · omega
    · exact h.num_nonneg other otherKind
  · intro other otherKind
    show ((s.setArray pu kind new).array other otherKind).num < s.totalPoints + count
    rw [Points.array_setArray]
    split
    · omega
    · have := h.num_lt other otherKind
      omega
  · intro other otherKind i point hp
    show |point| < s.totalPoints + count
    rcases hcases other otherKind i point hp with ⟨-, -, hi, habs⟩ | ⟨-, hbelow⟩ <;> omega

/-- An initialisation that hands out no point changes neither the mark nor a count,
and writes no entry. -/
theorem exec_of_assignsNothing (h : BelowMark maxCaliperEntries s) {init : Init ι}
    (hnothing : init.AssignsNothing enable maxCaliperEntries s) :
    (init.exec enable maxCaliperEntries s).totalPoints = s.totalPoints ∧
      (∀ pu kind, ((init.exec enable maxCaliperEntries s).array pu kind).num =
        (s.array pu kind).num) ∧
      ∀ pu kind i point,
        ((init.exec enable maxCaliperEntries s).array pu kind).point? i = some point →
          (s.array pu kind).point? i = some point := by
  rw [Init.exec_eq, profileInit]
  split
  · exact ⟨rfl, fun _ _ => rfl, fun _ _ _ _ hp => hp⟩
  rename_i hgate
  split
  · exact ⟨rfl, fun _ _ => rfl, fun _ _ _ _ hp => hp⟩
  rename_i hroom
  split
  · -- the request was granted, so it was for no entry
    rename_i hallocated
    have hcount : init.count = 0 := by
      rcases hnothing with hoff | hzero | hfull | hfailed
      · exact absurd hoff hgate
      · exact hzero
      · exact absurd hfull hroom
      · rw [hallocated] at hfailed
        cases hfailed
    have hone := h.one_le
    have hlt := h.totalPoints_lt
    obtain ⟨hnum, hpoint⟩ := PointArray.extend_zero s.totalPoints (h.num_nonneg init.pu init.kind)
      ((h.num_lt init.pu init.kind).trans hlt)
    rw [hcount]
    refine ⟨?_, Points.setArray_shrinks hnum hpoint⟩
    rw [Nat.cast_zero, add_zero]
    exact int32_of_range (by omega) hlt
  · -- without memory the entries are gone
    have hgone : ∀ i point, (PointArray.mk (s.array init.pu init.kind).num []).point? i =
        some point → (s.array init.pu init.kind).point? i = some point := by
      simp [PointArray.point?]
    exact ⟨rfl, Points.setArray_shrinks rfl hgone⟩

/-- An initialisation that hands out points fits the table, extends its array from the
mark on and moves the mark past the new points. -/
theorem exec_of_granted (h : BelowMark maxCaliperEntries s) {init : Init ι}
    (hgrants : ¬ init.AssignsNothing enable maxCaliperEntries s)
    (hlt : s.totalPoints + init.count < 2 ^ 31) :
    s.totalPoints + init.count ≤ maxCaliperEntries ∧
      init.exec enable maxCaliperEntries s =
        { s.setArray init.pu init.kind
            ((s.array init.pu init.kind).extend s.totalPoints init.count) with
          totalPoints := s.totalPoints + init.count } := by
  simp only [Init.AssignsNothing, not_or, Bool.not_eq_false] at hgrants
  obtain ⟨hgate, -, hroom, hallocated⟩ := hgrants
  have hone := h.one_le
  have hmark : int32 (s.totalPoints + init.count) = s.totalPoints + init.count :=
    int32_of_range (by omega) hlt
  rw [hmark, not_lt] at hroom
  refine ⟨hroom, ?_⟩
  rw [Init.exec_eq, profileInit, if_neg hgate, hmark, if_neg (not_lt.mpr hroom),
    if_pos hallocated]

/-- **A sound initialisation keeps the points below the mark.** -/
theorem exec (h : BelowMark maxCaliperEntries s) {init : Init ι}
    (hsound : init.Sound enable maxCaliperEntries s) :
    BelowMark maxCaliperEntries (init.exec enable maxCaliperEntries s) := by
  by_cases hnothing : init.AssignsNothing enable maxCaliperEntries s
  · obtain ⟨htotal, hnum, hpoint⟩ := h.exec_of_assignsNothing hnothing
    exact h.of_abs htotal hnum fun pu kind i point hp => ⟨point, hpoint pu kind i point hp, rfl⟩
  · obtain ⟨hfirst, hlt⟩ := hsound.resolve_left hnothing
    obtain ⟨hroom, hexec⟩ := h.exec_of_granted hnothing hlt
    obtain ⟨hnum, hpoint⟩ := PointArray.extend_empty hfirst h.one_le hlt
    rw [hexec]
    refine h.of_grant hlt hroom hnum fun i point hp => ?_
    rw [hpoint] at hp
    by_cases hi : i < init.count
    · rw [if_pos hi, Option.some_inj] at hp
      exact ⟨hi, hp.symm⟩
    · rw [if_neg hi] at hp
      cases hp

/-- What an initialisation does to an array that has no entries yet: it is granted all
the entries it asks for, or none. -/
theorem exec_first (enable : ℕ) (h : BelowMark maxCaliperEntries s) {init : Init ι}
    (hnum : (s.array init.pu init.kind).num = 0)
    (hempty : ∀ i, (s.array init.pu init.kind).point? i = none)
    (hlt : s.totalPoints + init.count < 2 ^ 31) :
    ∃ granted : ℕ, (granted = 0 ∨ enable &&& init.kind.gate ≠ 0 ∧
        s.totalPoints + granted ≤ maxCaliperEntries) ∧
      Grants s (init.exec enable maxCaliperEntries s) init.pu init.kind granted := by
  have hone := h.one_le
  have hmark : int32 (s.totalPoints + init.count) = s.totalPoints + init.count :=
    int32_of_range (by omega) hlt
  rw [Init.exec_eq, profileInit]
  split
  · exact ⟨0, .inl rfl, .refl hnum hempty⟩
  rename_i hgate
  split
  · exact ⟨0, .inl rfl, .refl hnum hempty⟩
  rename_i hroom
  rw [hmark, not_lt] at hroom
  split
  · obtain ⟨hcount, hpoint⟩ := PointArray.extend_empty hnum hone hlt
    refine ⟨init.count, .inr ⟨hgate, hroom⟩, ?_⟩
    constructor
    case totalPoints_eq => exact hmark
    case num_eq =>
      exact (congrArg PointArray.num (Points.array_setArray_self _ _ _ _)).trans hcount
    case point?_eq =>
      intro i
      exact (congrArg (PointArray.point? · i) (Points.array_setArray_self _ _ _ _)).trans
        (hpoint i)
    case array_of_ne => exact fun _ _ hne => Points.array_setArray_of_ne _ _ hne
  · -- without memory the array is empty as before
    refine ⟨0, .inl rfl, ?_⟩
    constructor
    case totalPoints_eq => exact (add_zero _).symm
    case num_eq =>
      rw [Points.array_setArray_self]
      exact hnum
    case point?_eq =>
      intro i
      rw [Points.array_setArray_self]
      rfl
    case array_of_ne => exact fun _ _ hne => Points.array_setArray_of_ne _ _ hne

omit [DecidableEq ι] in
theorem start (maxCaliperEntries : ℤ) :
    BelowMark maxCaliperEntries (Points.start : Points ι) where
  range pu kind i point hp := by simp [Points.array, Points.start, PointArray.point?] at hp
  distinct pu kind i point pu' kind' i' point' hp := by
    simp [Points.array, Points.start, PointArray.point?] at hp
  one_le := le_rfl
  totalPoints_lt := by norm_num [Points.start]
  num_nonneg pu kind := by simp [Points.array, Points.start]
  num_lt pu kind := by simp [Points.array, Points.start]
  below pu kind i point hp := by simp [Points.array, Points.start, PointArray.point?] at hp

end BelowMark

/-! ## Runs -/

/-- The points after sound initialisations lie below the mark. -/
theorem runInits_belowMark {enable : ℕ} {maxCaliperEntries : ℤ} {inits : List (Init ι)}
    (hsound : ∀ front init rest, inits = front ++ init :: rest →
      init.Sound enable maxCaliperEntries (runInits enable maxCaliperEntries front)) :
    BelowMark maxCaliperEntries (runInits enable maxCaliperEntries inits) := by
  induction inits using List.reverseRecOn with
  | nil => exact BelowMark.start maxCaliperEntries
  | append_singleton inits init ih =>
      have hfront := ih fun front other rest hsplit => hsound front other (rest ++ [init]) (by
        rw [hsplit, List.append_assoc, List.cons_append])
      rw [runInits, List.foldl_append, List.foldl_cons, List.foldl_nil]
      exact hfront.exec (hsound inits init [] rfl)

/-- **While every initialisation is sound, every entry has a caliper of its own.**
In a run of `__profile_loop_init` and `__profile_call_init` calls each of which
hands out no point, or is the first for its array and keeps `total_points` an
`int`, the points of all units are in every state pairwise distinct and within
the table. -/
theorem points_distinct_of_sound (enable : ℕ) (maxCaliperEntries : ℤ) (inits : List (Init ι))
    (hsound : ∀ front init rest, inits = front ++ init :: rest →
      init.Sound enable maxCaliperEntries (runInits enable maxCaliperEntries front)) :
    ∀ front rest, inits = front ++ rest →
      OwnPoints maxCaliperEntries (runInits enable maxCaliperEntries front) := by
  intro front rest hsplit
  have hmark : BelowMark maxCaliperEntries (runInits enable maxCaliperEntries front) :=
    runInits_belowMark fun before init after hfront =>
      hsound before init (after ++ rest) (by
        rw [hsplit, hfront, List.append_assoc, List.cons_append])
  exact hmark.toOwnPoints

/-- Two units with their loops and calls, each initialised once. -/
theorem points_distinct_of_sound_once :
    let inits : List (Init Bool) := [⟨.loops, true, 2, true⟩, ⟨.calls, false, 3, true⟩]
    (∀ front init rest, inits = front ++ init :: rest →
      init.Sound 3 32 (runInits 3 32 front)) ∧
      ∀ front rest, inits = front ++ rest → OwnPoints 32 (runInits 3 32 front) := by
  intro inits
  have hsound : ∀ front init rest, inits = front ++ init :: rest →
      init.Sound 3 32 (runInits 3 32 front) := by
    rintro (_ | ⟨first, _ | ⟨second, _ | ⟨third, front⟩⟩⟩) init rest hsplit <;>
      simp only [inits, List.nil_append, List.cons_append, List.cons.injEq, List.nil_eq,
        reduceCtorEq, and_false] at hsplit
    · obtain ⟨rfl, -⟩ := hsplit
      exact .inr ⟨rfl, by decide⟩
    · obtain ⟨rfl, rfl, -⟩ := hsplit
      exact .inr ⟨rfl, by decide⟩
  exact ⟨hsound, points_distinct_of_sound 3 32 inits hsound⟩

/-- **A second initialisation of a unit makes units share calipers.**  It takes the
points 5 and 6 instead of 3 and 4, and the next unit is given 5 and 6 again. -/
theorem points_distinct_repeated :
    ¬ OwnPoints 32 (runInits 3 32 ([⟨.loops, true, 2, true⟩, ⟨.loops, true, 2, true⟩,
      ⟨.loops, false, 2, true⟩] : List (Init Bool))) := by
  intro hown
  have hsame := hown.distinct true .loops 2 (-5) false .loops 0 (-5) rfl rfl rfl
  cases hsame.1

end Pathscale

end Papiex
