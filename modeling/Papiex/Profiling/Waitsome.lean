import Mathlib.Algebra.Order.Group.Int
import Mathlib.Data.List.Nodup
import Papiex.Lib.ArrayLoop

/-!
# The Fortran binding of `MPI_Waitsome`

`mpi_waitsome__` of `mpiwrap_special.c` calls the C wrapper with C handles and brings
back what it has changed.  One loop over the requests does the handles: its first steps
write those of the completed requests, wherever they are, and the steps after them the
handles of the requests that they stand for, unless these have completed.

The conversions of MPI and what the C function returns are parameters.

## Main results

* `Legal.request_eq`: each handle is the one that the C function left.
* `mpi_waitsome_faithful`: the binding brings everything back.

## Design notes

Which step of the loop writes a position, if any does, is read off the indices.  A position
that no step writes keeps its handle, and the C function has not changed that one either.
What it may leave in its arguments is in `WaitsomeOutcome.Legal`.
-/

namespace Papiex

open ArrayLoop

/-- The conversions between the handles of C and of Fortran. -/
structure MpiConversions (Request Status FortranStatus : Type) where
  /-- `MPI_Request_c2f`. -/
  requestC2f : Request → ℤ
  /-- `MPI_Request_f2c`. -/
  requestF2c : ℤ → Request
  /-- `MPI_Status_c2f`. -/
  statusC2f : Status → FortranStatus

/-- What the C `MPI_Waitsome` leaves in its arguments, and returns. -/
structure WaitsomeOutcome (Request Status : Type) where
  rc : ℤ
  requests : ℕ → Request
  outcount : ℤ
  indices : ℕ → ℤ
  statuses : ℕ → Status

/-- The arguments of the Fortran binding that it writes to. -/
structure WaitsomeArguments (FortranStatus : Type) where
  inArrayOfRequests : ℕ → ℤ
  outcount : ℤ
  arrayOfIndices : ℕ → ℤ
  arrayOfStatuses : ℕ → FortranStatus
  ierr : ℤ

variable {Request Status FortranStatus : Type}

namespace WaitsomeOutcome

/-- The search for `i` among the indices. -/
def found (outcome : WaitsomeOutcome Request Status) (i : ℕ) : Bool :=
  (List.range outcome.outcount.toNat).any fun j => outcome.indices j = i

/-- The request that step `i` of the first loop writes. -/
def writtenRequest (outcome : WaitsomeOutcome Request Status) (i : ℕ) : Option ℕ :=
  if i < outcome.outcount then
    if 0 ≤ outcome.indices i then some (outcome.indices i).toNat else none
  else if outcome.found i then none
  else some i

/-- A request has completed. -/
def Completed (outcome : WaitsomeOutcome Request Status) (i : ℕ) : Prop :=
  ∃ k : ℕ, k < outcome.outcount ∧ outcome.indices k = i

end WaitsomeOutcome

/-- Fortran index ranges are from 1, not zero. -/
def fortranIndex (index : ℤ) : ℤ := if 0 ≤ index then index + 1 else index

/-- `mpi_waitsome__`, with what the C function makes of the C handles.  There is no result
if the memory for them is not allocated. -/
def mpiWaitsome (conv : MpiConversions Request Status FortranStatus) (allocated : Bool)
    (waitsome : (ℕ → Request) → WaitsomeOutcome Request Status) (count : ℤ)
    (args : WaitsomeArguments FortranStatus) : Option (WaitsomeArguments FortranStatus) :=
  if allocated then
    let outcome := waitsome fun i => conv.requestF2c (args.inArrayOfRequests i)
    some {
      inArrayOfRequests := (List.range count.toNat).foldl
        (write outcome.writtenRequest fun j => conv.requestC2f (outcome.requests j))
        args.inArrayOfRequests
      outcount := outcome.outcount
      arrayOfIndices := (List.range outcome.outcount.toNat).foldl
        (modify fun _ index => fortranIndex index) outcome.indices
      arrayOfStatuses := (List.range outcome.outcount.toNat).foldl
        (modify fun i _ => conv.statusC2f (outcome.statuses i)) args.arrayOfStatuses
      ierr := outcome.rc }
  else none

/-! ## What MPI promises -/

/-- A legal outcome: the completed requests are some of the requests, each given once, or
`outcount` is negative; the handles of the others are unchanged, and their conversion to C
and back changes nothing. -/
structure WaitsomeOutcome.Legal (conv : MpiConversions Request Status FortranStatus) (count : ℤ)
    (args : WaitsomeArguments FortranStatus) (outcome : WaitsomeOutcome Request Status) :
    Prop where
  outcount_le : outcome.outcount < 0 ∨ outcome.outcount ≤ count
  indices_nonneg : ∀ k : ℕ, k < outcome.outcount → 0 ≤ outcome.indices k
  indices_lt : ∀ k : ℕ, k < outcome.outcount → outcome.indices k < count
  distinct : ∀ k l : ℕ, k < outcome.outcount → l < outcome.outcount →
    outcome.indices k = outcome.indices l → k = l
  unchanged : ∀ i : ℕ, i < count → ¬ outcome.Completed i →
    outcome.requests i = conv.requestF2c (args.inArrayOfRequests i)
  inverse : ∀ i : ℕ, i < count → ¬ outcome.Completed i →
    conv.requestC2f (conv.requestF2c (args.inArrayOfRequests i)) = args.inArrayOfRequests i

/-! ## The handles -/

namespace WaitsomeOutcome

variable {conv : MpiConversions Request Status FortranStatus} {count : ℤ}
variable {args : WaitsomeArguments FortranStatus} {outcome : WaitsomeOutcome Request Status}
variable {i : ℕ}

theorem found_iff : outcome.found i = true ↔ outcome.Completed i := by
  unfold found Completed
  rw [List.any_eq_true]
  constructor
  · rintro ⟨k, hk, heq⟩
    have hlt := List.mem_range.mp hk
    exact ⟨k, by omega, by simpa using heq⟩
  · rintro ⟨k, hk, heq⟩
    exact ⟨k, List.mem_range.mpr (by omega), by simpa using heq⟩

/-- A completed request is written by the step of its position in the list. -/
theorem Legal.written_of_completed (h : outcome.Legal conv count args)
    (hcompleted : outcome.Completed i) :
    ∃ k ∈ List.range count.toNat, outcome.writtenRequest k = some i := by
  obtain ⟨k, hk, heq⟩ := hcompleted
  have hle := h.outcount_le
  refine ⟨k, List.mem_range.mpr (by omega), ?_⟩
  rw [writtenRequest, if_pos hk, if_pos (h.indices_nonneg k hk), heq, Int.toNat_natCast]

/-- A request that has not completed is written by its own step, or by none if this step
is one of the first. -/
theorem written_of_not_completed (hnot : ¬ outcome.Completed i) :
    (∀ k, outcome.writtenRequest k ≠ some i) ∨ outcome.writtenRequest i = some i := by
  by_cases hfirst : (i : ℤ) < outcome.outcount
  · refine .inl fun k hwritten => ?_
    unfold writtenRequest at hwritten
    split_ifs at hwritten with hk' hnonneg hfound
    · have heq : outcome.indices k = i := by
        have := Option.some.inj hwritten
        omega
      exact hnot ⟨k, hk', heq⟩
    · have heq : k = i := Option.some.inj hwritten
      omega
  · have hfound : outcome.found i ≠ true := mt found_iff.mp hnot
    exact .inr (by rw [writtenRequest, if_neg hfirst, if_neg hfound])

/-- **Each request gets the handle of the C request**: it is written, or was right
already. -/
theorem Legal.request_eq (h : outcome.Legal conv count args) (hi : i < count) :
    (List.range count.toNat).foldl
        (write outcome.writtenRequest fun j => conv.requestC2f (outcome.requests j))
        args.inArrayOfRequests i =
      conv.requestC2f (outcome.requests i) := by
  by_cases hcompleted : outcome.Completed i
  · exact foldl_write_of_mem (h.written_of_completed hcompleted)
  · rcases written_of_not_completed hcompleted with hnone | hown
    · rw [foldl_write_of_notMem fun k _ => hnone k, h.unchanged i hi hcompleted,
        h.inverse i hi hcompleted]
    · exact foldl_write_of_mem ⟨i, List.mem_range.mpr (by omega), hown⟩

end WaitsomeOutcome

/-! ## The binding -/

/-- The binding brings back what the C function has returned: the handles of all requests,
the completed indices counted from 1, and the statuses of the completed requests; nothing
else is changed. -/
structure BringsBack (conv : MpiConversions Request Status FortranStatus) (count : ℤ)
    (outcome : WaitsomeOutcome Request Status) (before after : WaitsomeArguments FortranStatus) :
    Prop where
  requests_eq : ∀ i : ℕ, i < count →
    after.inArrayOfRequests i = conv.requestC2f (outcome.requests i)
  outcount_eq : after.outcount = outcome.outcount
  indices_eq : ∀ k : ℕ, k < outcome.outcount → after.arrayOfIndices k = outcome.indices k + 1
  indices_beyond : ∀ k : ℕ, outcome.outcount ≤ k → after.arrayOfIndices k = outcome.indices k
  statuses_eq : ∀ k : ℕ, k < outcome.outcount →
    after.arrayOfStatuses k = conv.statusC2f (outcome.statuses k)
  statuses_beyond : ∀ k : ℕ, outcome.outcount ≤ k →
    after.arrayOfStatuses k = before.arrayOfStatuses k
  ierr_eq : after.ierr = outcome.rc

/-- **The Fortran binding of `MPI_Waitsome` is faithful.**  It returns if there is memory,
and for every legal outcome of the C function it brings back what that has returned. -/
theorem mpi_waitsome_faithful (conv : MpiConversions Request Status FortranStatus)
    (waitsome : (ℕ → Request) → WaitsomeOutcome Request Status) (count : ℤ)
    (args : WaitsomeArguments FortranStatus)
    (hlegal : (waitsome fun i => conv.requestF2c (args.inArrayOfRequests i)).Legal conv count
      args) :
    mpiWaitsome conv false waitsome count args = none ∧
      ∃ after, mpiWaitsome conv true waitsome count args = some after ∧
        BringsBack conv count (waitsome fun i => conv.requestF2c (args.inArrayOfRequests i))
          args after := by
  refine ⟨rfl, _, rfl, ?_⟩
  generalize (waitsome fun i => conv.requestF2c (args.inArrayOfRequests i)) = outcome at *
  have hmem : ∀ k : ℕ, k ∈ List.range outcome.outcount.toNat ↔ (k : ℤ) < outcome.outcount := by
    intro k
    rw [List.mem_range]
    omega
  constructor
  case requests_eq => exact fun i hi => hlegal.request_eq hi
  case outcount_eq => rfl
  case indices_eq =>
    intro k hk
    refine (foldl_modify_of_mem List.nodup_range ((hmem k).mpr hk)).trans ?_
    exact if_pos (hlegal.indices_nonneg k hk)
  case indices_beyond =>
    intro k hk
    exact foldl_modify_of_notMem (mt (hmem k).mp (not_lt.mpr hk))
  case statuses_eq =>
    intro k hk
    exact foldl_modify_of_mem List.nodup_range ((hmem k).mpr hk)
  case statuses_beyond =>
    intro k hk
    exact foldl_modify_of_notMem (mt (hmem k).mp (not_lt.mpr hk))
  case ierr_eq => rfl

/-! ### Three requests -/

/-- Handles are numbers on both sides. -/
def plainHandles : MpiConversions ℕ ℕ ℕ where
  requestC2f request := request
  requestF2c := Int.toNat
  statusC2f status := status

/-- The last of three requests completes, and its handle becomes null. -/
def lastCompletes (requests : ℕ → ℕ) : WaitsomeOutcome ℕ ℕ where
  rc := 0
  requests := Function.update requests 2 0
  outcount := 1
  indices k := if k = 0 then 2 else 0
  statuses _ := 5

/-- The arguments for three requests, the index array not set. -/
def threeRequests : WaitsomeArguments ℕ where
  inArrayOfRequests i := 10 * i + 10
  outcount := 0
  arrayOfIndices _ := -1
  arrayOfStatuses _ := 0
  ierr := 0

/-- The completed request is given as number 3 and becomes null; the others stay, the
first of them without having been written. -/
theorem mpi_waitsome_faithful_three :
    ∃ after, mpiWaitsome plainHandles true lastCompletes 3 threeRequests = some after ∧
      after.inArrayOfRequests 0 = 10 ∧ after.inArrayOfRequests 2 = 0 ∧
      after.arrayOfIndices 0 = 3 ∧ after.arrayOfStatuses 0 = 5 := by
  have hfirst : ∀ k : ℕ, (k : ℤ) < 1 → k = 0 := fun k hk => by omega
  have hlegal : (lastCompletes fun i => plainHandles.requestF2c
      (threeRequests.inArrayOfRequests i)).Legal plainHandles 3 threeRequests := by
    constructor
    case outcount_le => exact .inr (by decide)
    case indices_nonneg =>
      intro k hk
      rw [hfirst k hk]
      decide
    case indices_lt =>
      intro k hk
      rw [hfirst k hk]
      decide
    case distinct => exact fun k l hk hl _ => (hfirst k hk).trans (hfirst l hl).symm
    case unchanged =>
      intro i _ hnot
      have hne : i ≠ 2 := fun heq => hnot ⟨0, by decide, by rw [heq]; rfl⟩
      show Function.update (fun j => plainHandles.requestF2c (threeRequests.inArrayOfRequests j))
        2 0 i = _
      rw [Function.update_of_ne hne]
    case inverse =>
      intro i _ _
      simp only [plainHandles, threeRequests]
      omega
  obtain ⟨-, after, hafter, hback⟩ := mpi_waitsome_faithful plainHandles lastCompletes 3
    threeRequests hlegal
  refine ⟨after, hafter, ?_, ?_, ?_, ?_⟩
  · exact hback.requests_eq 0 (by decide)
  · exact hback.requests_eq 2 (by decide)
  · exact hback.indices_eq 0 (by decide)
  · exact hback.statuses_eq 0 (by decide)

end Papiex
