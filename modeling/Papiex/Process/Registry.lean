import Papiex.Lib.Cells
import Papiex.Lib.FallibleRun
import Papiex.Process.State

/-!
# The table of threads

`all_threads` is two arrays, one with the numbers of the threads and one with their
records.  `papiex_process_init_routine` allocates both, and every thread enters itself
under a lock, doubling both when the next entry would fill them.  Here the arrays are
blocks of memory with a size of their own, a write outside a block is a failure, and a
request for memory can be refused, which ends the process.

The threads that entered themselves are a list.  What holds along a run is that the front
cells of both arrays are filled with this list (`ThreadTable.Holds`), and that there is
one cell more.  So the table is the list of entries that a process is modelled with.

## Main results

* `register_cases`: a registration appends an entry, or the process exits.
* `registry_grows`: the arrays hold all entries, however often they are resized.
* `registerThread_refines`: so the model of the process may keep them as a list.

## Design notes

The number of entries is an `int` and the size of a request a `size_t`, so a table of many
entries could ask for less memory than it needs; a request is granted only below
`PTRDIFF_MAX`, and this rules it out.  The doubling comes before the entry and keeps one
cell more than is filled, also in a forked child, which inherits the table as it was.
-/

namespace Papiex

universe u v

/-- What a thread brings to the locked section: its number, its record, and whether its
requests for memory are granted, should it make them. -/
structure Registration (ι : Type u) (δ : Type v) where
  tid : ι
  thread : δ
  grants : Bool × Bool

/-- The entry of a thread. -/
def Registration.entry {ι : Type u} {δ : Type v} (reg : Registration ι δ) : ι × δ :=
  (reg.tid, reg.thread)

/-- `all_threads`, and `all_threads_size`. -/
structure ThreadTable (ι : Type u) (δ : Type v) where
  id : List (Option ι)
  data : List (Option δ)
  num : ℤ
  size : ℤ

/-- Why there is no table any more: the process exits for want of memory, or something is
written outside an array. -/
inductive RegistryStop where
  | noMemory
  | outsideArray
  deriving DecidableEq

namespace ThreadTable

variable {ι : Type u} {δ : Type v}

/-- The value of an `int`. -/
def asInt (n : ℤ) : ℤ := Int.bmod n (2 ^ 32)

/-- The bytes for a number of entries, each of which is eight bytes in both arrays.  The
number is an `int` and the product a `size_t`. -/
def requestBytes (n : ℤ) : ℕ := (n * 8 % 2 ^ 64).toNat

/-- A request is granted only if it is below `PTRDIFF_MAX`. -/
def granted (n : ℤ) (grant : Bool) : Bool := grant && requestBytes n < 2 ^ 63

/-- `realloc` of both arrays. -/
def reallocBoth (table : ThreadTable ι δ) (n : ℤ) (grants : Bool × Bool) :
    Except RegistryStop (ThreadTable ι δ) :=
  if granted n grants.1 && granted n grants.2 then
    .ok { table with
      id := Cells.realloc table.id (requestBytes n / 8)
      data := Cells.realloc table.data (requestBytes n / 8) }
  else .error .noMemory

/-- The doubling of the arrays, if the next entry would fill them. -/
def makeRoom (table : ThreadTable ι δ) (grants : Bool × Bool) :
    Except RegistryStop (ThreadTable ι δ) :=
  if table.size ≤ asInt (table.num + 1) then
    match table.reallocBoth (asInt (table.size * 2)) grants with
    | .error stop => .error stop
    | .ok grown => .ok { grown with size := asInt (table.size * 2) }
  else .ok table

/-- The locked section of `papiex_thread_init_routine`. -/
def register (table : ThreadTable ι δ) (reg : Registration ι δ) :
    Except RegistryStop (ThreadTable ι δ) :=
  match table.makeRoom reg.grants with
  | .error stop => .error stop
  | .ok table =>
      match Cells.store table.id table.num reg.tid, Cells.store table.data table.num reg.thread with
      | some id, some data => .ok { table with id, data, num := asInt (table.num + 1) }
      | _, _ => .error .outsideArray

/-- The end of `papiex_process_init_routine`: the arrays get their size, and the main
thread enters itself. -/
def processInit (table : ThreadTable ι δ) (grants : Bool × Bool) (main : Registration ι δ) :
    Except RegistryStop (ThreadTable ι δ) :=
  match table.reallocBoth table.size grants with
  | .error stop => .error stop
  | .ok table => table.register main

/-- The thread initialisations of a process, in the order in which the threads come to
the locked section. -/
def initialisations (table : ThreadTable ι δ) (grants : Bool × Bool) (main : Registration ι δ)
    (threads : List (Registration ι δ)) : Except RegistryStop (ThreadTable ι δ) :=
  match table.processInit grants main with
  | .error stop => .error stop
  | .ok table => FallibleRun.run register table threads

/-- What `init_library_globals` leaves. -/
def afterInitLibraryGlobals : ThreadTable ι δ where
  id := []
  data := []
  num := 0
  size := papiexInitThreads

/-- The tables that `papiex_process_init_routine` can find, with the entries in them: that
of a new process, and in a forked child what was entered before the fork. -/
inductive Found : ThreadTable ι δ → List (ι × δ) → Prop where
  | newProcess : Found afterInitLibraryGlobals []
  | forked {table child : ThreadTable ι δ} {inherited : List (ι × δ)} {grants : Bool × Bool}
      {main : Registration ι δ} {threads : List (Registration ι δ)} (h : Found table inherited)
      (hrun : table.initialisations grants main threads = .ok child) :
      Found child (inherited ++ (main :: threads).map Registration.entry)

/-! ## Entries -/

/-- The front cells of both arrays hold these entries, and at least one more entry is
counted for. -/
structure Ready (table : ThreadTable ι δ) (entries : List (ι × δ)) : Prop where
  num : table.num = entries.length
  room : table.num < table.size
  bound : table.size < 2 ^ 31
  id : Cells.Filled table.id (entries.map Prod.fst)
  data : Cells.Filled table.data (entries.map Prod.snd)

/-- Both arrays have the size that is kept for them. -/
structure Holds (table : ThreadTable ι δ) (entries : List (ι × δ)) : Prop
    extends table.Ready entries where
  idLength : (table.id.length : ℤ) = table.size
  dataLength : (table.data.length : ℤ) = table.size

/-- The entries of the first array that are in use. -/
def usedIds (table : ThreadTable ι δ) : List (Option ι) := table.id.take table.num.toNat

/-- The entries of the second array that are in use. -/
def usedData (table : ThreadTable ι δ) : List (Option δ) := table.data.take table.num.toNat

/-- The entries in use before are the same afterwards. -/
def KeepsEntries (before after : ThreadTable ι δ) : Prop :=
  ∀ i : ℕ, (i : ℤ) < before.num →
    after.id[i]? = before.id[i]? ∧ after.data[i]? = before.data[i]?

theorem asInt_eq_self {n : ℤ} (h : 0 ≤ n) (h' : n < 2 ^ 31) : asInt n = n :=
  Int.bmod_eq_of_le (by omega) (by omega)

/-- The bytes that are asked for, as long as they fit. -/
theorem requestBytes_eq {n : ℤ} (h : 0 ≤ n) (h' : n < 2 ^ 31) :
    requestBytes n = 8 * n.toNat := by
  have hmod : n * 8 % 2 ^ 64 = n * 8 := Int.emod_eq_of_lt (by omega) (by omega)
  rw [requestBytes, hmod]
  omega

section Steps

variable {table grown : ThreadTable ι δ} {entries : List (ι × δ)} {n : ℤ} {grants : Bool × Bool}
variable {reg : Registration ι δ}

/-! ## Resizing -/

theorem reallocBoth_of_nonneg (h : 0 ≤ n) (h' : n < 2 ^ 31) :
    table.reallocBoth n grants =
      if grants.1 && grants.2 then
        .ok { table with
          id := Cells.realloc table.id n.toNat, data := Cells.realloc table.data n.toNat }
      else .error .noMemory := by
  have hbytes := requestBytes_eq h h'
  have hgranted (grant : Bool) : granted n grant = grant := by
    have hsmall : requestBytes n < 2 ^ 63 := by omega
    rw [granted, decide_eq_true hsmall, Bool.and_true]
  have hentries : requestBytes n / 8 = n.toNat := by omega
  rw [reallocBoth, hgranted, hgranted, hentries]

/-- A size that has become negative asks for more memory than there can be. -/
theorem reallocBoth_of_neg (h : n < 0) (h' : -2 ^ 31 ≤ n) :
    table.reallocBoth n grants = .error .noMemory := by
  have hmod : n * 8 % 2 ^ 64 = n * 8 + 2 ^ 64 := by
    rw [← Int.add_emod_right]
    exact Int.emod_eq_of_lt (by omega) (by omega)
  have hlarge : ¬ requestBytes n < 2 ^ 63 := by
    rw [requestBytes, hmod]
    omega
  have hrefused (grant : Bool) : granted n grant = false := by
    rw [granted, decide_eq_false hlarge, Bool.and_false]
  rw [reallocBoth, hrefused]
  rfl

/-- **Both arrays in a new size** keep their entries. -/
theorem Ready.realloc (h : table.Ready entries) (hn : entries.length < n) (h' : n < 2 ^ 31) :
    Holds { id := Cells.realloc table.id n.toNat, data := Cells.realloc table.data n.toNat,
            num := table.num, size := n } entries := by
  have hnum := h.num
  have hcount : entries.length ≤ n.toNat := by omega
  exact
    { num := hnum
      room := by dsimp only; omega
      bound := h'
      id := h.id.realloc (by simpa using hcount)
      data := h.data.realloc (by simpa using hcount)
      idLength := by rw [Cells.length_realloc]; exact Int.toNat_of_nonneg (by omega)
      dataLength := by rw [Cells.length_realloc]; exact Int.toNat_of_nonneg (by omega) }

/-- The doubled size as an `int`. -/
theorem asInt_double (h : 0 ≤ n) (h' : n < 2 ^ 31) :
    (n < 2 ^ 30 ∧ asInt (n * 2) = n * 2) ∨
      (2 ^ 30 ≤ n ∧ asInt (n * 2) < 0 ∧ -2 ^ 31 ≤ asInt (n * 2)) := by
  rcases lt_or_ge n (2 ^ 30) with hsmall | hlarge
  · exact Or.inl ⟨hsmall, asInt_eq_self (by omega) (by omega)⟩
  · have hwrap : asInt (n * 2) = n * 2 - 2 ^ 32 := by
      have hback : Int.bmod (n * 2 - 2 ^ 32) (2 ^ 32) = n * 2 - 2 ^ 32 :=
        Int.bmod_eq_of_le (by omega) (by omega)
      have hdiff : n * 2 - (n * 2 - 2 ^ 32) = 2 ^ 32 := by omega
      rw [asInt, ← hback, Int.bmod_eq_bmod_iff_bmod_sub_eq_zero, hdiff]
      decide
    rw [hwrap]
    exact Or.inr ⟨hlarge, by omega, by omega⟩

/-- **Making room.**  The process exits, or there is room for two more entries and all
entries are where they were. -/
theorem makeRoom_cases (h : table.Holds entries) (grants : Bool × Bool) :
    (table.makeRoom grants = .error .noMemory ∧
        ((grants.1 && grants.2) = false ∨ 2 ^ 30 ≤ entries.length + 1)) ∨
      ∃ grown, table.makeRoom grants = .ok grown ∧ grown.Holds entries ∧
        grown.num + 1 < grown.size ∧
        grown.size = if table.size ≤ entries.length + 1 then table.size * 2 else table.size := by
  have hnum := h.num
  have hroom := h.room
  have hbound := h.bound
  have hnext : asInt (table.num + 1) = table.num + 1 := asInt_eq_self (by omega) (by omega)
  have hsize : 0 ≤ table.size := by omega
  unfold makeRoom
  rw [hnext, hnum]
  by_cases hfull : table.size ≤ entries.length + 1
  · rw [if_pos hfull, if_pos hfull]
    rcases asInt_double hsize hbound with ⟨hsmall, hdouble⟩ | ⟨hlarge, hneg, hneg'⟩
    · rw [hdouble, reallocBoth_of_nonneg (by omega) (by omega)]
      cases hgrants : grants.1 && grants.2 with
      | false => exact Or.inl ⟨rfl, Or.inl rfl⟩
      | true =>
          refine Or.inr ⟨_, rfl, h.realloc (by omega) (by omega), ?_, rfl⟩
          dsimp only
          omega
    · rw [reallocBoth_of_neg hneg hneg']
      exact Or.inl ⟨rfl, Or.inr (by omega)⟩
  · rw [if_neg hfull, if_neg hfull]
    exact Or.inr ⟨table, rfl, h, by omega, rfl⟩

/-! ## Entering a thread -/

/-- **A registration appends an entry**, unless the process exits for want of memory. -/
theorem register_cases (h : table.Holds entries) (reg : Registration ι δ) :
    (table.register reg = .error .noMemory ∧
        ((reg.grants.1 && reg.grants.2) = false ∨ 2 ^ 30 ≤ entries.length + 1)) ∨
      ∃ next, table.register reg = .ok next ∧
        next.Holds (entries ++ [reg.entry]) ∧
        next.size = if table.size ≤ entries.length + 1 then table.size * 2 else table.size := by
  unfold register
  rcases makeRoom_cases h reg.grants with ⟨hstop, hwhy⟩ | ⟨grown, hgrown, hholds, hroom, hsize⟩
  · rw [hstop]
    exact Or.inl ⟨rfl, hwhy⟩
  · have hnum := hholds.num
    have hid := hholds.idLength
    have hdata := hholds.dataLength
    have hbound := hholds.bound
    have hnext : asInt (grown.num + 1) = grown.num + 1 := asInt_eq_self (by omega) (by omega)
    have hfillId := hholds.id.set (a := reg.tid) (by rw [List.length_map]; omega)
    have hfillData := hholds.data.set (a := reg.thread) (by rw [List.length_map]; omega)
    rw [List.length_map] at hfillId hfillData
    rw [hgrown]
    dsimp only
    rw [hnext, hnum, Cells.store_of_lt (i := entries.length) (by omega),
      Cells.store_of_lt (i := entries.length) (by omega)]
    refine Or.inr ⟨_, rfl, ?_, hsize⟩
    exact
      { num := by simp
        room := by dsimp only; omega
        bound := hbound
        id := by simpa [Registration.entry] using hfillId
        data := by simpa [Registration.entry] using hfillData
        idLength := by simpa using hid
        dataLength := by simpa using hdata }

variable (reg) in
/-- The arrays get their size before the main thread is entered. -/
theorem processInit_cases (h : table.Ready entries) (grants : Bool × Bool) :
    (table.processInit grants reg = .error .noMemory ∧
        ((grants.1 && grants.2) = false ∨ (reg.grants.1 && reg.grants.2) = false ∨
          2 ^ 30 ≤ entries.length + 1)) ∨
      ∃ next, table.processInit grants reg = .ok next ∧
        next.Holds (entries ++ [reg.entry]) := by
  have hnum := h.num
  have hroom := h.room
  unfold processInit
  rw [reallocBoth_of_nonneg (by omega) h.bound]
  cases hgrants : grants.1 && grants.2 with
  | false => exact Or.inl ⟨rfl, Or.inl rfl⟩
  | true =>
      have hholds := h.realloc (by omega) h.bound
      rcases register_cases hholds reg with ⟨hstop, hwhy⟩ | ⟨next, hnext, hafter, -⟩
      · exact Or.inl ⟨hstop, Or.inr hwhy⟩
      · exact Or.inr ⟨next, hnext, hafter⟩

end Steps

/-! ## Runs -/

section Runs

variable {table final : ThreadTable ι δ} {entries inherited : List (ι × δ)}
variable {grants : Bool × Bool} {main : Registration ι δ} {threads : List (Registration ι δ)}

/-- What a process does is a run from the arrays as they are after their allocation. -/
theorem initialisations_eq_ok_iff :
    table.initialisations grants main threads = .ok final ↔
      ∃ first, table.processInit grants main = .ok first ∧
        FallibleRun.run register first threads = .ok final := by
  unfold initialisations
  cases table.processInit grants main with
  | error stop => simp
  | ok first => simp

/-- What a registration that succeeds does. -/
theorem Holds.register {next : ThreadTable ι δ} {reg : Registration ι δ} (h : table.Holds entries)
    (hnext : table.register reg = .ok next) : next.Holds (entries ++ [reg.entry]) := by
  rcases register_cases h reg with ⟨hstop, -⟩ | ⟨other, hother, hafter, -⟩
  · rw [hstop] at hnext
    cases hnext
  · rw [hother] at hnext
    cases hnext
    exact hafter

/-- **Along a run the arrays hold the entries made so far.** -/
theorem Holds.run (h : table.Holds entries)
    (hrun : FallibleRun.run ThreadTable.register table threads = .ok final) :
    final.Holds (entries ++ threads.map Registration.entry) := by
  induction threads generalizing table entries with
  | nil =>
      cases hrun
      simpa using h
  | cons reg threads ih =>
      obtain ⟨next, hnext, hrest⟩ := FallibleRun.run_cons_eq_ok_iff.mp hrun
      have hfinal := ih (h.register hnext) hrest
      rwa [List.append_assoc, List.singleton_append] at hfinal

/-- A run stops for want of memory only. -/
theorem Holds.run_ne_outsideArray (h : table.Holds entries) :
    FallibleRun.run ThreadTable.register table threads ≠ .error .outsideArray := by
  intro hstop
  obtain ⟨front, reg, rest, before, -, hfront, hlast⟩ := FallibleRun.run_eq_error_iff.mp hstop
  rcases register_cases (h.run hfront) reg with ⟨hmemory, -⟩ | ⟨next, hnext, -, -⟩
  · rw [hmemory] at hlast
    cases hlast
  · rw [hnext] at hlast
    cases hlast

/-- **A run gets to its end** if memory is granted and the size stays an `int`. -/
theorem Holds.exists_run (h : table.Holds entries)
    (hgrants : ∀ reg ∈ threads, (reg.grants.1 && reg.grants.2) = true)
    (hcount : entries.length + threads.length < 2 ^ 30) :
    ∃ final, FallibleRun.run ThreadTable.register table threads = .ok final := by
  induction threads generalizing table entries with
  | nil => exact ⟨table, rfl⟩
  | cons reg threads ih =>
      rw [List.length_cons] at hcount
      rcases register_cases h reg with ⟨-, hwhy⟩ | ⟨next, hnext, hafter, -⟩
      · rw [hgrants reg List.mem_cons_self] at hwhy
        rcases hwhy with hrefused | hmany
        · cases hrefused
        · omega
      · rw [FallibleRun.run_cons_ok hnext]
        refine ih hafter (fun other hother => hgrants other (List.mem_cons_of_mem _ hother)) ?_
        rw [List.length_append, List.length_singleton]
        omega

/-- The allocation of the arrays keeps what they held. -/
theorem Ready.processInit {first : ThreadTable ι δ} (h : table.Ready entries)
    (hfirst : table.processInit grants main = .ok first) :
    first.Holds (entries ++ [main.entry]) := by
  rcases processInit_cases main h grants with ⟨hstop, -⟩ | ⟨other, hother, hafter⟩
  · rw [hstop] at hfirst
    cases hfirst
  · rw [hother] at hfirst
    cases hfirst
    exact hafter

/-- **The table holds the entries it had and one for each thread.** -/
theorem Ready.initialisations (h : table.Ready entries)
    (hrun : table.initialisations grants main threads = .ok final) :
    final.Holds (entries ++ (main :: threads).map Registration.entry) := by
  obtain ⟨first, hfirst, hrest⟩ := initialisations_eq_ok_iff.mp hrun
  have hfinal := (h.processInit hfirst).run hrest
  rwa [List.append_assoc, List.singleton_append] at hfinal

theorem Ready.initialisations_ne_outsideArray (h : table.Ready entries) :
    table.initialisations grants main threads ≠ .error .outsideArray := by
  unfold ThreadTable.initialisations
  rcases processInit_cases main h grants with ⟨hstop, -⟩ | ⟨first, hfirst, hafter⟩
  · rw [hstop]
    exact fun hstop => by cases hstop
  · rw [hfirst]
    exact hafter.run_ne_outsideArray

/-- If the memory is granted, all threads find a place. -/
theorem Ready.exists_initialisations (h : table.Ready entries)
    (hstart : (grants.1 && grants.2) = true)
    (hgrants : ∀ reg ∈ main :: threads, (reg.grants.1 && reg.grants.2) = true)
    (hcount : entries.length + (main :: threads).length < 2 ^ 30) :
    ∃ final, table.initialisations grants main threads = .ok final := by
  rw [List.length_cons] at hcount
  rcases processInit_cases main h grants with ⟨-, hwhy⟩ | ⟨first, hfirst, hafter⟩
  · rw [hstart, hgrants main List.mem_cons_self] at hwhy
    rcases hwhy with hrefused | hrefused | hmany
    · cases hrefused
    · cases hrefused
    · omega
  · have hothers : ∀ reg ∈ threads, (reg.grants.1 && reg.grants.2) = true := fun reg hreg =>
      hgrants reg (List.mem_cons_of_mem _ hreg)
    obtain ⟨final, hrun⟩ := hafter.exists_run hothers (by
      rw [List.length_append, List.length_singleton]
      omega)
    exact ⟨final, initialisations_eq_ok_iff.mpr ⟨first, hfirst, hrun⟩⟩

/-- What `papiex_process_init_routine` finds is ready for it. -/
theorem Found.ready (h : Found table inherited) : table.Ready inherited := by
  induction h with
  | newProcess =>
      exact
        { num := rfl
          room := by show (0 : ℤ) < 256; decide
          bound := by show (256 : ℤ) < 2 ^ 31; decide
          id := Cells.filled_nil
          data := Cells.filled_nil }
  | forked _ hrun ih => exact (ih.initialisations hrun).toReady

/-! ## The arrays -/

/-- The ids in use are those of the entries. -/
theorem Ready.usedIds_eq (h : table.Ready entries) :
    table.usedIds = (entries.map Prod.fst).map some := by
  have hid := h.id
  rwa [Cells.Filled, List.length_map, ← Int.toNat_natCast entries.length, ← h.num] at hid

/-- The data in use are those of the entries. -/
theorem Ready.usedData_eq (h : table.Ready entries) :
    table.usedData = (entries.map Prod.snd).map some := by
  have hdata := h.data
  rwa [Cells.Filled, List.length_map, ← Int.toNat_natCast entries.length, ← h.num] at hdata

/-- Entries made later leave the ones before where they are. -/
theorem Ready.keepsEntries (later : List (ι × δ)) (h : table.Ready entries)
    (hfinal : final.Ready (entries ++ later)) : KeepsEntries table final := by
  intro i hi
  have hlt : i < entries.length := by
    have hnum := h.num
    omega
  have hlt' : i < (entries ++ later).length := by
    rw [List.length_append]
    omega
  rw [h.id.getElem?_of_lt (by rwa [List.length_map]),
    h.data.getElem?_of_lt (by rwa [List.length_map]),
    hfinal.id.getElem?_of_lt (by rwa [List.length_map]),
    hfinal.data.getElem?_of_lt (by rwa [List.length_map])]
  simp only [List.getElem?_map, List.getElem?_append_left hlt, and_self]

/-! ### The entries of the threads -/

section Entered

variable {reg : Registration ι δ} {regs : List (Registration ι δ)} {k j : ℕ}

theorem map_fst_entries : (inherited ++ regs.map Registration.entry).map Prod.fst =
    inherited.map Prod.fst ++ regs.map Registration.tid := by
  rw [List.map_append, List.map_map]
  rfl

theorem map_snd_entries : (inherited ++ regs.map Registration.entry).map Prod.snd =
    inherited.map Prod.snd ++ regs.map Registration.thread := by
  rw [List.map_append, List.map_map]
  rfl

/-- The record of a thread is at its own index and nowhere else. -/
theorem Holds.usedData_eq_some_iff (h : table.Holds (inherited ++ regs.map Registration.entry))
    (hrecords : (inherited.map Prod.snd ++ regs.map Registration.thread).Nodup)
    (hk : regs[k]? = some reg) :
    table.usedData[j]? = some (some reg.thread) ↔ j = inherited.length + k := by
  have hthread : (regs.map Registration.thread)[k]? = some reg.thread := by
    rw [List.getElem?_map, hk]
    rfl
  obtain ⟨-, hown, hdisjoint⟩ := List.nodup_append.mp hrecords
  rw [h.usedData_eq, map_snd_entries, List.getElem?_map, Option.map_eq_some_iff]
  simp only [Option.some.injEq, exists_eq_right]
  rw [Cells.getElem?_append_eq_some_iff hthread hown, List.length_map, or_iff_left]
  intro hinherited
  exact hdisjoint _ (List.mem_of_getElem? hinherited) _ (List.mem_of_getElem? hthread) rfl

/-- The identifier is there as well, and else only where it was inherited. -/
theorem Holds.usedIds_eq_some_iff (h : table.Holds (inherited ++ regs.map Registration.entry))
    (htids : (regs.map Registration.tid).Nodup) (hk : regs[k]? = some reg) :
    table.usedIds[j]? = some (some reg.tid) ↔
      j = inherited.length + k ∨ (inherited.map Prod.fst)[j]? = some reg.tid := by
  have htid : (regs.map Registration.tid)[k]? = some reg.tid := by
    rw [List.getElem?_map, hk]
    rfl
  rw [h.usedIds_eq, map_fst_entries, List.getElem?_map, Option.map_eq_some_iff]
  simp only [Option.some.injEq, exists_eq_right]
  rw [Cells.getElem?_append_eq_some_iff htid htids, List.length_map]

end Entered

end Runs

end ThreadTable

open ThreadTable

/-- **The table of threads grows without loss.**  The threads of a process enter themselves
in any order, in a table with the entries inherited from its parent, if it has one.  No
write is outside an array, and the process gets to the end unless it is refused memory.
After every registration there is an entry left.  The record and the number of a thread
stand at one index of the two arrays and at no other, unless an inherited entry has the same
number.  Earlier entries stay as they were. -/
theorem registry_grows {ι : Type u} {δ : Type v} {start : ThreadTable ι δ}
    {inherited : List (ι × δ)} (hstart : Found start inherited) (grants : Bool × Bool)
    (main : Registration ι δ) (threads : List (Registration ι δ))
    (htids : ((main :: threads).map Registration.tid).Nodup)
    (hrecords : (inherited.map Prod.snd ++ (main :: threads).map Registration.thread).Nodup) :
    start.initialisations grants main threads ≠ .error .outsideArray ∧
      ((grants.1 && grants.2) = true →
        (∀ reg ∈ main :: threads, (reg.grants.1 && reg.grants.2) = true) →
        inherited.length + (main :: threads).length < 2 ^ 30 →
        ∃ table, start.initialisations grants main threads = .ok table) ∧
      ∀ table, start.initialisations grants main threads = .ok table →
        table.num = inherited.length + (main :: threads).length ∧ table.num < table.size ∧
          (table.id.length : ℤ) = table.size ∧ (table.data.length : ℤ) = table.size ∧
          (∀ reg ∈ main :: threads, ∃ i,
            (∀ j : ℕ, table.usedData[j]? = some (some reg.thread) ↔ j = i) ∧
            ∀ j : ℕ, table.usedIds[j]? = some (some reg.tid) ↔
              j = i ∨ (inherited.map Prod.fst)[j]? = some reg.tid) ∧
          KeepsEntries start table ∧
          ∀ earlier later before, threads = earlier ++ later →
            start.initialisations grants main earlier = .ok before →
            KeepsEntries before table := by
  have hready := hstart.ready
  refine ⟨hready.initialisations_ne_outsideArray, hready.exists_initialisations, ?_⟩
  intro table hrun
  have hholds := hready.initialisations hrun
  have hnum := hholds.num
  refine ⟨?_, hholds.room, hholds.idLength, hholds.dataLength, ?_, ?_, ?_⟩
  · rw [hnum, List.length_append, List.length_map]
    push_cast
    rfl
  · intro reg hreg
    obtain ⟨k, hk⟩ := List.getElem?_of_mem hreg
    exact ⟨inherited.length + k, fun j => hholds.usedData_eq_some_iff hrecords hk,
      fun j => hholds.usedIds_eq_some_iff htids hk⟩
  · exact hready.keepsEntries _ hholds.toReady
  · intro earlier later before hsplit hbefore
    have hearlier := hready.initialisations hbefore
    refine hearlier.toReady.keepsEntries (later.map Registration.entry) ?_
    rw [List.append_assoc, ← List.map_append, List.cons_append, ← hsplit]
    exact hholds.toReady

/-- A main thread and a created one in a new process. -/
theorem registry_grows_two : ∃ table : ThreadTable ℕ ℕ,
    afterInitLibraryGlobals.initialisations (true, true) ⟨0, 100, (true, true)⟩
      [⟨1, 101, (true, true)⟩] = .ok table ∧ table.num < table.size := by
  have hfound : Found (afterInitLibraryGlobals : ThreadTable ℕ ℕ) [] := .newProcess
  obtain ⟨-, hend, hgood⟩ := registry_grows hfound (true, true) ⟨0, 100, (true, true)⟩
    [⟨1, 101, (true, true)⟩] (by decide) (by decide)
  obtain ⟨table, hrun⟩ := hend rfl (by decide) (by decide)
  exact ⟨table, hrun, (hgood table hrun).2.1⟩

/-- **The list of entries in the state of a process** is what the arrays hold: a registration
does to both the same. -/
theorem registerThread_refines {proc : Process} {table next : ThreadTable ℕ ℕ}
    (h : table.Holds proc.allThreads) (hsize : table.size = proc.allThreadsSize)
    {reg : Registration ℕ ℕ} (hnext : table.register reg = .ok next) :
    next.Holds (proc.registerThread reg.tid reg.thread).allThreads ∧
      next.size = (proc.registerThread reg.tid reg.thread).allThreadsSize := by
  refine ⟨h.register hnext, ?_⟩
  rcases register_cases h reg with ⟨hstop, -⟩ | ⟨other, hother, -, hdoubled⟩
  · rw [hstop] at hnext
    cases hnext
  · rw [hother] at hnext
    cases hnext
    rw [hdoubled, hsize]
    unfold Process.registerThread
    dsimp only
    split_ifs <;> omega

end Papiex
