import Papiex.Lib.Cells
import Papiex.Lib.FallibleRun
import Papiex.Lib.Strtok
import Papiex.Caliper.Record

/-!
# Arguments from the environment

`main` of the driver puts the words of `PAPIEX_DEFAULT_ARGS` in front of the arguments of
the command line.  The vector it makes has 256 slots, and two loops fill it: one over the
words, which stores what `strtok` returns before it asks whether that is a word, and one
over the arguments.  A slot holds a text or NULL, and a write outside the slots is a
failure.

## Main results

* `run_push`: a loop that stores texts in a vector of 256 slots.
* `defaults_prepended_iff`: when the words of the variable are put in front.

## Design notes

A variable without a word in it leaves a NULL in slot 1, because the loop stores first and
asks afterwards; the arguments come behind this NULL.  The slots are a block of memory from
`Papiex.Lib.Cells` and the loops are runs of one store after the other, so that a loop ends
inside the block exactly if there are slots enough.
-/

namespace Papiex

/-- `myargv` and `myargc`. -/
structure ArgumentVector where
  slots : List (Option (Option Text))
  myargc : ℤ

/-- Why there is no vector: `malloc` fails, or something is written outside the slots. -/
inductive VectorStop where
  | noMemory
  | outsideSlots
  deriving DecidableEq

namespace ArgumentVector

/-- The slots that `main` allocates. -/
def slotCount : ℕ := 256

/-- `myargv[myargc++] = arg`. -/
def push (vec : ArgumentVector) (arg : Option Text) : Except VectorStop ArgumentVector :=
  match Cells.store vec.slots vec.myargc arg with
  | some slots => .ok { slots, myargc := vec.myargc + 1 }
  | none => .error .outsideSlots

/-- The loop over the words, from what `strtok` returned last and will return still. -/
def pushWords (vec : ArgumentVector) (tmp : Option Text) :
    List Text → Except VectorStop ArgumentVector
  | [] => vec.push tmp
  | word :: later =>
      match vec.push tmp with
      | .error stop => .error stop
      | .ok next => next.pushWords (some word) later

/-- The loop over the arguments of the command line. -/
def pushArgs (vec : ArgumentVector) (args : List Text) : Except VectorStop ArgumentVector :=
  FallibleRun.run push vec (args.map some)

/-- `myargv[myargc] = NULL`. -/
def terminate (vec : ArgumentVector) : Except VectorStop ArgumentVector :=
  match Cells.store vec.slots vec.myargc none with
  | some slots => .ok { vec with slots }
  | none => .error .outsideSlots

/-- Both loops, and the NULL. -/
def fill (vec : ArgumentVector) (tmp : Option Text) (later args : List Text) :
    Except VectorStop ArgumentVector :=
  match vec.pushWords tmp later with
  | .error stop => .error stop
  | .ok vec =>
      match vec.pushArgs args with
      | .error stop => .error stop
      | .ok vec => vec.terminate

/-- The vector the program was started with. -/
def ofCommandLine (argv : List Text) : ArgumentVector where
  slots := argv.map (fun arg => some (some arg)) ++ [some none]
  myargc := argv.length

end ArgumentVector

/-- The words of the variable. -/
def defaultWords (defaultArgs : Text) : List Text := Strtok.tokens (· == ' ') defaultArgs

/-- `basename`. -/
def basename (path : Text) : Text := (path.reverse.takeWhile (· ≠ '/')).reverse

/-- The vector `main` gives to `parse_args`. -/
def mainVector (argv0 : Text) (args : List Text) (defaultArgs : Option Text) (grant : Bool) :
    Except VectorStop ArgumentVector :=
  match defaultArgs with
  | some defaultArgs =>
      if basename argv0 = "papiex".toList then
        if grant = false then .error .noMemory
        else
          let words := defaultWords defaultArgs
          match Cells.store (Cells.malloc ArgumentVector.slotCount) 0 (some argv0) with
          | none => .error .outsideSlots
          | some slots => ArgumentVector.fill { slots, myargc := 1 } words.head? words.tail args
      else .ok (.ofCommandLine (argv0 :: args))
  | none => .ok (.ofCommandLine (argv0 :: args))

/-- The vector is these texts, with NULL behind them. -/
def ArgumentVector.Lists (vec : ArgumentVector) (argv : List Text) : Prop :=
  vec.myargc = argv.length ∧ Cells.Filled vec.slots (argv.map some ++ [none])

/-- **What the words of the variable are for**: if the driver is called by its name, they
stand between its name and its arguments, and nothing is written outside the slots. -/
def DefaultsPrepended (argv0 : Text) (args : List Text) (defaultArgs : Text) : Prop :=
  basename argv0 = "papiex".toList → ∀ grant,
    mainVector argv0 args (some defaultArgs) grant ≠ .error .outsideSlots ∧
      ∀ vec, mainVector argv0 args (some defaultArgs) grant = .ok vec →
        vec.Lists (argv0 :: defaultWords defaultArgs ++ args)

/-! ## Filling the slots -/

namespace ArgumentVector

variable {vec : ArgumentVector} {entries args : List (Option Text)} {arg : Option Text}

/-- The front slots hold these entries. -/
structure Holds (vec : ArgumentVector) (entries : List (Option Text)) : Prop where
  myargc : vec.myargc = entries.length
  slots : Cells.Filled vec.slots entries
  count : vec.slots.length = slotCount

theorem push_of_lt (arg : Option Text) (h : vec.Holds entries)
    (hroom : entries.length < slotCount) :
    ∃ next, vec.push arg = .ok next ∧ next.Holds (entries ++ [arg]) := by
  have hcount := h.count
  have hlt : entries.length < vec.slots.length := by rwa [hcount]
  refine ⟨{ slots := vec.slots.set entries.length (some arg), myargc := vec.myargc + 1 }, ?_, ?_⟩
  · rw [push, h.myargc, Cells.store_of_lt hlt]
  · exact
      { myargc := by simp [h.myargc]
        slots := h.slots.set hlt
        count := by rw [List.length_set, hcount] }

theorem push_of_le (h : vec.Holds entries) (hfull : slotCount ≤ entries.length) :
    vec.push arg = .error .outsideSlots := by
  have hle : vec.slots.length ≤ entries.length := by rwa [h.count]
  rw [push, h.myargc, Cells.store_of_le hle]

/-- **A loop that stores one text after another** gets to its end if there is a slot for
each of them. -/
theorem run_push (h : vec.Holds entries) (args : List (Option Text)) :
    (entries.length + args.length ≤ slotCount ∧
        ∃ final, FallibleRun.run push vec args = .ok final ∧ final.Holds (entries ++ args)) ∨
      (slotCount < entries.length + args.length ∧
        FallibleRun.run push vec args = .error .outsideSlots) := by
  induction args generalizing vec entries with
  | nil =>
      have hle := h.slots.length_le
      rw [h.count] at hle
      exact Or.inl ⟨hle, vec, rfl, by simpa using h⟩
  | cons arg args ih =>
      rw [List.length_cons]
      rcases Nat.lt_or_ge entries.length slotCount with hroom | hfull
      · obtain ⟨next, hnext, hholds⟩ := push_of_lt arg h hroom
        rw [FallibleRun.run_cons_ok hnext]
        have hrest := ih hholds
        rw [List.length_append, List.length_singleton, Nat.add_assoc, Nat.add_comm 1,
          List.append_assoc, List.singleton_append] at hrest
        exact hrest
      · exact Or.inr ⟨by omega, FallibleRun.run_cons_error (push_of_le h hfull)⟩

/-- The loop over the words stores one text at least, which is NULL if there is no word. -/
theorem pushWords_eq (vec : ArgumentVector) (tmp : Option Text) (later : List Text) :
    vec.pushWords tmp later = FallibleRun.run push vec (tmp :: later.map some) := by
  induction later generalizing vec tmp with
  | nil => exact FallibleRun.run_singleton.symm
  | cons word later ih =>
      unfold pushWords
      cases hnext : vec.push tmp with
      | error stop => rw [FallibleRun.run_cons_error hnext]
      | ok next =>
          rw [FallibleRun.run_cons_ok hnext]
          exact ih next (some word)

/-- The NULL at the end needs a slot as well. -/
theorem terminate_cases (h : vec.Holds entries) :
    (entries.length < slotCount ∧ ∃ final, vec.terminate = .ok final ∧
        final.myargc = entries.length ∧ Cells.Filled final.slots (entries ++ [none])) ∨
      (slotCount ≤ entries.length ∧ vec.terminate = .error .outsideSlots) := by
  have hcount := h.count
  unfold terminate
  rw [h.myargc]
  rcases Nat.lt_or_ge entries.length slotCount with hroom | hfull
  · have hlt : entries.length < vec.slots.length := by rwa [hcount]
    rw [Cells.store_of_lt hlt]
    exact Or.inl ⟨hroom, _, rfl, rfl, h.slots.set hlt⟩
  · have hle : vec.slots.length ≤ entries.length := by rwa [hcount]
    rw [Cells.store_of_le hle]
    exact Or.inr ⟨hfull, rfl⟩

/-- **What both loops store**, if there are slots for it and for the NULL. -/
theorem fill_cases (h : vec.Holds entries) (tmp : Option Text) (later args : List Text) :
    (entries.length + 1 + later.length + args.length < slotCount ∧
        ∃ final, vec.fill tmp later args = .ok final ∧
          final.myargc = (entries ++ tmp :: (later ++ args).map some).length ∧
          Cells.Filled final.slots (entries ++ tmp :: (later ++ args).map some ++ [none])) ∨
      (slotCount ≤ entries.length + 1 + later.length + args.length ∧
        vec.fill tmp later args = .error .outsideSlots) := by
  have hwords := run_push h (tmp :: later.map some)
  unfold fill
  rw [pushWords_eq]
  rw [List.length_cons, List.length_map] at hwords
  rcases hwords with ⟨-, middle, hmiddle, hentries⟩ | ⟨hover, hstop⟩
  · have hargs := run_push hentries (args.map some)
    rw [hmiddle]
    unfold pushArgs
    dsimp only
    simp only [List.length_append, List.length_cons, List.length_map] at hargs
    rcases hargs with ⟨-, last, hlast, hall⟩ | ⟨hover, hstop⟩
    · have hsplit : entries ++ tmp :: later.map some ++ args.map some =
          entries ++ tmp :: (later ++ args).map some := by
        rw [List.map_append, List.append_assoc, List.cons_append]
      rw [hlast]
      dsimp only
      rw [hsplit] at hall
      have hlength : (entries ++ tmp :: (later ++ args).map some).length =
          entries.length + 1 + later.length + args.length := by
        simp only [List.length_append, List.length_cons, List.length_map]
        omega
      have hend := terminate_cases hall
      simp only [hlength] at hend ⊢
      exact hend
    · rw [hstop]
      exact Or.inr ⟨by omega, rfl⟩
  · rw [hstop]
    exact Or.inr ⟨by omega, rfl⟩

end ArgumentVector

/-! ## The vector -/

/-- **The vector of `main`**: the first thing `strtok` returns is stored in any case. -/
theorem mainVector_cases {argv0 : Text} (hname : basename argv0 = "papiex".toList)
    (args : List Text) (defaultArgs : Text) :
    (2 + (defaultWords defaultArgs).tail.length + args.length < ArgumentVector.slotCount ∧
        ∃ vec, mainVector argv0 args (some defaultArgs) true = .ok vec ∧
          vec.myargc = (some argv0 :: (defaultWords defaultArgs).head? ::
            ((defaultWords defaultArgs).tail ++ args).map some).length ∧
          Cells.Filled vec.slots (some argv0 :: (defaultWords defaultArgs).head? ::
            ((defaultWords defaultArgs).tail ++ args).map some ++ [none])) ∨
      (ArgumentVector.slotCount ≤ 2 + (defaultWords defaultArgs).tail.length + args.length ∧
        mainVector argv0 args (some defaultArgs) true = .error .outsideSlots) := by
  -- the first slot
  have hfirst : 0 <
      (Cells.malloc ArgumentVector.slotCount : List (Option (Option Text))).length := by
    rw [Cells.length_malloc]
    decide
  have hempty : Cells.Filled (Cells.malloc ArgumentVector.slotCount)
      ([] : List (Option Text)) := Cells.filled_nil
  have hstart : ArgumentVector.Holds
      { slots := (Cells.malloc ArgumentVector.slotCount).set 0 (some (some argv0)), myargc := 1 }
      [some argv0] :=
    { myargc := rfl
      slots := hempty.set hfirst
      count := by rw [List.length_set, Cells.length_malloc] }
  unfold mainVector
  simp only [if_pos hname, Bool.true_eq_false, if_false]
  rw [← Int.natCast_zero, Cells.store_of_lt hfirst]
  exact ArgumentVector.fill_cases hstart _ _ _

/-- **When the words of the variable are prepended**: there is one, and the words, the
arguments and the NULL fit into the slots. -/
theorem defaults_prepended_iff (argv0 : Text) (args : List Text) (defaultArgs : Text) :
    DefaultsPrepended argv0 args defaultArgs ↔
      (basename argv0 = "papiex".toList →
        defaultWords defaultArgs ≠ [] ∧
          (defaultWords defaultArgs).length + (argv0 :: args).length ≤ 255) := by
  have hslots : ArgumentVector.slotCount = 256 := rfl
  unfold DefaultsPrepended
  refine forall_congr' fun hname => ?_
  have hcases := mainVector_cases hname args defaultArgs
  rw [List.length_cons]
  constructor
  · intro h
    obtain ⟨hinside, hlists⟩ := h true
    rcases hcases with ⟨hfit, vec, hvec, hargc, -⟩ | ⟨-, hstop⟩
    · obtain ⟨hargc', -⟩ := hlists vec hvec
      rw [hargc] at hargc'
      cases hwords : defaultWords defaultArgs with
      | nil =>
          -- NULL takes the slot of a word
          rw [hwords] at hargc'
          simp at hargc'
      | cons word words =>
          rw [hwords, List.tail_cons] at hfit
          rw [List.length_cons]
          exact ⟨List.cons_ne_nil _ _, by omega⟩
    · exact absurd hstop hinside
  · rintro ⟨hne, hcount⟩ grant
    obtain ⟨word, words, hwords⟩ := List.exists_cons_of_ne_nil hne
    rw [hwords] at hcases hcount ⊢
    rw [List.length_cons] at hcount
    rcases hcases with ⟨-, vec, hvec, hargc, hfilled⟩ | ⟨hover, -⟩
    · cases grant with
      | false =>
          have hnone : mainVector argv0 args (some defaultArgs) false = .error .noMemory := by
            simp [mainVector, hname]
          rw [hnone]
          constructor
          · intro hstop
            cases hstop
          · intro vec hok
            cases hok
      | true =>
          rw [hvec]
          have hentries : (argv0 :: (word :: words) ++ args).map some =
              some argv0 :: (word :: words).head? :: ((word :: words).tail ++ args).map some := rfl
          constructor
          · intro hstop
            cases hstop
          · intro other hother
            cases hother
            constructor
            · rw [hargc, ← hentries, List.length_map]
            · rw [hentries]
              exact hfilled
    · rw [List.tail_cons] at hover
      omega

/-- An empty variable: NULL is stored for the word there is not, before the first
argument. -/
theorem empty_default_args : ¬ DefaultsPrepended "papiex".toList ["-h".toList] [] := by
  intro h
  have hname : basename "papiex".toList = "papiex".toList := by decide
  obtain ⟨-, hlists⟩ := h hname true
  rcases mainVector_cases hname ["-h".toList] [] with ⟨-, vec, hvec, hargc, -⟩ | ⟨hover, -⟩
  · obtain ⟨hargc', -⟩ := hlists vec hvec
    rw [hargc] at hargc'
    revert hargc'
    decide
  · revert hover
    decide

/-- Without the variable, or under another name, the driver gets its own command line. -/
theorem mainVector_of_commandLine {argv0 : Text} {defaultArgs : Option Text}
    (h : defaultArgs = none ∨ basename argv0 ≠ "papiex".toList) (args : List Text) (grant : Bool) :
    ∃ vec, mainVector argv0 args defaultArgs grant = .ok vec ∧ vec.Lists (argv0 :: args) := by
  refine ⟨.ofCommandLine (argv0 :: args), ?_, rfl, ?_⟩
  · unfold mainVector
    cases defaultArgs with
    | none => rfl
    | some defaultArgs =>
        rcases h with hnone | hname
        · cases hnone
        · exact if_neg hname
  · have hslots : (ArgumentVector.ofCommandLine (argv0 :: args)).slots =
        ((argv0 :: args).map some ++ [none]).map some := by
      rw [ArgumentVector.ofCommandLine, List.map_append, List.map_map]
      rfl
    rw [Cells.Filled, hslots, ← List.length_map (f := some), List.take_length]

end Papiex
