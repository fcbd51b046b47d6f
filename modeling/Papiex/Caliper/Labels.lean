import Mathlib.Algebra.Order.Group.Nat
import Papiex.Caliper.Gcc
import Papiex.Classic.Sums
import Papiex.Lib.Scanf
import Papiex.Options.Library

/-!
# The labels of the calipers

A label has 64 bytes, in front of the counts of its caliper.  Three routines write
labels: `papiex_start` cuts off what does not fit, `match_caliper_label` copies from one
label to another, and `resolve_symbols` puts a text in the place of a label that holds an
address.  The length of that text is bounded by nothing, and an address that is not found
leaves the names in it uninitialised.

## Main results

* `resolveSymbols`: labels that are addresses are replaced by the names of functions and loops.
* `exec_cases`: one event leaves labels that fit, or writes past the end of one.
* `labels_never_overrun_iff`: along a whole history.

## Design notes

A `sprintf` that does not fit, and one that is given names nobody has written, are stops of
their own beside the fatal errors of the calls.  What libbfd finds at an address is a
parameter.  The labels of the sums are among those watched: `match_caliper_label` copies
them from labels of threads with `strcpy`, and they fit because these do.
-/

namespace Papiex

open Chars

/-! ## Resolving a label -/

/-- What `bfd_find_src_loc` finds out about an address. -/
structure SourceLocation where
  file : Text
  func : Text
  line : ℤ

/-- `%p`. -/
def pointerText (addr : UInt64) : Text :=
  if addr = 0 then "(nil)".toList else "0x".toList ++ Nat.toDigits 16 addr.toNat

/-- `"Function %s at %p, File: %s, Function: %s, Line: %d"`. -/
def functionText (addr : UInt64) (loc : SourceLocation) : Text :=
  "Function ".toList ++ loc.func ++ " at ".toList ++ pointerText addr ++ ", File: ".toList ++
    loc.file ++ ", Function: ".toList ++ loc.func ++ ", Line: ".toList ++ signed loc.line

/-- `"Loop %d at %p, File: %s, Function: %s, Line: %d"`. -/
def loopText (num : ℤ) (addr : UInt64) (loc : SourceLocation) : Text :=
  "Loop ".toList ++ signed num ++ " at ".toList ++ pointerText addr ++ ", File: ".toList ++
    loc.file ++ ", Function: ".toList ++ loc.func ++ ", Line: ".toList ++ signed loc.line

/-- `sscanf(label,"%c%d:%p",&t,&num,&addr) == 3`. -/
def scanPathscaleLabel : Text → Option (Char × ℤ × UInt64)
  | [] => none
  | t :: rest =>
      match Scanf.int rest with
      | some (num, ':' :: rest) => (Scanf.pointer rest).map fun addr => (t, num, addr)
      | _ => none

/-- `sscanf(label,":%p",&addr) == 1`. -/
def scanGccLabel : Text → Option UInt64
  | ':' :: rest => Scanf.pointer rest
  | _ => none

/-- What `resolve_symbols` goes by: the two kinds of instrumentation, and the symbols of
the executable.  `sections` is what the sections of the executable tell about an address;
nothing for an address in none of them, and while no executable is open. -/
structure Symbols where
  gccProf : Bool
  pathscaleProf : PathscaleProf
  sections : UInt64 → Option SourceLocation

/-- `bfd_find_src_loc`.  For an address that is not found it returns 1 and writes none of
its results, and `resolve_symbols` does not look at what it returns. -/
def Symbols.findSrcLoc (symbols : Symbols) (addr : UInt64) : Option SourceLocation :=
  if addr = 0 then none else symbols.sections addr

/-- How a step of the labels stops the process: with an error of the library, past the
end of a label, or in `sprintf` with names that nothing has been written to. -/
inductive LabelStop where
  | fatal (error : LibpapiexError)
  | overrun
  | uninitialised

/-- The step stays within the labels. -/
def LabelStop.Harmless : LabelStop → Prop
  | .fatal _ => True
  | .overrun => False
  | .uninitialised => False

/-- `sprintf` into a label, of a text whose names may not have been found. -/
def sprintfLabel : Option Text → Except LabelStop Text
  | none => .error .uninitialised
  | some text => if maxLabelSize ≤ text.length then .error .overrun else .ok text

/-- What `sprintf` writes over a Pathscale label. -/
def pathscaleText (symbols : Symbols) (label : Text) : Option (Option Text) :=
  if symbols.pathscaleProf = .none then none
  else
    match scanPathscaleLabel label with
    | some (t, num, addr) =>
        if t = 'C' then some ((symbols.findSrcLoc addr).map (functionText addr))
        else some ((symbols.findSrcLoc addr).map (loopText num addr))
    | none => none

/-- What `sprintf` writes over a gcc label. -/
def gccText (symbols : Symbols) (label : Text) : Option (Option Text) :=
  if symbols.gccProf then
    (scanGccLabel label).map fun addr => (symbols.findSrcLoc addr).map (functionText addr)
  else none

/-- The turn of `resolve_symbols` for one label. -/
def resolveLabel (symbols : Symbols) (label : Text) : Except LabelStop Text :=
  match (pathscaleText symbols label).elim (.ok label) sprintfLabel with
  | .error stop => .error stop
  | .ok label => (gccText symbols label).elim (.ok label) sprintfLabel

/-- The turn of `resolve_symbols` for one caliper. -/
def resolveCaliper (symbols : Symbols) (thread : PerthreadData) (j : ℕ) :
    Except LabelStop PerthreadData :=
  match resolveLabel symbols (thread.data j).label with
  | .error stop => .error stop
  | .ok label => .ok (thread.setCaliper j { thread.data j with label })

/-- `resolve_symbols`. -/
def resolveSymbols (symbols : Symbols) (thread : PerthreadData) :
    Except LabelStop PerthreadData :=
  FallibleRun.run (resolveCaliper symbols) thread (usedCalipers thread)

/-! ## A process -/

/-- The records of the threads of a process, and their sums. -/
structure LabelledProcess where
  threads : ℕ → Option PerthreadData := fun _ => some {}
  processDataSums : PerthreadData := {}

/-- What can happen to the labels of a process. -/
inductive LabelEvent where
  /-- A thread calls the caliper interface. -/
  | call (tid : ℕ) (call : Call)
  /-- The sums of a caliper take a thread's caliper in. -/
  | merge (tid : ℕ) (j : ℕ)
  /-- The symbols in the labels of a thread are resolved. -/
  | resolve (tid : ℕ) (symbols : Symbols)

namespace LabelledProcess

/-- Put the record of a thread in its place. -/
def setThread (process : LabelledProcess) (tid : ℕ) (thread : Option PerthreadData) :
    LabelledProcess :=
  { process with threads := Function.update process.threads tid thread }

/-- `match_caliper_label` and what follows it, for one caliper.  An empty label takes the
other one in. -/
def merge (cfg : Config) (process : LabelledProcess) (j : ℕ) (record : CaliperData) :
    Except LabelStop LabelledProcess :=
  let sums := process.processDataSums
  if (sums.data j).label = [] ∧ maxLabelSize ≤ record.label.length then .error .overrun
  else
    .ok { process with
      processDataSums := sums.setCaliper j (mergeCaliper cfg (sums.data j) record) }

/-- One event. -/
def exec (cfg : Config) (process : LabelledProcess) :
    LabelEvent → Except LabelStop LabelledProcess
  | .call tid call =>
      match call.exec cfg (process.threads tid) with
      | .error error => .error (.fatal error)
      | .ok thread => .ok (process.setThread tid thread)
  | .merge tid j =>
      match process.threads tid with
      | none => .ok process
      | some thread => process.merge cfg j (thread.data j)
  | .resolve tid symbols =>
      match process.threads tid with
      | none => .ok process
      | some thread =>
          match resolveSymbols symbols thread with
          | .error stop => .error stop
          | .ok thread => .ok (process.setThread tid (some thread))

end LabelledProcess

/-! ## The room in a label -/

/-- What a label is recognised as: the address of a function, or of a loop with its
number. -/
def Symbols.recognise (symbols : Symbols) (label : Text) : Option (Option ℤ × UInt64) :=
  match if symbols.pathscaleProf = .none then none else scanPathscaleLabel label with
  | some (t, num, addr) => if t = 'C' then some (none, addr) else some (some num, addr)
  | none => if symbols.gccProf then (scanGccLabel label).map fun addr => (none, addr) else none

/-- The address in a label is found, and its names and numbers leave room for the text
around them.  The name of a function is printed twice. -/
def NamesFit (symbols : Symbols) (label : Text) : Prop :=
  match symbols.recognise label with
  | none => True
  | some (none, addr) =>
      ∃ loc, symbols.findSrcLoc addr = some loc ∧
        2 * loc.func.length + loc.file.length + (pointerText addr).length +
          (signed loc.line).length ≤ 22
  | some (some num, addr) =>
      ∃ loc, symbols.findSrcLoc addr = some loc ∧
        loc.func.length + loc.file.length + (signed num).length + (pointerText addr).length +
          (signed loc.line).length ≤ 26

section Texts

variable {symbols : Symbols} {label : Text}

/-- The length of the label of a function, with its name twice. -/
theorem functionText_length (addr : UInt64) (loc : SourceLocation) :
    (functionText addr loc).length =
      2 * loc.func.length + loc.file.length + (pointerText addr).length +
        (signed loc.line).length + 41 := by
  unfold functionText
  simp
  omega

theorem loopText_length (num : ℤ) (addr : UInt64) (loc : SourceLocation) :
    (loopText num addr loc).length =
      loc.func.length + loc.file.length + (signed num).length + (pointerText addr).length +
        (signed loc.line).length + 37 := by
  unfold loopText
  simp
  omega

/-- The text that a label is replaced with, if it is recognised and if the names for it
are found. -/
def Symbols.resolution (symbols : Symbols) (label : Text) : Option (Option Text) :=
  (pathscaleText symbols label).or (gccText symbols label)

/-- Only a label that begins with a colon is one of gcc. -/
theorem gccText_cons {c : Char} (h : c ≠ ':') (rest : Text) :
    gccText symbols (c :: rest) = none := by
  have hscan : scanGccLabel (c :: rest) = none := by
    unfold scanGccLabel
    split
    · rename_i heq
      exact absurd (List.cons.inj heq).1 h
    · rfl
  rw [gccText, hscan]
  cases symbols.gccProf <;> rfl

/-- What was resolved is not taken for a label of gcc again. -/
theorem gccText_functionText (addr : UInt64) (loc : SourceLocation) :
    gccText symbols (functionText addr loc) = none := by
  have hword : "Function ".toList = 'F' :: "unction ".toList := rfl
  unfold functionText
  rw [hword]
  simp only [List.cons_append]
  exact gccText_cons (by decide) _

/-- The label of a loop is not taken for one of gcc either. -/
theorem gccText_loopText (num : ℤ) (addr : UInt64) (loc : SourceLocation) :
    gccText symbols (loopText num addr loc) = none := by
  have hword : "Loop ".toList = 'L' :: "oop ".toList := rfl
  unfold loopText
  rw [hword]
  simp only [List.cons_append]
  exact gccText_cons (by decide) _

/-- A text that has replaced a Pathscale label is not taken for a gcc label. -/
theorem gccText_pathscaleText {text : Text}
    (h : pathscaleText symbols label = some (some text)) : gccText symbols text = none := by
  unfold pathscaleText at h
  split_ifs at h
  split at h
  · split_ifs at h
    · obtain ⟨loc, -, rfl⟩ := Option.map_eq_some_iff.mp (Option.some.inj h)
      exact gccText_functionText _ _
    · obtain ⟨loc, -, rfl⟩ := Option.map_eq_some_iff.mp (Option.some.inj h)
      exact gccText_loopText _ _ _
  · cases h

/-- A label is written at most once in its turn. -/
theorem resolveLabel_eq :
    resolveLabel symbols label = (symbols.resolution label).elim (.ok label) sprintfLabel := by
  unfold resolveLabel Symbols.resolution
  cases hpath : pathscaleText symbols label with
  | none => rfl
  | some found =>
      simp only [Option.elim_some, Option.some_or]
      cases found with
      | none => rfl
      | some text =>
          have hgcc := gccText_pathscaleText hpath
          by_cases hfits : maxLabelSize ≤ text.length
          · simp only [sprintfLabel, hfits, if_true]
          · simp only [sprintfLabel, hfits, if_false, hgcc, Option.elim_none]

/-- What a label is recognised as decides the text. -/
theorem resolution_eq :
    symbols.resolution label =
      match symbols.recognise label with
      | none => none
      | some (none, addr) => some ((symbols.findSrcLoc addr).map (functionText addr))
      | some (some num, addr) =>
          some ((symbols.findSrcLoc addr).map (loopText num addr)) := by
  unfold Symbols.resolution Symbols.recognise pathscaleText gccText
  by_cases hprof : symbols.pathscaleProf = .none
  · simp only [hprof, if_true, Option.none_or]
    cases symbols.gccProf <;> cases scanGccLabel label <;> rfl
  · simp only [hprof, if_false]
    cases scanPathscaleLabel label with
    | none => cases symbols.gccProf <;> cases scanGccLabel label <;> rfl
    | some found =>
        obtain ⟨t, num, addr⟩ := found
        by_cases ht : t = 'C' <;> simp [ht]

/-- **The names fit exactly if the text is there and fits.** -/
theorem namesFit_iff :
    NamesFit symbols label ↔ ∀ found ∈ symbols.resolution label,
      ∃ text, found = some text ∧ text.length < maxLabelSize := by
  have hsize : maxLabelSize = 64 := rfl
  rw [resolution_eq, NamesFit]
  cases symbols.recognise label with
  | none => simp
  | some found =>
      obtain ⟨num | num, addr⟩ := found <;>
        simp only [Option.mem_some_iff, forall_eq'] <;>
        cases symbols.findSrcLoc addr with
        | none => simp
        | some loc =>
            simp only [Option.map_some, Option.some.injEq, exists_eq_left', functionText_length,
              loopText_length, hsize]
            omega

/-- `sprintf` stays within the label exactly if there is a text and it fits. -/
theorem sprintfLabel_cases (found : Option Text) :
    (∃ text, found = some text ∧ text.length < maxLabelSize ∧ sprintfLabel found = .ok text) ∨
      (¬ ∃ text, found = some text ∧ text.length < maxLabelSize) ∧
        ∃ stop, sprintfLabel found = .error stop ∧ ¬ stop.Harmless := by
  cases found with
  | none => exact .inr ⟨fun ⟨text, htext, _⟩ => (by cases htext), .uninitialised, rfl, id⟩
  | some text =>
      by_cases hfits : text.length < maxLabelSize
      · exact .inl ⟨text, rfl, hfits, if_neg (not_le.mpr hfits)⟩
      · refine .inr ⟨?_, .overrun, if_pos (not_lt.mp hfits), id⟩
        rintro ⟨other, hother, hlength⟩
        cases hother
        exact hfits hlength

/-- One label is resolved within its room if the names are found and fit, and past its end
or from uninitialised names if not. -/
theorem resolveLabel_cases (symbols : Symbols) (label : Text) :
    NamesFit symbols label ∧ (∃ text, resolveLabel symbols label = .ok text ∧
        (text = label ∨ text.length < maxLabelSize)) ∨
      ¬ NamesFit symbols label ∧
        ∃ stop, resolveLabel symbols label = .error stop ∧ ¬ stop.Harmless := by
  rw [namesFit_iff, resolveLabel_eq]
  cases symbols.resolution label with
  | none => exact .inl ⟨by simp, label, rfl, .inl rfl⟩
  | some found =>
      simp only [Option.mem_some_iff, forall_eq', Option.elim_some]
      rcases sprintfLabel_cases found with ⟨text, hfound, hlength, hok⟩ | hstops
      · exact .inl ⟨⟨text, hfound, hlength⟩, text, hok, .inr hlength⟩
      · exact .inr hstops

end Texts

/-! ## Labels fit -/

/-- All labels of a record are strings that their buffers hold. -/
def PerthreadData.LabelsFit (thread : PerthreadData) : Prop :=
  ∀ j, (thread.data j).label.length < maxLabelSize

/-- All labels of a process are strings that their buffers hold. -/
structure LabelledProcess.LabelsFit (process : LabelledProcess) : Prop where
  threads : ∀ tid thread, process.threads tid = some thread → thread.LabelsFit
  sums : process.processDataSums.LabelsFit

theorem labelsFit_fresh : PerthreadData.LabelsFit {} := fun _ => Nat.succ_pos 63

namespace PerthreadData

variable {thread : PerthreadData} {record : CaliperData} {j : ℕ}

theorem LabelsFit.setCaliper (h : thread.LabelsFit)
    (hrecord : record.label.length < maxLabelSize) : (thread.setCaliper j record).LabelsFit := by
  intro i
  by_cases hi : i = j
  · subst hi
    rw [setCaliper_data_self]
    exact hrecord
  · rw [setCaliper_data_of_ne _ _ _ _ hi]
    exact h i

end PerthreadData

/-! ### `papiex_start` -/

namespace CaliperData

variable (cfg : Config) (thread : PerthreadData) (point : ℕ) (label : Option Text)
variable (io : Sampling) (record : CaliperData)

@[simp] theorem start_label :
    (start cfg thread point label io record).label = keptLabel point label record.label := by
  unfold start takeBase takeClocks
  split <;> rfl

@[simp] theorem stop_label : (stop cfg thread point io record).label = record.label := by
  unfold stop
  simp only
  split
  · split <;> rfl
  · rfl

@[simp] theorem accum_label : (accum cfg point io record).label = record.label := by
  unfold accum
  simp only
  split
  · split <;> rfl
  · rfl

/-- `strncpy` cuts a label off. -/
theorem keptLabel_length_lt {old : Text} (h : old.length < maxLabelSize) :
    (keptLabel point label old).length < maxLabelSize := by
  cases label with
  | none => exact h
  | some text =>
      unfold keptLabel
      simp only
      split
      · rw [List.length_take]
        exact Nat.lt_of_le_of_lt (min_le_left _ _) (Nat.lt_succ_self 63)
      · exact h

end CaliperData

section Writers

variable {cfg : Config} {thread thread' : PerthreadData}

/-- Every call of the application keeps the labels in their bounds. -/
theorem Call.apply_labelsFit (h : thread.LabelsFit) (call : Call) :
    (call.apply cfg thread).LabelsFit := by
  cases call with
  | start point label io =>
      refine PerthreadData.LabelsFit.setCaliper h ?_
      rw [CaliperData.start_label]
      exact CaliperData.keptLabel_length_lt _ _ (h _)
  | accum point io =>
      refine PerthreadData.LabelsFit.setCaliper h ?_
      rw [CaliperData.accum_label]
      exact h _
  | stop point io =>
      refine PerthreadData.LabelsFit.setCaliper h ?_
      rw [CaliperData.stop_label]
      exact h _

/-- The calls of the caliper interface keep labels fitting. -/
theorem Call.exec_labelsFit {tls : Option PerthreadData} {call : Call}
    (h : ∀ thread, tls = some thread → thread.LabelsFit)
    (hexec : call.exec cfg tls = .ok (some thread')) : thread'.LabelsFit := by
  by_cases hev : cfg.eventcnt = 0
  · -- without events a call changes nothing
    have hsame : tls = some thread' := by
      cases call <;>
        simpa [exec, papiexStart, papiexAccum, papiexStop, callOnPoint, hev] using hexec
    exact h thread' hsame
  · cases tls with
    | none =>
        cases call <;>
          simp [exec, papiexStart, papiexAccum, papiexStop, callOnPoint, hev] at hexec
    | some thread =>
        obtain ⟨-, ⟨-, hsame⟩ | ⟨-, -, hsome⟩⟩ := (Call.exec_eq_ok_iff hev).mp hexec
        · cases hsame
          exact h _ rfl
        · cases hsome
          exact Call.apply_labelsFit (h thread rfl) call

/-! ### `match_caliper_label` -/

theorem matchCaliperLabel_length_lt {label subLabel kept : Text}
    (h : label.length < maxLabelSize) (hsub : subLabel.length < maxLabelSize)
    (hkept : matchCaliperLabel label subLabel = some kept) : kept.length < maxLabelSize := by
  unfold matchCaliperLabel at hkept
  split_ifs at hkept <;> cases hkept <;> assumption

theorem mergeCaliper_label_length_lt {sums record : CaliperData}
    (h : sums.label.length < maxLabelSize) (hsub : record.label.length < maxLabelSize) :
    (mergeCaliper cfg sums record).label.length < maxLabelSize := by
  unfold mergeCaliper
  cases hkept : matchCaliperLabel sums.label record.label with
  | none => exact h
  | some kept =>
      have hlength := matchCaliperLabel_length_lt h hsub hkept
      simp only [addProfiling_eq]
      split <;> exact hlength

/-! ### `resolve_symbols` -/

variable {symbols : Symbols}

/-- Resolving keeps the labels in their bounds, if it comes to its end. -/
theorem resolveCaliper_labelsFit {j : ℕ} (h : thread.LabelsFit)
    (hresolve : resolveCaliper symbols thread j = .ok thread') : thread'.LabelsFit := by
  unfold resolveCaliper at hresolve
  rcases resolveLabel_cases symbols (thread.data j).label with
    ⟨-, text, htext, hlength⟩ | ⟨-, stop, hstop, -⟩
  · rw [htext] at hresolve
    cases hresolve
    refine PerthreadData.LabelsFit.setCaliper h ?_
    rcases hlength with rfl | hlength
    · exact h j
    · exact hlength
  · rw [hstop] at hresolve
    cases hresolve

/-- Resolving leaves the room of a label exactly if the names are not found or do not fit
for one of the calipers. -/
theorem run_resolveCaliper_cases (symbols : Symbols) (thread : PerthreadData) {js : List ℕ}
    (hnodup : js.Nodup) :
    (∀ j ∈ js, NamesFit symbols (thread.data j).label) ∧
        (∃ thread', FallibleRun.run (resolveCaliper symbols) thread js = .ok thread') ∨
      ¬ (∀ j ∈ js, NamesFit symbols (thread.data j).label) ∧
        ∃ stop, FallibleRun.run (resolveCaliper symbols) thread js = .error stop ∧
          ¬ stop.Harmless := by
  induction js generalizing thread with
  | nil => exact .inl ⟨by simp, thread, rfl⟩
  | cons j js ih =>
      obtain ⟨hnew, hnodup⟩ := List.nodup_cons.mp hnodup
      rcases resolveLabel_cases symbols (thread.data j).label with
        ⟨hfits, text, htext, -⟩ | ⟨hnot, stop, hstop, hharm⟩
      · have hstep : resolveCaliper symbols thread j =
            .ok (thread.setCaliper j { thread.data j with label := text }) := by
          rw [resolveCaliper, htext]
        -- the other labels are still what they were
        have hrest : ∀ i ∈ js,
            (thread.setCaliper j { thread.data j with label := text }).data i = thread.data i :=
          fun i hi => PerthreadData.setCaliper_data_of_ne _ _ _ _ fun heq => hnew (heq ▸ hi)
        have hsame : (∀ i ∈ js, NamesFit symbols
            ((thread.setCaliper j { thread.data j with label := text }).data i).label) ↔
              ∀ i ∈ js, NamesFit symbols (thread.data i).label :=
          forall₂_congr fun i hi => by rw [hrest i hi]
        rw [FallibleRun.run_cons_ok hstep, List.forall_mem_cons, ← hsame]
        rcases ih (thread.setCaliper j { thread.data j with label := text }) hnodup with
          ⟨hall, hrun⟩ | ⟨hnot, hrun⟩
        · exact .inl ⟨⟨hfits, hall⟩, hrun⟩
        · exact .inr ⟨fun h => hnot h.2, hrun⟩
      · have hstep : resolveCaliper symbols thread j = .error stop := by
          rw [resolveCaliper, hstop]
        refine .inr ⟨fun h => hnot (h j List.mem_cons_self), stop, ?_, hharm⟩
        exact FallibleRun.run_cons_error hstep

end Writers

/-! ## Histories of labels -/

namespace LabelledProcess

variable {cfg : Config} {process after : LabelledProcess} {event : LabelEvent}

theorem LabelsFit.setThread (h : process.LabelsFit) {tid : ℕ} {thread : Option PerthreadData}
    (hthread : ∀ record, thread = some record → record.LabelsFit) :
    (process.setThread tid thread).LabelsFit where
  threads other record hrecord := by
    by_cases hother : other = tid
    · subst hother
      refine hthread record ?_
      simpa [LabelledProcess.setThread] using hrecord
    · refine h.threads other record ?_
      simpa [LabelledProcess.setThread, Function.update_of_ne hother] using hrecord
  sums := h.sums

/-- The names are found and fit for every label that the event resolves. -/
def NamesFitFor (process : LabelledProcess) : LabelEvent → Prop
  | .call _ _ => True
  | .merge _ _ => True
  | .resolve tid symbols =>
      ∀ thread, process.threads tid = some thread →
        ∀ j ∈ usedCalipers thread, NamesFit symbols (thread.data j).label

/-- **What one event does.**  If the names are found and fit for it, it stays within the
labels, and labels that fit still do; if not, it does not stay within them. -/
theorem exec_cases (cfg : Config) (event : LabelEvent) (h : process.LabelsFit) :
    process.NamesFitFor event ∧
        (∀ stop, process.exec cfg event = .error stop → stop.Harmless) ∧
        (∀ after, process.exec cfg event = .ok after → after.LabelsFit) ∨
      ¬ process.NamesFitFor event ∧
        ∃ stop, process.exec cfg event = .error stop ∧ ¬ stop.Harmless := by
  -- a step that succeeds and keeps labels fitting
  have hgood : ∀ next, process.NamesFitFor event → process.exec cfg event = .ok next →
      next.LabelsFit → process.NamesFitFor event ∧
        (∀ stop, process.exec cfg event = .error stop → stop.Harmless) ∧
        ∀ after, process.exec cfg event = .ok after → after.LabelsFit := by
    intro next hfits hnext hlabels
    rw [hnext]
    refine ⟨hfits, nofun, fun after hafter => ?_⟩
    cases hafter
    exact hlabels
  cases event with
  | call tid call =>
      cases hexec : call.exec cfg (process.threads tid) with
      | error error =>
          have hstep : process.exec cfg (.call tid call) = .error (.fatal error) := by
            simp only [exec, hexec]
          rw [hstep]
          refine .inl ⟨trivial, fun stop hstop => ?_, nofun⟩
          cases hstop
          trivial
      | ok tls =>
          have hstep : process.exec cfg (.call tid call) = .ok (process.setThread tid tls) := by
            simp only [exec, hexec]
          refine .inl (hgood _ trivial hstep (h.setThread fun record hrecord => ?_))
          exact Call.exec_labelsFit (h.threads tid) (hrecord ▸ hexec)
  | merge tid j =>
      cases hthread : process.threads tid with
      | none =>
          have hstep : process.exec cfg (.merge tid j) = .ok process := by
            simp only [exec, hthread]
          exact .inl (hgood _ trivial hstep h)
      | some thread =>
          have hlabel := h.threads tid thread hthread j
          have hroom : ¬ ((process.processDataSums.data j).label = [] ∧
              maxLabelSize ≤ (thread.data j).label.length) := fun hover =>
            absurd hlabel (not_lt.mpr hover.2)
          have hstep : process.exec cfg (.merge tid j) = .ok { process with
              processDataSums := process.processDataSums.setCaliper j
                (mergeCaliper cfg (process.processDataSums.data j) (thread.data j)) } := by
            simp only [exec, hthread, merge, hroom, if_false]
          refine .inl (hgood _ trivial hstep ⟨h.threads, h.sums.setCaliper ?_⟩)
          exact mergeCaliper_label_length_lt (h.sums j) hlabel
  | resolve tid symbols =>
      cases hthread : process.threads tid with
      | none =>
          have hstep : process.exec cfg (.resolve tid symbols) = .ok process := by
            simp only [exec, hthread]
          refine .inl (hgood _ (fun thread hsome => ?_) hstep h)
          rw [hthread] at hsome
          cases hsome
      | some thread =>
          have hiff : process.NamesFitFor (.resolve tid symbols) ↔
              ∀ j ∈ usedCalipers thread, NamesFit symbols (thread.data j).label := by
            simp [NamesFitFor, hthread]
          have hnodup : (usedCalipers thread).Nodup := List.nodup_range.filter _
          rcases run_resolveCaliper_cases symbols thread hnodup with
            ⟨hall, thread', hrun⟩ | ⟨hnot, stop, hrun, hharm⟩
          · have hstep : process.exec cfg (.resolve tid symbols) =
                .ok (process.setThread tid (some thread')) := by
              simp only [exec, hthread, resolveSymbols, hrun]
            refine .inl (hgood _ (hiff.mpr hall) hstep (h.setThread fun record hrecord => ?_))
            cases hrecord
            exact FallibleRun.run_invariant PerthreadData.LabelsFit
              (fun j _ before next hbefore hnext => resolveCaliper_labelsFit hbefore hnext)
              (h.threads tid thread hthread) hrun
          · refine .inr ⟨mt hiff.mp hnot, stop, ?_, hharm⟩
            simp only [exec, hthread, resolveSymbols, hrun]

/-- **In every run that goes on the labels fit.** -/
theorem labelsFit_of_run {events : List LabelEvent}
    (hrun : FallibleRun.run (exec cfg) {} events = .ok after) : after.LabelsFit := by
  refine FallibleRun.run_invariant LabelsFit (fun event _ before next h hnext => ?_)
    ⟨fun tid thread hthread => ?_, labelsFit_fresh⟩ hrun
  · rcases exec_cases cfg event h with ⟨-, -, hkept⟩ | ⟨-, stop, hstop, -⟩
    · exact hkept next hnext
    · rw [hstop] at hnext
      cases hnext
  · cases hthread
    exact labelsFit_fresh

/-- **Labels fit their buffers.**  Along a history of calls, copies and resolutions, from
fresh records, every label is a string that its buffer holds, and nothing is written past
the end of one or from names that were not found, if and only if the names are found and
fit for each resolution where it is made. -/
theorem labels_never_overrun_iff (cfg : Config) (events : List LabelEvent) :
    ((∀ stop, FallibleRun.run (exec cfg) {} events = .error stop → stop.Harmless) ∧
        ∀ front rest process, events = front ++ rest →
          FallibleRun.run (exec cfg) {} front = .ok process → process.LabelsFit) ↔
      ∀ front event rest process, events = front ++ event :: rest →
        FallibleRun.run (exec cfg) {} front = .ok process → process.NamesFitFor event := by
  constructor
  · rintro ⟨hnever, -⟩ front event rest process hsplit hfront
    rcases exec_cases cfg event (labelsFit_of_run hfront) with
      ⟨hfits, -⟩ | ⟨-, stop, hstop, hharm⟩
    · exact hfits
    · exact absurd (hnever stop (FallibleRun.run_eq_error_iff.mpr
        ⟨front, event, rest, process, hsplit, hfront, hstop⟩)) hharm
  · intro hall
    refine ⟨fun stop hrun => ?_, fun front rest process _ hfront => labelsFit_of_run hfront⟩
    obtain ⟨front, event, rest, process, hsplit, hfront, hstop⟩ :=
      FallibleRun.run_eq_error_iff.mp hrun
    rcases exec_cases cfg event (labelsFit_of_run hfront) with
      ⟨-, hharmless, -⟩ | ⟨hnot, -⟩
    · exact hharmless stop hstop
    · exact absurd (hall front event rest process hsplit hfront) hnot

/-! ### A long name -/

/-- The symbols of a program that was built with gcc instrumentation. -/
def solverSymbols : Symbols where
  gccProf := true
  pathscaleProf := .none
  sections _ :=
    some { file := "solver.c".toList, func := "solve_heat_equation".toList, line := 42 }

/-- The record of a thread with one instrumented function that has been called once. -/
def instrumentedThread (cfg : Config) : PerthreadData :=
  (PerthreadData.startPoint cfg 1 (some (functionLabel 0x400500)) (.ofReading 0) {}).stopPoint cfg 1
    (.ofReading 10)

/-- The thread has used no caliper but the first. -/
theorem usedCalipers_instrumentedThread (cfg : Config) :
    usedCalipers (instrumentedThread cfg) = [1] := by
  have hused : ∀ j ∈ List.range maxCalipers,
      (decide (j ≠ 0) && decide (0 < ((instrumentedThread cfg).data j).used)) = decide (j = 1) := by
    intro j _
    by_cases hj : j = 1
    · subst hj
      have hpos : 0 < ((instrumentedThread cfg).data 1).used := by
        simpa [instrumentedThread, PerthreadData.stopPoint, PerthreadData.startPoint] using
          Binary32.round_pos (x := 1) one_pos
      simp [hpos]
    · have hzero : ((instrumentedThread cfg).data j).used = 0 := by
        simp [instrumentedThread, PerthreadData.stopPoint, PerthreadData.startPoint,
          PerthreadData.setCaliper_data_of_ne _ _ _ _ hj]
      simp [hzero, hj]
  show (List.range maxCalipers).filter _ = [1]
  rw [List.filter_congr hused]
  decide

theorem label_instrumentedThread (cfg : Config) :
    ((instrumentedThread cfg).data 1).label = functionLabel 0x400500 := by
  simp only [instrumentedThread, PerthreadData.stopPoint, PerthreadData.startPoint,
    PerthreadData.setCaliper_data_self, CaliperData.stop_label, CaliperData.start_label]
  decide

/-- Resolving the thread's labels overruns the label of the function. -/
theorem resolveSymbols_instrumentedThread (cfg : Config) :
    resolveSymbols solverSymbols (instrumentedThread cfg) = .error .overrun := by
  have hlabel : resolveLabel solverSymbols (functionLabel 0x400500) = .error .overrun := by
    have hlocation : solverSymbols.resolution (functionLabel 0x400500) =
        some (some (functionText 0x400500
          { file := "solver.c".toList, func := "solve_heat_equation".toList, line := 42 })) := by
      decide
    rw [resolveLabel_eq, hlocation]
    rfl
  rw [resolveSymbols, usedCalipers_instrumentedThread, FallibleRun.run_singleton, resolveCaliper,
    label_instrumentedThread, hlabel]

/-- A function with a long name overruns its label. -/
theorem label_overrun_long_name :
    FallibleRun.run (exec (plainSettings.withDefaultEvents true true)) {}
        [.call 0 (.start 1 (some (functionLabel 0x400500)) (.ofReading 0)),
          .call 0 (.stop 1 (.ofReading 10)), .resolve 0 solverSymbols] =
      .error .overrun := by
  have hfront : ∃ process : LabelledProcess,
      FallibleRun.run (exec (plainSettings.withDefaultEvents true true)) {}
          [.call 0 (.start 1 (some (functionLabel 0x400500)) (.ofReading 0)),
            .call 0 (.stop 1 (.ofReading 10))] = .ok process ∧
        process.threads 0 = some (instrumentedThread (plainSettings.withDefaultEvents true true)) :=
    ⟨_, rfl, rfl⟩
  obtain ⟨process, hrun, hthread⟩ := hfront
  rw [FallibleRun.run_eq_error_iff]
  refine ⟨_, _, [], process, rfl, hrun, ?_⟩
  simp only [exec, hthread, resolveSymbols_instrumentedThread]

end LabelledProcess

end Papiex
