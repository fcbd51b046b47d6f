import Papiex.Lib.FallibleRun
import Mathlib.Data.Bool.Basic

/-!
# Comma-separated tables

A writer that quotes a field only if it must, and a reader that goes through the text
character by character.  The reader gives back the rows that were written, as long as no
field has a carriage return, which it takes for the end of a line.

## Main results

* `write`, `read`: the writer and the reader.
* `run_writeField`: the reader takes a field as it was written.
* `read_write`: the reader gives back the rows.
-/

namespace CsvTable

open FallibleRun

/-! ## The writer -/

/-- Characters that are quoted. -/
def isSpecial (c : Char) : Bool := c = ',' || c = '"' || c = '\n'

/-- A quotation mark is doubled. -/
def escape (c : Char) : List Char := if c = '"' then ['"', '"'] else [c]

/-- A field is quoted for a character, or if it is empty and the only one of its row. -/
def isQuoted (only : Bool) (field : List Char) : Bool :=
  field.any isSpecial || only && field.isEmpty

def writeField (only : Bool) (field : List Char) : List Char :=
  if isQuoted only field then '"' :: (field.flatMap escape ++ ['"']) else field

def writeFields (only : Bool) : List (List Char) → List Char
  | [] => []
  | [field] => writeField only field
  | field :: rest => writeField only field ++ ',' :: writeFields only rest

def writeRow (row : List (List Char)) : List Char :=
  writeFields (row.length == 1) row ++ ['\n']

/-- The text of a table. -/
def write (rows : List (List (List Char))) : List Char := rows.flatMap writeRow

/-! ## The reader -/

inductive Mode where
  | startRow
  | startField
  | inField
  | inQuoted
  | quoteInQuoted
  | eatReturn
  deriving DecidableEq

/-- The rows that are complete, the row and the field that are not. -/
structure Reader where
  rows : List (List (List Char)) := []
  row : List (List Char) := []
  field : List Char := []
  mode : Mode := .startRow

namespace Reader

def saveField (reader : Reader) (mode : Mode) : Reader :=
  { reader with row := reader.row ++ [reader.field], field := [], mode := mode }

def addChar (reader : Reader) (c : Char) (mode : Mode) : Reader :=
  { reader with field := reader.field ++ [c], mode := mode }

def endRow (reader : Reader) : Reader := { rows := reader.rows ++ [reader.row] }

/-- A character that may end the field, and what comes of another one. -/
def orEnd (reader : Reader) (c : Char) (other : Reader) : Reader :=
  if c = '\n' then (reader.saveField .startRow).endRow
  else if c = '\r' then reader.saveField .eatReturn
  else if c = ',' then reader.saveField .startField
  else other

/-- The first character of a field. -/
def beginField (reader : Reader) (c : Char) : Reader :=
  reader.orEnd c
    (if c = '"' then { reader with mode := .inQuoted } else reader.addChar c .inField)

/-- One character.  After a carriage return there can only be the end of the line. -/
def step (reader : Reader) (c : Char) : Except Unit Reader :=
  match reader.mode with
  | .startRow =>
      if c = '\n' then .ok reader.endRow
      else if c = '\r' then .ok { reader with mode := .eatReturn }
      else .ok (reader.beginField c)
  | .startField => .ok (reader.beginField c)
  | .inField => .ok (reader.orEnd c (reader.addChar c .inField))
  | .inQuoted =>
      if c = '"' then .ok { reader with mode := .quoteInQuoted }
      else .ok (reader.addChar c .inQuoted)
  | .quoteInQuoted =>
      if c = '"' then .ok (reader.addChar c .inQuoted)
      else .ok (reader.orEnd c (reader.addChar c .inField))
  | .eatReturn =>
      if c = '\n' then .ok reader.endRow
      else if c = '\r' then .ok reader
      else .error ()

/-- The rows at the end of the text. -/
def finish (reader : Reader) : List (List (List Char)) :=
  match reader.mode with
  | .startRow => reader.rows
  | .eatReturn => reader.rows ++ [reader.row]
  | _ => reader.rows ++ [reader.row ++ [reader.field]]

end Reader

/-- The rows of a text. -/
def read (text : List Char) : Except Unit (List (List (List Char))) :=
  (run Reader.step {} text).map Reader.finish

/-! ## Reading what was written -/

variable {reader : Reader} {field : List Char} {c : Char}

theorem isSpecial_eq_false_iff : isSpecial c = false ↔ c ≠ ',' ∧ c ≠ '"' ∧ c ≠ '\n' := by
  simp [isSpecial, and_assoc]

theorem Reader.orEnd_of_plain (other : Reader) (hspecial : isSpecial c = false)
    (hreturn : c ≠ '\r') : reader.orEnd c other = other := by
  obtain ⟨hcomma, -, hnewline⟩ := isSpecial_eq_false_iff.mp hspecial
  unfold Reader.orEnd
  rw [if_neg hnewline, if_neg hreturn, if_neg hcomma]

/-- A field that is not quoted, from its second character on. -/
theorem run_inField (hmode : reader.mode = .inField) (hspecial : ∀ c ∈ field, isSpecial c = false)
    (hreturn : '\r' ∉ field) :
    run Reader.step reader field = .ok { reader with field := reader.field ++ field } := by
  induction field generalizing reader with
  | nil => simp
  | cons c field ih =>
      have hstep : reader.step c = .ok (reader.addChar c .inField) := by
        unfold Reader.step
        rw [hmode]
        dsimp only
        rw [Reader.orEnd_of_plain _ (hspecial c List.mem_cons_self)
          (fun heq => hreturn (heq ▸ List.mem_cons_self))]
      rw [run_cons_ok hstep, ih rfl (fun c hc => hspecial c (List.mem_cons_of_mem _ hc))
        (fun hmem => hreturn (List.mem_cons_of_mem _ hmem))]
      simp [Reader.addChar, hmode]

/-- What stands between quotation marks. -/
theorem run_inQuoted (hmode : reader.mode = .inQuoted) (field : List Char) :
    run Reader.step reader (field.flatMap escape) =
      .ok { reader with field := reader.field ++ field } := by
  induction field generalizing reader with
  | nil => simp
  | cons c field ih =>
      rw [List.flatMap_cons]
      have hchar : run Reader.step reader (escape c) = .ok (reader.addChar c .inQuoted) := by
        unfold escape
        by_cases hquote : c = '"'
        · rw [if_pos hquote, hquote]
          have hfirst : reader.step '"' = .ok { reader with mode := .quoteInQuoted } := by
            unfold Reader.step
            rw [hmode]
            rfl
          rw [run_cons_ok hfirst]
          rfl
        · rw [if_neg hquote, run_singleton]
          unfold Reader.step
          rw [hmode]
          exact if_neg hquote
      rw [run_append, hchar]
      show run Reader.step (reader.addChar c .inQuoted) (field.flatMap escape) = _
      rw [ih rfl]
      simp [Reader.addChar, hmode]

/-- The reader is at the beginning of a field. -/
def Reader.AtField (reader : Reader) : Prop :=
  (reader.mode = .startRow ∨ reader.mode = .startField) ∧ reader.field = []

/-- The field has been read, but for what ends it. -/
structure Reader.HasField (before : Reader) (text : List Char) (after : Reader) : Prop where
  rows : after.rows = before.rows
  row : after.row = before.row
  field : after.field = text
  mode : after.mode = .inField ∨ after.mode = .quoteInQuoted ∨
    text = [] ∧ after.mode = before.mode

theorem Reader.step_of_atField (h : reader.AtField) (hnewline : c ≠ '\n') (hreturn : c ≠ '\r') :
    reader.step c = .ok (reader.beginField c) := by
  unfold Reader.step
  rcases h.1 with hmode | hmode
  · rw [hmode]
    dsimp only
    rw [if_neg hnewline, if_neg hreturn]
  · rw [hmode]

/-- **A field is read back.**  If it is the only one of its row, the row has begun. -/
theorem run_writeField (only : Bool) (h : reader.AtField) (hreturn : '\r' ∉ field) :
    ∃ after, run Reader.step reader (writeField only field) = .ok after ∧
      reader.HasField field after ∧ (only = true → after.mode ≠ .startRow) := by
  unfold writeField
  by_cases hquoted : isQuoted only field = true
  · rw [if_pos hquoted]
    have hfirst : reader.step '"' = .ok { reader with mode := .inQuoted } :=
      Reader.step_of_atField h (by decide) (by decide)
    rw [run_cons_ok hfirst, run_append, run_inQuoted rfl]
    refine ⟨{ reader with field := reader.field ++ field, mode := .quoteInQuoted }, rfl,
      ⟨rfl, rfl, ?_, .inr (.inl rfl)⟩, nofun⟩
    show reader.field ++ field = field
    rw [h.2, List.nil_append]
  · rw [if_neg hquoted]
    unfold isQuoted at hquoted
    obtain ⟨hany, honly⟩ := Bool.or_eq_false_iff.mp (Bool.eq_false_of_not_eq_true hquoted)
    cases field with
    | nil =>
        refine ⟨reader, rfl, ⟨rfl, rfl, h.2, .inr (.inr ⟨rfl, rfl⟩)⟩, fun htrue => ?_⟩
        rw [htrue] at honly
        cases honly
    | cons c rest =>
        have hspecial : ∀ c' ∈ c :: rest, isSpecial c' = false := fun c' hc' =>
          Bool.eq_false_of_not_eq_true (List.any_eq_false.mp hany c' hc')
        have hc := hspecial c List.mem_cons_self
        have hcreturn : c ≠ '\r' := fun heq => hreturn (heq ▸ List.mem_cons_self)
        obtain ⟨-, hquote, hnewline⟩ := isSpecial_eq_false_iff.mp hc
        have hstep : reader.step c = .ok (reader.addChar c .inField) := by
          rw [Reader.step_of_atField h hnewline hcreturn, Reader.beginField,
            Reader.orEnd_of_plain _ hc hcreturn, if_neg hquote]
        rw [run_cons_ok hstep, run_inField rfl
          (fun c' hc' => hspecial c' (List.mem_cons_of_mem _ hc'))
          (fun hmem => hreturn (List.mem_cons_of_mem _ hmem))]
        refine ⟨_, rfl, ⟨rfl, rfl, ?_, .inl rfl⟩, nofun⟩
        show reader.field ++ [c] ++ rest = c :: rest
        rw [h.2]
        rfl

/-- The character that ends the field.  After an empty one the reader may still be at the
beginning of the row, where a newline would end the row without it. -/
theorem Reader.HasField.step_end {after : Reader} (h : reader.HasField field after)
    (hat : reader.AtField) (hquote : c ≠ '"') (hbegun : c = ',' ∨ after.mode ≠ .startRow) :
    ∃ other, after.step c = .ok (after.orEnd c other) := by
  unfold Reader.step
  rcases h.mode with hmode | hmode | ⟨-, hmode⟩
  · rw [hmode]
    exact ⟨_, rfl⟩
  · rw [hmode]
    dsimp only
    rw [if_neg hquote]
    exact ⟨_, rfl⟩
  · rcases hat.1 with hbefore | hbefore
    · have hcomma : c = ',' := hbegun.resolve_right fun hne => hne (hmode.trans hbefore)
      rw [hmode, hbefore, hcomma]
      exact ⟨_, rfl⟩
    · rw [hmode, hbefore]
      exact ⟨_, rfl⟩

/-- A comma saves the field. -/
theorem Reader.HasField.step_comma {after : Reader} (h : reader.HasField field after)
    (hat : reader.AtField) :
    after.step ',' =
      .ok { rows := reader.rows, row := reader.row ++ [field], mode := .startField } := by
  obtain ⟨other, hstep⟩ := h.step_end hat (c := ',') (by decide) (.inl rfl)
  rw [hstep]
  show Except.ok (after.saveField .startField) = _
  unfold Reader.saveField
  rw [h.rows, h.row, h.field]

/-- The end of the line saves the field and the row. -/
theorem Reader.HasField.step_newline {after : Reader} (h : reader.HasField field after)
    (hat : reader.AtField) (hbegun : after.mode ≠ .startRow) :
    after.step '\n' = .ok { rows := reader.rows ++ [reader.row ++ [field]] } := by
  obtain ⟨other, hstep⟩ := h.step_end hat (c := '\n') (by decide) (.inr hbegun)
  rw [hstep]
  show Except.ok (after.saveField .startRow).endRow = _
  unfold Reader.endRow Reader.saveField
  rw [h.rows, h.row, h.field]

theorem Reader.HasField.mode_ne {after : Reader} (h : reader.HasField field after)
    (hmode : reader.mode = .startField) : after.mode ≠ .startRow := by
  rcases h.mode with heq | heq | ⟨-, heq⟩
  · rw [heq]
    nofun
  · rw [heq]
    nofun
  · rw [heq, hmode]
    nofun

/-- The fields of a row from the second one on. -/
theorem run_writeFields {fields : List (List Char)} (hat : reader.AtField)
    (hmode : reader.mode = .startField) (hne : fields ≠ [])
    (hreturn : ∀ field ∈ fields, '\r' ∉ field) :
    run Reader.step reader (writeFields false fields ++ ['\n']) =
      .ok { rows := reader.rows ++ [reader.row ++ fields] } := by
  induction fields generalizing reader with
  | nil => exact absurd rfl hne
  | cons field rest ih =>
      obtain ⟨hfield, hrest⟩ := List.forall_mem_cons.mp hreturn
      obtain ⟨after, hrun, hhas, -⟩ := run_writeField false hat hfield
      cases rest with
      | nil =>
          show run Reader.step reader (writeField false field ++ ['\n']) = _
          rw [run_append, hrun]
          show run Reader.step after ['\n'] = _
          rw [run_singleton, hhas.step_newline hat (hhas.mode_ne hmode)]
      | cons next rest =>
          show run Reader.step reader
            (writeField false field ++ ',' :: writeFields false (next :: rest) ++ ['\n']) = _
          rw [List.append_assoc, run_append, hrun]
          show run Reader.step after (',' :: (writeFields false (next :: rest) ++ ['\n'])) = _
          rw [run_cons_ok (hhas.step_comma hat), ih ⟨.inr rfl, rfl⟩ rfl (by simp) hrest]
          simp

/-- **A row is read back.** -/
theorem run_writeRow (rows : List (List (List Char))) {row : List (List Char)}
    (hreturn : ∀ field ∈ row, '\r' ∉ field) :
    run Reader.step { rows := rows } (writeRow row) = .ok { rows := rows ++ [row] } := by
  have hat : Reader.AtField { rows := rows } := ⟨.inl rfl, rfl⟩
  unfold writeRow
  cases row with
  | nil => rfl
  | cons field rest =>
      obtain ⟨hfield, hrest⟩ := List.forall_mem_cons.mp hreturn
      cases rest with
      | nil =>
          obtain ⟨after, hrun, hhas, hbegun⟩ := run_writeField true hat hfield
          show run Reader.step { rows := rows } (writeField true field ++ ['\n']) = _
          rw [run_append, hrun]
          show run Reader.step after ['\n'] = _
          rw [run_singleton, hhas.step_newline hat (hbegun rfl)]
          rfl
      | cons next rest =>
          obtain ⟨after, hrun, hhas, -⟩ := run_writeField false hat hfield
          show run Reader.step { rows := rows }
            (writeField false field ++ ',' :: writeFields false (next :: rest) ++ ['\n']) = _
          rw [List.append_assoc, run_append, hrun]
          show run Reader.step after (',' :: (writeFields false (next :: rest) ++ ['\n'])) = _
          rw [run_cons_ok (hhas.step_comma hat),
            run_writeFields ⟨.inr rfl, rfl⟩ rfl (by simp) hrest]
          rfl

/-- **The rows that were written are read back.** -/
theorem read_write {rows : List (List (List Char))}
    (hreturn : ∀ row ∈ rows, ∀ field ∈ row, '\r' ∉ field) : read (write rows) = .ok rows := by
  have hrun : ∀ before, run Reader.step { rows := before } (write rows) =
      .ok { rows := before ++ rows } := by
    induction rows with
    | nil =>
        intro before
        rw [List.append_nil]
        rfl
    | cons row rest ih =>
        obtain ⟨hrow, hrest⟩ := List.forall_mem_cons.mp hreturn
        intro before
        show run Reader.step { rows := before } (writeRow row ++ write rest) = _
        rw [run_append, run_writeRow before hrow]
        show run Reader.step { rows := before ++ [row] } (write rest) = _
        rw [ih hrest, List.append_assoc]
        rfl
  unfold read
  rw [show ({} : Reader) = { rows := [] } from rfl, hrun]
  rfl

end CsvTable
