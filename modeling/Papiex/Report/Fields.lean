import Mathlib.Data.List.Infix
import Papiex.Output.Counters
import Papiex.Report.Lines

/-!
# How the reader takes a printed field

A count is printed as a value, blanks and a field.  The sign of the value and the
first characters of the field decide what the reader makes of it; the label of a
caliper gets between the brackets that the reader looks for.

## Main results

* `countWritten_countLine`: what the reader makes of a count line.
* `caliperField_inj`: the field of a caliper tells its label and its quantity.
-/

namespace Papiex

open Chars Report

/-! ## Count lines -/

/-- What a line starts with if it starts with a number. -/
theorem countLine_eq_of_nonneg {value : ℤ} (h : 0 ≤ value) (field : Text) :
    ∃ blank : ℕ, countLine value field =
      decimal value.toNat ++ (List.replicate (blank + 1) ' ' ++ field) := by
  refine ⟨16 - (decimal value.toNat).length, ?_⟩
  rw [countLine, padRight, signed_of_nonneg h, List.replicate_succ']
  simp

/-- The line of a negative count begins with the sign. -/
theorem countLine_eq_of_neg {value : ℤ} (h : value < 0) (field : Text) :
    ∃ rest, countLine value field = '-' :: rest := by
  rw [countLine, padRight, signed_of_neg h, List.cons_append, List.cons_append]
  exact ⟨_, rfl⟩

theorem isNumberChar_of_isDigit {c : Char} (h : c.isDigit = true) : isNumberChar c = true := by
  simp [isNumberChar, h]

theorem isUpper_iff {c : Char} : c.isUpper = true ↔ 'A'.toNat ≤ c.toNat ∧ c.toNat ≤ 'Z'.toNat :=
  decide_eq_true_iff

theorem isLower_iff {c : Char} : c.isLower = true ↔ 'a'.toNat ≤ c.toNat ∧ c.toNat ≤ 'z'.toNat := by
  show (decide _ && decide _) = true ↔ _
  rw [Bool.and_eq_true, decide_eq_true_iff, decide_eq_true_iff]
  exact Iff.rfl

theorem not_isAlpha_of_isDigit {c : Char} (h : c.isDigit = true) : c.isAlpha = false := by
  have h9 : c.toNat ≤ 57 := (Char.isDigit_iff_toNat.mp h).2
  show (c.isUpper || c.isLower) = false
  rw [Bool.or_eq_false_iff]
  constructor
  · by_contra hupper
    have hA : 65 ≤ c.toNat := (isUpper_iff.mp (by simpa using hupper)).1
    omega
  · by_contra hlower
    have ha : 97 ≤ c.toNat := (isLower_iff.mp (by simpa using hlower)).1
    omega

/-- A count line is not taken for a line of the header. -/
theorem matchHeader_countLine (value : ℤ) (field : Text) :
    matchHeader (countLine value field) = none := by
  apply matchHeader_of_not_isAlpha
  intro c hc
  by_cases hneg : value < 0
  · obtain ⟨rest, hline⟩ := countLine_eq_of_neg hneg field
    rw [hline, List.head?_cons, Option.mem_some_iff] at hc
    subst hc
    decide
  · obtain ⟨blank, hline⟩ := countLine_eq_of_nonneg (not_lt.mp hneg) field
    obtain ⟨d, digits, hdecimal⟩ := List.exists_cons_of_ne_nil (decimal_ne_nil value.toNat)
    have hdigit : d.isDigit = true :=
      isDigit_of_mem_decimal (n := value.toNat) (by rw [hdecimal]; exact List.mem_cons_self)
    rw [hline, hdecimal, List.cons_append, List.head?_cons, Option.mem_some_iff] at hc
    subst hc
    exact not_isAlpha_of_isDigit hdigit

/-- A negative count is not read as a count. -/
theorem matchNumber_countLine_of_neg {value : ℤ} (h : value < 0) (field : Text) :
    matchNumber (countLine value field) = none := by
  obtain ⟨rest, hline⟩ := countLine_eq_of_neg h field
  apply matchNumber_of_not_isNumberChar
  intro c hc
  rw [hline, List.head?_cons, Option.mem_some_iff] at hc
  subst hc
  decide

/-- A count that is not negative is read back, with its field. -/
theorem matchNumber_countLine {value : ℤ} (h : 0 ≤ value) {field : Text}
    (hfield : ∀ c ∈ field.head?, isSpace c = false) :
    matchNumber (countLine value field) = some (decimal value.toNat, field) := by
  obtain ⟨blank, hline⟩ := countLine_eq_of_nonneg h field
  have hblank : ∀ c ∈ List.replicate (blank + 1) ' ',
      isSpace c = true ∧ isNumberChar c = false := by
    intro c hc
    rw [List.eq_of_mem_replicate hc]
    decide
  rw [hline]
  refine matchNumber_append (decimal_ne_nil _) ?_ (by simp) hblank hfield
  intro c hc
  exact isNumberChar_of_isDigit (isDigit_of_mem_decimal hc)

/-- A field the reader finds as it was printed: at least two characters, without a
blank at either end. -/
structure Legible (field : Text) : Prop where
  head : ∀ c ∈ field.head?, isSpace c = false
  last : field.getLast?.all (fun c => !isSpace c) = true

/-- A negative count is not read as a label. -/
theorem matchLabel_countLine_of_neg {value : ℤ} (h : value < 0) (field : Text) :
    matchLabel (countLine value field) = none := by
  unfold matchLabel
  rw [matchNumber_countLine_of_neg h]

/-- A count is read as a label exactly if its field begins with the marker of labels. -/
theorem matchLabel_countLine {value : ℤ} (h : 0 ≤ value) {field : Text}
    (hfield : ∀ c ∈ field.head?, isSpace c = false) :
    matchLabel (countLine value field) =
      (dropPrefix labelMarker field).map fun label => (decimal value.toNat, label) := by
  unfold matchLabel
  rw [matchNumber_countLine h hfield]
  rfl

theorem countWritten_countLine_of_neg {value : ℤ} (h : value < 0) (tid : Option Text)
    (field : Text) : countWritten tid (countLine value field) = none := by
  unfold countWritten matchCount
  rw [matchNumber_countLine_of_neg h, Option.map_none, ite_self]

/-- What a count line writes, with the level and the key the markers decide. -/
def markedCount (tid : Option Text) (field : Text) (val : ℚ) : Option Text × Text × ℚ :=
  match dropPrefixNoCase processMarker field with
  | some stripped => (none, stripped, val)
  | none => (tid, field, val)

/-- **A count line writes its value exactly if the value is not negative and the
field is long enough and not marked as a label.** -/
theorem countWritten_countLine {value : ℤ} (h : 0 ≤ value) (tid : Option Text) {field : Text}
    (hfield : Legible field) :
    countWritten tid (countLine value field) =
      if dropPrefix labelMarker field = none ∧ 2 ≤ field.length then
        some (markedCount tid field value)
      else none := by
  have hvalue : perlNum (decimal value.toNat) = (value : ℚ) := by
    rw [perlNum_decimal]
    exact_mod_cast Int.toNat_of_nonneg h
  have hlabel := matchLabel_countLine h hfield.head
  by_cases hnone : dropPrefix labelMarker field = none
  · rw [hnone, Option.map_none] at hlabel
    have hnot : (matchLabel (countLine value field)).isSome = false := by rw [hlabel]; rfl
    by_cases hlength : 2 ≤ field.length
    · have hcount := matchCount_eq_some_iff.mpr
        ⟨matchNumber_countLine h hfield.head, hlength, hfield.last⟩
      rw [if_pos ⟨hnone, hlength⟩]
      simp only [countWritten, hnot, hcount, Option.map_some, hvalue]
      rfl
    · have hcount : matchCount (countLine value field) = none := by
        unfold matchCount
        rw [matchNumber_countLine h hfield.head]
        simp [hlength]
      rw [if_neg (fun hboth => hlength hboth.2)]
      simp only [countWritten, hcount, Option.map_none, ite_self]
  · obtain ⟨label, hmarked⟩ := Option.ne_none_iff_exists'.mp hnone
    rw [hmarked, Option.map_some] at hlabel
    rw [if_neg (fun hboth => hnone hboth.1), countWritten_of_label tid hlabel]

/-! ## Brackets -/

/-- The field of a caliper is its label in brackets and then the quantity. -/
theorem caliperField_append (label quantity : Text) :
    caliperField label quantity = caliperField label [] ++ quantity := by
  simp [caliperField]

/-- The bracket after a label closes it, so nothing after it is another one. -/
theorem eq_nil_of_append_close {label label' rest quantity : Text}
    (h : label' ++ "] ".toList = label ++ "] ".toList ++ rest)
    (hquantity : ¬ "] ".toList <:+: rest ++ quantity) : rest = [] := by
  rcases List.append_eq_append_iff.mp h with ⟨front, hfront, hclose⟩ | ⟨front, -, hrest⟩
  · rcases front with _ | ⟨c, _ | ⟨d, front⟩⟩
    · exact absurd ⟨[], quantity, by rw [hclose]; rfl⟩ hquantity
    · have hc : ']' = c := (List.cons.inj hclose).1
      have hlast := congrArg List.getLast? hfront
      subst hc
      simp at hlast
    · have hnil : [] = front ++ rest := (List.cons.inj (List.cons.inj hclose).2).2
      exact (List.append_eq_nil_iff.mp hnil.symm).2
  · exact absurd ⟨front, quantity, by rw [hrest]⟩ hquantity

/-- **The quantity and what stands before the closing bracket can be told from each
other.** -/
theorem append_close_inj {front front' quantity quantity' : Text}
    (hquantity : ¬ "] ".toList <:+: quantity) (hquantity' : ¬ "] ".toList <:+: quantity')
    (h : front ++ "] ".toList ++ quantity = front' ++ "] ".toList ++ quantity') :
    front = front' ∧ quantity = quantity' := by
  rcases List.append_eq_append_iff.mp h with ⟨rest, hfront, hrest⟩ | ⟨rest, hfront, hrest⟩
  · have hnil := eq_nil_of_append_close hfront (hrest ▸ hquantity)
    subst hnil
    rw [List.append_nil] at hfront
    exact ⟨(List.append_cancel_right hfront).symm, hrest⟩
  · have hnil := eq_nil_of_append_close hfront (hrest ▸ hquantity')
    subst hnil
    rw [List.append_nil] at hfront
    exact ⟨List.append_cancel_right hfront, hrest.symm⟩

/-- **The field of a caliper tells its label and its quantity**, if no quantity has a closing
bracket with a blank behind it. -/
theorem caliperField_inj {label label' quantity quantity' : Text}
    (hquantity : ¬ "] ".toList <:+: quantity) (hquantity' : ¬ "] ".toList <:+: quantity')
    (h : caliperField label quantity = caliperField label' quantity') :
    label = label' ∧ quantity = quantity' := by
  obtain ⟨hlabel, hsame⟩ := append_close_inj hquantity hquantity' h
  exact ⟨(List.cons.inj hlabel).2, hsame⟩

/-- A marker at the start of a bracketed field is all in its bracket. -/
theorem marker_prefix_iff {word label quantity : Text} (hword : ']' ∉ word) :
    caliperField word [] <+: caliperField label quantity ↔
      caliperField word [] <+: caliperField label [] := by
  rw [caliperField_append label quantity]
  refine ⟨?_, fun h => h.trans (List.prefix_append _ _)⟩
  rintro ⟨rest, h⟩
  have hclose : word ++ (']' :: ' ' :: rest) = label ++ (']' :: ' ' :: quantity) := by
    simpa [caliperField] using h
  rcases List.append_eq_append_iff.mp hclose with ⟨more, rfl, hmore⟩ | ⟨more, rfl, hmore⟩
  · rcases more with _ | ⟨c, _ | ⟨d, more⟩⟩
    · simp [caliperField]
    · simp at hmore
    · simp only [List.cons_append, List.cons.injEq] at hmore
      obtain ⟨rfl, rfl, -⟩ := hmore
      exact ⟨more ++ "] ".toList, by simp [caliperField]⟩
  · rcases more with _ | ⟨c, more⟩
    · simp [caliperField]
    · simp only [List.cons_append, List.cons.injEq] at hmore
      obtain ⟨rfl, -⟩ := hmore
      exact absurd (by simp) hword

/-- The reader takes the label in its brackets for the marker of a label. -/
def LabelReserved (label : Text) : Prop := labelMarker <+: caliperField label []

/-- The reader takes the label in its brackets for the marker of the process. -/
def ProcessReserved (label : Text) : Prop :=
  processMarker.map Char.toLower <+: (caliperField label []).map Char.toLower

instance : DecidablePred LabelReserved := fun _ => inferInstanceAs (Decidable (_ <+: _))

instance : DecidablePred ProcessReserved := fun _ => inferInstanceAs (Decidable (_ <+: _))

/-- A pattern that is not dropped is no prefix. -/
theorem dropPrefix_eq_none_iff {pattern text : Text} :
    dropPrefix pattern text = none ↔ ¬ pattern <+: text := by
  rw [Option.eq_none_iff_forall_ne_some]
  constructor
  · rintro h ⟨rest, hrest⟩
    exact h rest (dropPrefix_eq_some_iff.mpr hrest.symm)
  · intro h rest hrest
    exact h ⟨rest, (dropPrefix_eq_some_iff.mp hrest).symm⟩

/-- A pattern that is not dropped is no prefix, up to case. -/
theorem dropPrefixNoCase_eq_none_iff {pattern text : Text} :
    dropPrefixNoCase pattern text = none ↔
      ¬ pattern.map Char.toLower <+: text.map Char.toLower := by
  rw [List.prefix_iff_eq_take, List.length_map, ← List.map_take]
  unfold dropPrefixNoCase
  by_cases h : (text.take pattern.length).map Char.toLower = pattern.map Char.toLower
  · simp [h]
  · rw [if_neg h]
    exact iff_of_true rfl (Ne.symm h)

/-- A caliper is taken for a label only if it is labelled `LABEL`. -/
theorem dropPrefix_caliperField {label quantity : Text} :
    dropPrefix labelMarker (caliperField label quantity) = none ↔ ¬ LabelReserved label := by
  rw [dropPrefix_eq_none_iff]
  exact not_congr (marker_prefix_iff (by decide : ']' ∉ "LABEL".toList))

/-- Only letters have a lower case of their own. -/
theorem eq_of_toLower_eq {c d : Char} (h : c.toLower = d) (hd : d.isLower = false) : c = d := by
  unfold Char.toLower at h
  split at h
  · rename_i hupper
    have hlow : 65 ≤ c.val.toNat := hupper.1
    have hhigh : c.val.toNat ≤ 90 := hupper.2
    have hval : d.val.toNat = c.val.toNat + 32 := by
      rw [← h]
      show (c.val + ('a'.val - 'A'.val)).toNat = c.val.toNat + 32
      rw [UInt32.toNat_add]
      have h32 : ('a'.val - 'A'.val).toNat = 32 := rfl
      omega
    have hlower : d.isLower = true := by
      refine isLower_iff.mpr ⟨?_, ?_⟩
      · show 97 ≤ d.val.toNat
        omega
      · show d.val.toNat ≤ 122
        omega
    rw [hd] at hlower
    cases hlower
  · exact h

/-- In lower case the field is that of the label and the quantity in lower case. -/
theorem map_toLower_caliperField (label quantity : Text) :
    (caliperField label quantity).map Char.toLower =
      caliperField (label.map Char.toLower) (quantity.map Char.toLower) := by
  simp [caliperField]

/-- A caliper is taken for the process only if it is labelled `PROCESS`, up to case. -/
theorem dropPrefixNoCase_caliperField {label quantity : Text} :
    dropPrefixNoCase processMarker (caliperField label quantity) = none ↔
      ¬ ProcessReserved label := by
  have hmarker : processMarker.map Char.toLower = caliperField "process".toList [] := by decide
  rw [dropPrefixNoCase_eq_none_iff, ProcessReserved, hmarker, map_toLower_caliperField,
    map_toLower_caliperField]
  exact not_congr (marker_prefix_iff (by decide))

/-- The field starts with a bracket that is closed. -/
def Bracketed (field : Text) : Prop := ∃ label rest, field = caliperField label rest

/-- A field with the marker of labels is bracketed. -/
theorem bracketed_of_labelMarker {field : Text} (h : labelMarker <+: field) : Bracketed field := by
  obtain ⟨rest, rfl⟩ := h
  have hmarker : labelMarker = caliperField "LABEL".toList [] := by decide
  exact ⟨"LABEL".toList, rest, by rw [hmarker, ← caliperField_append]⟩

/-- A field with the marker of the process is bracketed. -/
theorem bracketed_of_processMarker {field : Text}
    (h : processMarker.map Char.toLower <+: field.map Char.toLower) : Bracketed field := by
  have hmarker : processMarker.map Char.toLower = '[' :: ("process".toList ++ [']', ' ']) := by
    decide
  obtain ⟨rest, hrest⟩ := h
  rw [hmarker, List.cons_append, eq_comm, List.map_eq_cons_iff] at hrest
  obtain ⟨c, field, rfl, hc, hfield⟩ := hrest
  rw [List.append_assoc, List.map_eq_append_iff] at hfield
  obtain ⟨word, field, rfl, -, hfield⟩ := hfield
  rw [List.cons_append, List.map_eq_cons_iff] at hfield
  obtain ⟨d, field, rfl, hd, hfield⟩ := hfield
  rw [List.cons_append, List.map_eq_cons_iff] at hfield
  obtain ⟨e, field, rfl, he, -⟩ := hfield
  obtain rfl := eq_of_toLower_eq hc (by decide)
  obtain rfl := eq_of_toLower_eq hd (by decide)
  obtain rfl := eq_of_toLower_eq he (by decide)
  exact ⟨word, field, by simp [caliperField]⟩

/-- A field without brackets is stored as it is, at the level of the thread. -/
theorem markedCount_of_not_bracketed {field : Text} (h : ¬ Bracketed field) (tid : Option Text)
    (val : ℚ) : markedCount tid field val = (tid, field, val) := by
  unfold markedCount
  rw [dropPrefixNoCase_eq_none_iff.mpr (mt bracketed_of_processMarker h)]

/-! ## Quantities -/

/-- An event name: not empty, and without white space. -/
def IsWord (name : Text) : Prop := name ≠ [] ∧ ∀ c ∈ name, isSpace c = false

/-- What `papiex` knows of the configured events when it counts: there are some, and
their names are tokens. -/
structure Config.EventsNamed (cfg : Config) : Prop where
  ne_nil : cfg.eventnames ≠ []
  word : ∀ name ∈ cfg.eventnames, IsWord name

theorem Config.EventsNamed.newline_not_mem {cfg : Config} (h : cfg.EventsNamed) :
    ∀ name ∈ cfg.eventnames, '\n' ∉ name := by
  intro name hname hmem
  exact absurd ((h.word name hname).2 _ hmem) (by decide)

/-- What can stand after a label: it shows its ends, and it cannot be taken for the end
of a label. -/
structure Quantity (quantity : Text) : Prop where
  ne_nil : quantity ≠ []
  legible : Legible quantity
  unclosed : ¬ "] ".toList <:+: quantity

theorem IsWord.not_mem_blank {name : Text} (h : IsWord name) : ' ' ∉ name := by
  intro hmem
  have hblank := h.2 ' ' hmem
  simp [isSpace] at hblank

theorem IsWord.not_bracketed {name : Text} (h : IsWord name) : ¬ Bracketed name := by
  rintro ⟨label, rest, rfl⟩
  exact h.not_mem_blank (by simp [caliperField])

/-- A word can be a quantity of a caliper. -/
theorem IsWord.quantity {name : Text} (h : IsWord name) : Quantity name where
  ne_nil := h.1
  legible :=
    { head := fun c hc => h.2 c (List.mem_of_mem_head? hc)
      last := by
        rw [Option.all_eq_true]
        intro c hc
        simp [h.2 c (List.mem_of_getLast? hc)] }
  unclosed := by
    intro hwithin
    exact h.not_mem_blank (hwithin.subset (by decide))

/-- The names `print_counters` itself gives to quantities. -/
def ownNames : List Text :=
  ["Measurements", "Real cycles", "Real usecs", "Virtual usecs", "Virtual cycles", "MPI cycles",
    "MPI Sync cycles", "IO cycles", "Thr Sync cycles"].map String.toList

/-- The names that papiex gives to its own counts can be quantities. -/
theorem quantity_of_mem_ownNames {name : Text} (h : name ∈ ownNames) : Quantity name := by
  have hall : ∀ name ∈ ownNames, name ≠ [] ∧ (∀ c ∈ name.head?, isSpace c = false) ∧
      name.getLast?.all (fun c => !isSpace c) = true ∧ ¬ "] ".toList <:+: name := by decide
  obtain ⟨hne, hhead, hlast, hclosed⟩ := hall name h
  exact ⟨hne, ⟨hhead, hlast⟩, hclosed⟩

theorem not_bracketed_of_mem_ownNames {name : Text} (h : name ∈ ownNames) : ¬ Bracketed name := by
  have hall : ∀ name ∈ ownNames, name.head? ≠ some '[' := by decide
  rintro ⟨label, rest, rfl⟩
  exact hall _ h rfl

/-- The field of a caliper is legible whatever its label is. -/
theorem legible_caliperField (label : Text) {quantity : Text} (h : Quantity quantity) :
    Legible (caliperField label quantity) where
  head := by
    intro c hc
    obtain rfl : '[' = c := Option.some.inj hc
    decide
  last := by
    rw [caliperField_append, List.getLast?_append_of_ne_nil _ h.ne_nil]
    exact h.legible.last

end Papiex
