import Mathlib.Data.List.DropRight
import Mathlib.Data.List.TakeWhile
import Mathlib.Data.Rat.Defs
import Mathlib.Tactic.Common

/-!
# Text as lists of characters

The pieces of formatted text: decimal numerals, padded fields, and texts made of
lines.  Writers put them together and readers take them apart; each piece comes
with the fact that taking it apart gives back what was put in.

## Main results

* `decimal_injective`, `strtol_decimal`: numerals.
* `lines_unlines`, `linesOf_append`: texts made of lines.
* `dropPrefix_eq_some_iff`, `append_cons_eq_append_cons_iff`: where a text can be split.
-/

namespace Chars

/-! ## Conditions on characters -/

/-- A condition on the characters of a text is decided one by one, not by going through
all characters there are. -/
instance (priority := high) decidableForallMem (p : Char → Prop) [DecidablePred p]
    (text : List Char) : Decidable (∀ c ∈ text, p c) :=
  List.decidableBAll p text

instance (priority := high) decidableExistsMem (p : Char → Prop) [DecidablePred p]
    (text : List Char) : Decidable (∃ c ∈ text, p c) :=
  List.decidableBEx p text

instance (priority := high) decidableForallMemOption (p : Char → Prop) [DecidablePred p]
    (c? : Option Char) : Decidable (∀ c ∈ c?, p c) :=
  Option.decidableForallMem c?

/-! ## Decimal numerals -/

/-- A natural number in decimal. -/
def decimal (n : ℕ) : List Char := Nat.toDigits 10 n

/-- An integer in decimal, with a minus sign if it is negative. -/
def signed (n : ℤ) : List Char := if n < 0 then '-' :: decimal n.natAbs else decimal n.natAbs

theorem decimal_ne_nil (n : ℕ) : decimal n ≠ [] := Nat.toDigits_ne_nil

theorem isDigit_of_mem_decimal {n : ℕ} {c : Char} (h : c ∈ decimal n) : c.isDigit = true :=
  Nat.isDigit_of_mem_toDigits (by omega) (by omega) h

/-- The number a decimal numeral stands for. -/
def ofDecimal (digits : List Char) : ℕ := Nat.ofDigitChars 10 digits 0

@[simp] theorem ofDecimal_decimal (n : ℕ) : ofDecimal (decimal n) = n :=
  Nat.ofDigitChars_ten_toDigits

theorem decimal_injective : Function.Injective decimal :=
  Function.LeftInverse.injective ofDecimal_decimal

theorem signed_of_nonneg {n : ℤ} (h : 0 ≤ n) : signed n = decimal n.toNat := by
  have hnot : ¬ n < 0 := by omega
  rw [signed, if_neg hnot]
  congr 1
  omega

theorem signed_of_neg {n : ℤ} (h : n < 0) : signed n = '-' :: decimal n.natAbs := if_pos h

theorem not_mem_decimal {n : ℕ} {c : Char} (h : c.isDigit = false) : c ∉ decimal n := by
  intro hmem
  rw [isDigit_of_mem_decimal hmem] at h
  cases h

/-- A signed number has digits and at most a sign. -/
theorem not_mem_signed {n : ℤ} {c : Char} (h : c.isDigit = false) (hminus : c ≠ '-') :
    c ∉ signed n := by
  unfold signed
  split
  · simp [hminus, not_mem_decimal h]
  · exact not_mem_decimal h

/-! ## Numbers as C reads them -/

/-- `isspace`. -/
def isspace (c : Char) : Bool :=
  c = ' ' || c = '\t' || c = '\n' || c = '\r' || c = '\x0b' || c = '\x0c'

theorem isspace_of_isDigit {c : Char} (h : c.isDigit = true) : isspace c = false := by
  by_contra hspace
  simp only [isspace, Bool.not_eq_false, Bool.or_eq_true, decide_eq_true_eq] at hspace
  rcases hspace with ((((rfl | rfl) | rfl) | rfl) | rfl) | rfl
  all_goals cases h

/-- `strtol` with base 10, before it is cut off at the bounds of a `long`. -/
def strtol (text : List Char) : ℤ :=
  match text.dropWhile isspace with
  | '-' :: digits => -(ofDecimal (digits.takeWhile Char.isDigit) : ℤ)
  | '+' :: digits => ofDecimal (digits.takeWhile Char.isDigit)
  | digits => ofDecimal (digits.takeWhile Char.isDigit)

theorem strtol_decimal (n : ℕ) : strtol (decimal n) = n := by
  obtain ⟨d, digits, hdecimal⟩ := List.exists_cons_of_ne_nil (decimal_ne_nil n)
  have hdigits : ∀ c ∈ d :: digits, c.isDigit = true := by
    intro c hc
    exact isDigit_of_mem_decimal (n := n) (hdecimal ▸ hc)
  have hall : (d :: digits).takeWhile Char.isDigit = d :: digits :=
    List.takeWhile_eq_self_iff.mpr hdigits
  have hd : d.isDigit = true := hdigits d List.mem_cons_self
  have hspace : ¬ isspace d = true := by
    rw [isspace_of_isDigit hd]
    simp
  rw [strtol, hdecimal, List.dropWhile_cons_of_neg hspace]
  split
  · rename_i heq
    cases heq
    cases hd
  · rename_i heq
    cases heq
    cases hd
  · rw [hall, ← hdecimal, ofDecimal_decimal]

/-! ## Padded fields -/

/-- The text, filled up with blanks to the width. -/
def padRight (width : ℕ) (text : List Char) : List Char :=
  text ++ List.replicate (width - text.length) ' '

theorem mem_padRight {width : ℕ} {text : List Char} {c : Char} (h : c ∈ padRight width text) :
    c ∈ text ∨ c = ' ' := by
  rcases List.mem_append.mp h with htext | hblank
  · exact .inl htext
  · exact .inr (List.eq_of_mem_replicate hblank)

/-! ## Lines -/

/-- The lines of a text; a last line need not be terminated. -/
def linesFrom (line : List Char) : List Char → List (List Char)
  | [] => if line = [] then [] else [line]
  | c :: rest => if c = '\n' then line :: linesFrom [] rest else linesFrom (line ++ [c]) rest

/-- The lines of a text. -/
def lines (text : List Char) : List (List Char) := linesFrom [] text

/-- A text of terminated lines. -/
def unlines (all : List (List Char)) : List Char := all.flatMap fun line => line ++ ['\n']

@[simp] theorem unlines_nil : unlines [] = [] := rfl

@[simp] theorem unlines_cons (line : List Char) (rest : List (List Char)) :
    unlines (line :: rest) = line ++ '\n' :: unlines rest := by
  simp [unlines]

theorem linesFrom_append {line : List Char} (h : '\n' ∉ line) (start rest : List Char) :
    linesFrom start (line ++ '\n' :: rest) = (start ++ line) :: linesFrom [] rest := by
  induction line generalizing start with
  | nil => simp [linesFrom]
  | cons c line ih =>
      obtain ⟨hc, hline⟩ := not_or.mp (mt List.mem_cons.mpr h)
      rw [List.cons_append, linesFrom, if_neg (Ne.symm hc), ih hline]
      simp

/-- **Lines are read back as they were written.** -/
theorem lines_unlines_append {all : List (List Char)} (h : ∀ line ∈ all, '\n' ∉ line)
    (rest : List Char) : lines (unlines all ++ rest) = all ++ lines rest := by
  induction all with
  | nil => rfl
  | cons line all ih =>
      rw [List.forall_mem_cons] at h
      rw [unlines_cons, List.append_assoc, List.cons_append, lines, linesFrom_append h.1,
        List.nil_append, List.cons_append]
      exact congrArg (line :: ·) (ih h.2)

/-- Lines without a newline in them are read back. -/
theorem lines_unlines {all : List (List Char)} (h : ∀ line ∈ all, '\n' ∉ line) :
    lines (unlines all) = all := by
  have hlines := lines_unlines_append h []
  rw [List.append_nil] at hlines
  simpa [lines, linesFrom] using hlines

/-- The lines a text makes that is printed with a newline behind it.  One without a
newline makes one line, and each newline in it starts another. -/
def linesOf (text : List Char) : List (List Char) := lines (text ++ ['\n'])

/-- A text without a newline makes one line. -/
theorem linesOf_of_not_mem {text : List Char} (h : '\n' ∉ text) : linesOf text = [text] := by
  rw [linesOf, lines, linesFrom_append h]
  rfl

/-- A terminated line may be split off. -/
theorem linesFrom_terminated (start text rest : List Char) :
    linesFrom start (text ++ '\n' :: rest) = linesFrom start (text ++ ['\n']) ++ lines rest := by
  induction text generalizing start with
  | nil => simp [linesFrom, lines]
  | cons c text ih =>
      rw [List.cons_append, List.cons_append, linesFrom, linesFrom]
      split
      · rw [ih, List.cons_append]
      · exact ih _

/-- **What is printed line by line is read line by line**, newlines in the printed lines
included. -/
theorem lines_unlines_eq_flatMap (all : List (List Char)) (rest : List Char) :
    lines (unlines all ++ rest) = all.flatMap linesOf ++ lines rest := by
  induction all with
  | nil => rfl
  | cons line all ih =>
      rw [unlines_cons, List.append_assoc, List.cons_append, lines, linesFrom_terminated, ih,
        List.flatMap_cons, List.append_assoc]
      rfl

/-- What stands before a text goes to its first line. -/
theorem linesFrom_eq_cons (start text : List Char) :
    linesFrom start (text ++ ['\n']) =
      (start ++ (linesOf text).headD []) :: (linesOf text).tail := by
  have hgeneral : ∀ text start : List Char, ∃ first more, ∀ before : List Char,
      linesFrom (before ++ start) (text ++ ['\n']) = (before ++ first) :: more := by
    intro text
    induction text with
    | nil => exact fun start => ⟨start, [], fun before => by simp [linesFrom]⟩
    | cons c text ih =>
        intro start
        by_cases hc : c = '\n'
        · exact ⟨start, linesFrom [] (text ++ ['\n']), fun before => by simp [linesFrom, hc]⟩
        · obtain ⟨first, more, hmore⟩ := ih (start ++ [c])
          refine ⟨first, more, fun before => ?_⟩
          rw [List.cons_append, linesFrom, if_neg hc, List.append_assoc]
          exact hmore before
  obtain ⟨first, more, hmore⟩ := hgeneral text []
  have hnone : linesOf text = first :: more := by
    simpa [linesOf, lines] using hmore []
  have hstart : linesFrom start (text ++ ['\n']) = (start ++ first) :: more := by
    simpa using hmore start
  rw [hstart, hnone, List.headD_cons, List.tail_cons]

/-- A front without a newline goes to the first line of what follows. -/
theorem linesOf_append {front : List Char} (h : '\n' ∉ front) (text : List Char) :
    linesOf (front ++ text) =
      (front ++ (linesOf text).headD []) :: (linesOf text).tail := by
  have hfront : ∀ (front start : List Char), '\n' ∉ front →
      linesFrom start (front ++ text ++ ['\n']) = linesFrom (start ++ front) (text ++ ['\n']) := by
    intro front
    induction front with
    | nil => intro start _; simp
    | cons c front ih =>
        intro start hnot
        obtain ⟨hc, hnot⟩ := not_or.mp (mt List.mem_cons.mpr hnot)
        rw [List.cons_append, List.cons_append, linesFrom, if_neg (Ne.symm hc), ih _ hnot]
        simp
  rw [linesOf, lines, hfront front [] h, List.nil_append, linesFrom_eq_cons]

theorem not_mem_linesFrom {start text line : List Char} (hstart : '\n' ∉ start)
    (h : line ∈ linesFrom start text) : '\n' ∉ line := by
  induction text generalizing start with
  | nil =>
      rw [linesFrom] at h
      split at h
      · cases h
      · rw [List.mem_singleton.mp h]
        exact hstart
  | cons c text ih =>
      rw [linesFrom] at h
      split at h
      · rcases List.mem_cons.mp h with rfl | hrest
        · exact hstart
        · exact ih List.not_mem_nil hrest
      · rename_i hc
        refine ih ?_ h
        rw [List.mem_append, not_or, List.mem_singleton]
        exact ⟨hstart, Ne.symm hc⟩

/-- There is no newline in a line. -/
theorem not_mem_lines {text line : List Char} (h : line ∈ lines text) : '\n' ∉ line :=
  not_mem_linesFrom List.not_mem_nil h

/-! ## Words -/

/-- The first word of a text. -/
def word (isBlank : Char → Bool) (text : List Char) : List Char :=
  (text.dropWhile isBlank).takeWhile fun c => !isBlank c

theorem not_isBlank_of_mem_word {isBlank : Char → Bool} {text : List Char} {c : Char}
    (h : c ∈ word isBlank text) : isBlank c = false := by
  simpa using List.mem_takeWhile_imp h

/-- **A text is its own first word if it has no blank.** -/
theorem word_eq_self_iff {isBlank : Char → Bool} {text : List Char} :
    word isBlank text = text ↔ ∀ c ∈ text, isBlank c = false := by
  constructor
  · intro h c hc
    exact not_isBlank_of_mem_word (h ▸ hc)
  · intro h
    have hdrop : text.dropWhile isBlank = text := by
      cases text with
      | nil => rfl
      | cons c rest => rw [List.dropWhile_cons, h c List.mem_cons_self]; rfl
    rw [word, hdrop, List.takeWhile_eq_self_iff]
    intro c hc
    rw [h c hc]
    rfl

/-- What is dropped at the end lies behind every character that is not dropped. -/
theorem rdropWhile_append_cons {p : Char → Bool} {c : Char} (hc : p c = false)
    (front back : List Char) :
    (front ++ c :: back).rdropWhile p = front ++ c :: back.rdropWhile p := by
  induction back using List.reverseRecOn with
  | nil => rw [List.rdropWhile_concat_neg _ _ _ (by simp [hc]), List.rdropWhile_nil]
  | append_singleton back d ih =>
      rw [← List.cons_append, ← List.append_assoc, List.rdropWhile_concat,
        List.rdropWhile_concat, ih]
      split <;> simp

/-! ## Prefixes -/

/-- The rest of the text after a prefix. -/
def dropPrefix : List Char → List Char → Option (List Char)
  | [], text => some text
  | _ :: _, [] => none
  | p :: pattern, c :: text => if p = c then dropPrefix pattern text else none

/-- What is left over when the pattern is taken off. -/
theorem dropPrefix_eq_some_iff {pattern text rest : List Char} :
    dropPrefix pattern text = some rest ↔ text = pattern ++ rest := by
  induction pattern generalizing text with
  | nil => simp [dropPrefix, eq_comm]
  | cons p pattern ih =>
      cases text with
      | nil => simp [dropPrefix]
      | cons c text =>
          unfold dropPrefix
          by_cases h : p = c
          · simp [h, ih]
          · simp [h, Ne.symm h]

theorem dropPrefix_append (pattern rest : List Char) :
    dropPrefix pattern (pattern ++ rest) = some rest :=
  dropPrefix_eq_some_iff.mpr rfl

/-- Two texts are cut at the first occurrence of a character. -/
theorem append_cons_eq_append_cons_iff {front front' back back' : List Char} {c : Char}
    (h : c ∉ front) (h' : c ∉ front') :
    front ++ c :: back = front' ++ c :: back' ↔ front = front' ∧ back = back' := by
  induction front generalizing front' with
  | nil =>
      cases front' with
      | nil => simp
      | cons d front' =>
          have hne : c ≠ d := fun heq => h' (heq ▸ List.mem_cons_self)
          simp [hne]
  | cons d front ih =>
      rw [List.mem_cons, not_or] at h
      cases front' with
      | nil =>
          have hne : d ≠ c := Ne.symm h.1
          simp [hne]
      | cons e front' =>
          rw [List.mem_cons, not_or] at h'
          rw [List.cons_append, List.cons_append, List.cons.injEq, ih h.2 h'.2, List.cons.injEq,
            and_assoc]

/-- A text without this character does not reach over it. -/
theorem infix_append_cons_iff {text front back : List Char} {c : Char} (h : c ∉ text) :
    text <:+: front ++ c :: back ↔ text <:+: front ∨ text <:+: back := by
  constructor
  · rw [List.infix_append_iff]
    rintro (hfront | hback | ⟨left, right, rfl, hleft, hright⟩)
    · exact .inl hfront
    · rcases List.infix_cons_iff.mp hback with hprefix | hinfix
      · cases text with
        | nil => exact .inl (List.nil_infix)
        | cons d text =>
            obtain ⟨rfl, -⟩ := List.cons_prefix_cons.mp hprefix
            exact absurd List.mem_cons_self h
      · exact .inr hinfix
    · cases right with
      | nil => exact .inl (by simpa using hleft.isInfix)
      | cons d right =>
          obtain ⟨rfl, -⟩ := List.cons_prefix_cons.mp hright
          exact absurd (List.mem_append_right left List.mem_cons_self) h
  · rintro (hfront | hback)
    · exact hfront.trans List.infix_append_left
    · exact (hback.trans (List.infix_cons (List.infix_refl back))).trans List.infix_append_right

/-- The rest of the text after a prefix, upper and lower case alike. -/
def dropPrefixNoCase (pattern text : List Char) : Option (List Char) :=
  if (text.take pattern.length).map Char.toLower = pattern.map Char.toLower then
    some (text.drop pattern.length)
  else none

/-- The pattern itself is taken off, whatever its case. -/
theorem dropPrefixNoCase_append (pattern rest : List Char) :
    dropPrefixNoCase pattern (pattern ++ rest) = some rest := by
  simp [dropPrefixNoCase]

/-- What is dropped has the length of the pattern. -/
theorem dropPrefixNoCase_eq_some {pattern text rest : List Char}
    (h : dropPrefixNoCase pattern text = some rest) :
    ∃ front, text = front ++ rest ∧ front.map Char.toLower = pattern.map Char.toLower := by
  unfold dropPrefixNoCase at h
  split at h
  · rename_i hfront
    cases h
    exact ⟨text.take pattern.length, (List.take_append_drop _ _).symm, hfront⟩
  · cases h

end Chars
