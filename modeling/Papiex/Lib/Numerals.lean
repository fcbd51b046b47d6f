import Mathlib.Data.Nat.Digits.Defs
import Papiex.Lib.Scanf

/-!
# Hexadecimal numerals

The digits of a number in base 16, as `printf` writes them and `sscanf` reads them.  A
number has one numeral in lower case without leading zeros, and a numeral stands for one
number.  No digit is a control character.

## Main results

* `ofHex_toDigits`, `toDigits_injective`: a numeral stands for its number, and for no other.
* `IsNumeral.eq_toDigits`: a number has one numeral.
-/

namespace Numerals

variable {n m : ℕ} {c : Char}

/-- The last digit and the ones before it. -/
theorem toDigits_of_le (h : 16 ≤ n) :
    Nat.toDigits 16 n = Nat.toDigits 16 (n / 16) ++ [Nat.digitChar (n % 16)] :=
  Nat.toDigits_of_base_le (by decide) h

theorem toDigits_of_lt (h : n < 16) : Nat.toDigits 16 n = [Nat.digitChar n] :=
  Nat.toDigits_of_lt_base h

theorem mem_toDigits (h : c ∈ Nat.toDigits 16 n) : ∃ d < 16, c = Nat.digitChar d := by
  induction n using Nat.strong_induction_on with
  | _ n ih =>
      rcases Nat.lt_or_ge n 16 with hn | hn
      · rw [toDigits_of_lt hn, List.mem_singleton] at h
        exact ⟨n, hn, h⟩
      · rw [toDigits_of_le hn, List.mem_append, List.mem_singleton] at h
        rcases h with hfront | hlast
        · exact ih (n / 16) (by omega) hfront
        · exact ⟨n % 16, Nat.mod_lt _ (by decide), hlast⟩

/-- There is no NUL in a numeral. -/
theorem nul_notMem_toDigits : '\x00' ∉ Nat.toDigits 16 n := by
  intro h
  obtain ⟨d, hd, heq⟩ := mem_toDigits h
  have hall : ∀ d : Fin 16, '\x00' ≠ Nat.digitChar d := by decide
  exact hall ⟨d, hd⟩ heq

/-! ## What a numeral stands for -/

/-- A digit and its value. -/
theorem digitValue_digitChar (h : n < 16) : Scanf.digitValue (Nat.digitChar n) = n := by
  have hall : ∀ d : Fin 16, Scanf.digitValue (Nat.digitChar d) = d := by decide
  exact hall ⟨n, h⟩

/-- The last digit counts once, the ones before it sixteenfold. -/
theorem ofHex_append_digit (digits : List Char) (c : Char) :
    Scanf.ofHex (digits ++ [c]) = 16 * Scanf.ofHex digits + Scanf.digitValue c := by
  rw [Scanf.ofHex, List.foldl_append]
  rfl

/-- **Reading a numeral gives its number back.** -/
theorem ofHex_toDigits (n : ℕ) : Scanf.ofHex (Nat.toDigits 16 n) = n := by
  induction n using Nat.strong_induction_on with
  | _ n ih =>
      have hmod : n % 16 < 16 := Nat.mod_lt _ (by decide)
      rcases Nat.lt_or_ge n 16 with hn | hn
      · rw [toDigits_of_lt hn]
        show 16 * 0 + Scanf.digitValue (Nat.digitChar n) = n
        rw [digitValue_digitChar hn]
        omega
      · have hdiv : n / 16 < n := Nat.div_lt_self (by omega) (by decide)
        rw [toDigits_of_le hn, ofHex_append_digit, ih _ hdiv, digitValue_digitChar hmod]
        omega

/-- **A numeral stands for one number.** -/
theorem toDigits_injective (h : Nat.toDigits 16 n = Nat.toDigits 16 m) : n = m := by
  rw [← ofHex_toDigits n, h, ofHex_toDigits]

/-! ## The one numeral of a number -/

/-- A hexadecimal numeral in lower case, without leading zeros. -/
structure IsNumeral (text : List Char) : Prop where
  nonempty : text ≠ []
  digits : ∀ c ∈ text, c ∈ "0123456789abcdef".toList
  noLeadingZero : text.head? = some '0' → text = ['0']

theorem digitChar_mem_digits (h : n < 16) : Nat.digitChar n ∈ "0123456789abcdef".toList := by
  have hall : ∀ d : Fin 16, Nat.digitChar d ∈ "0123456789abcdef".toList := by decide
  exact hall ⟨n, h⟩

theorem digitChar_eq_zero_iff (h : n < 16) : Nat.digitChar n = '0' ↔ n = 0 := by
  have hall : ∀ d : Fin 16, Nat.digitChar d = '0' ↔ (d : ℕ) = 0 := by decide
  exact hall ⟨n, h⟩

/-- The first digit is zero for the number zero only. -/
theorem head_toDigits (n : ℕ) : (Nat.toDigits 16 n).head? = some '0' ↔ n = 0 := by
  induction n using Nat.strong_induction_on with
  | _ n ih =>
      rcases Nat.lt_or_ge n 16 with hn | hn
      · rw [toDigits_of_lt hn, List.head?_cons, Option.some.injEq, digitChar_eq_zero_iff hn]
      · have hdiv : n / 16 < n := Nat.div_lt_self (by omega) (by decide)
        have hne : Nat.toDigits 16 (n / 16) ≠ [] := Nat.toDigits_ne_nil
        rw [toDigits_of_le hn, List.head?_append_of_ne_nil _ hne, ih _ hdiv]
        omega

/-- **The digits of a number are its numeral.** -/
theorem isNumeral_toDigits (n : ℕ) : IsNumeral (Nat.toDigits 16 n) where
  nonempty := Nat.toDigits_ne_nil
  digits := by
    intro c hc
    obtain ⟨d, hd, rfl⟩ := mem_toDigits hc
    exact digitChar_mem_digits hd
  noLeadingZero := by
    intro hzero
    obtain rfl : n = 0 := (head_toDigits n).mp hzero
    rfl

/-- A digit in lower case is the one its value is written with. -/
theorem exists_digitChar_eq (h : c ∈ "0123456789abcdef".toList) :
    ∃ d < 16, c = Nat.digitChar d := by
  have hall : ∀ c ∈ "0123456789abcdef".toList,
      Scanf.digitValue c < 16 ∧ c = Nat.digitChar (Scanf.digitValue c) := by decide
  exact ⟨Scanf.digitValue c, hall c h⟩

/-- **The digits of a number are its only numeral.** -/
theorem IsNumeral.eq_toDigits {text : List Char} (h : IsNumeral text) :
    text = Nat.toDigits 16 (Scanf.ofHex text) := by
  -- the induction takes the last digit off, what is left begins with the same one
  induction text using List.reverseRecOn with
  | nil => exact absurd rfl h.nonempty
  | append_singleton front c ih =>
      obtain ⟨d, hd, rfl⟩ := exists_digitChar_eq (h.digits c (by simp))
      rw [ofHex_append_digit, digitValue_digitChar hd]
      rcases List.eq_nil_or_concat front with rfl | ⟨init, last, hfront⟩
      · show [Nat.digitChar d] = Nat.toDigits 16 (16 * 0 + d)
        rw [Nat.mul_zero, Nat.zero_add, toDigits_of_lt hd]
      · have hne : front ≠ [] := by simp [hfront]
        have hhead : front.head? ≠ some '0' := by
          intro hzero
          have htext := h.noLeadingZero (by rw [List.head?_append_of_ne_nil _ hne, hzero])
          have hlength := congrArg List.length htext
          have hpos := List.length_pos_iff.mpr hne
          simp only [List.length_append, List.length_singleton] at hlength
          omega
        have hnumeral : IsNumeral front :=
          ⟨hne, fun c hc => h.digits c (List.mem_append_left _ hc), fun hzero =>
            absurd hzero hhead⟩
        have hvalue : Scanf.ofHex front ≠ 0 := by
          intro hzero
          rw [ih hnumeral, hzero] at hhead
          exact hhead rfl
        have hdiv : (16 * Scanf.ofHex front + d) / 16 = Scanf.ofHex front := by omega
        have hmod : (16 * Scanf.ofHex front + d) % 16 = d := by omega
        rw [toDigits_of_le (n := 16 * Scanf.ofHex front + d) (by omega), hdiv, hmod,
          ← ih hnumeral]

end Numerals
