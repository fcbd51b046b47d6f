import Mathlib.Algebra.Group.Int.Defs
import Mathlib.Algebra.Group.Nat.Defs
import Papiex.Lib.Chars

/-!
# Conversions of `sscanf`

The conversions for numbers skip blanks and take as much as belongs to a number.  Each
gives the value and the rest of the text, or nothing if there is no number.

## Main results

* `int`, `pointer`: the conversions `%d` and `%p`.
-/

namespace Scanf

open Chars

/-- `isxdigit`. -/
def isxdigit (c : Char) : Bool :=
  c.isDigit || (97 ≤ c.toNat && c.toNat ≤ 102) || (65 ≤ c.toNat && c.toNat ≤ 70)

/-- The value of a hexadecimal digit. -/
def digitValue (c : Char) : ℕ := if c.isDigit then c.toNat - 48 else c.toLower.toNat - 87

/-- The number that hexadecimal digits stand for. -/
def ofHex (digits : List Char) : ℕ := digits.foldl (fun n c => 16 * n + digitValue c) 0

/-- A sign in front of a number. -/
def sign : List Char → Option Char × List Char
  | '-' :: rest => (some '-', rest)
  | '+' :: rest => (some '+', rest)
  | rest => (none, rest)

/-- `%d`, the number being cut off at the bounds of a `long` and then of an `int`. -/
def int (text : List Char) : Option (ℤ × List Char) :=
  let number := sign (text.dropWhile isspace)
  let digits := number.2.takeWhile Char.isDigit
  if digits = [] then none
  else
    let n : ℤ := if number.1 = some '-' then -(ofDecimal digits : ℤ) else ofDecimal digits
    some (Int.bmod (max (-2 ^ 63) (min (2 ^ 63 - 1) n)) (2 ^ 32),
      number.2.dropWhile Char.isDigit)

/-- The hexadecimal digits of a number, which may begin with `0x`. -/
def hexDigits : List Char → List Char
  | '0' :: 'x' :: rest => '0' :: rest.takeWhile isxdigit
  | '0' :: 'X' :: rest => '0' :: rest.takeWhile isxdigit
  | rest => rest.takeWhile isxdigit

/-- `%p`, which knows `(nil)` besides numbers.  It is the last conversion of its formats,
so that the rest of the text is not given. -/
def pointer (text : List Char) : Option UInt64 :=
  let number := sign (text.dropWhile isspace)
  let digits := hexDigits number.2
  if digits = [] then
    if number.1 = none ∧ (dropPrefixNoCase "(nil)".toList number.2).isSome then some 0 else none
  else if 2 ^ 64 ≤ ofHex digits then some (UInt64.ofNat (2 ^ 64 - 1))
  else if number.1 = some '-' then some (-UInt64.ofNat (ofHex digits))
  else some (UInt64.ofNat (ofHex digits))

end Scanf
