import Papiex.Caliper.Gcc
import Papiex.Lib.Numerals
import Mathlib.Data.List.TakeWhile

/-!
# The keys of instrumented functions

A hook looks its function up under the text that its key buffer starts with.  The
digits of the address are at the end of the buffer, and what stands before them was on
the stack already.  So the key is the address only behind what was there: a NUL in
front of the digits hides them, and other bytes become part of the key.

## Main results

* `keyOf_eq_iff_confuse`: when two calls have one key.
* `hash_keys_right_iff`: when keys tell functions apart.

## Design notes

A key buffer carries its length of 34 bytes.  The digits of an address take the last places
in front of the NUL, so the length of the front depends on the address.  Two keys are
confused if the fronts hide the digits and spell the same, or if one address ends with the
digits of the other and the fronts make up for the rest.
-/

namespace Papiex

/-- What the key buffer of a hook holds before the hook writes into it. -/
def KeyBuffer := { buf : Text // buf.length = ultohexstrSz }

/-- The bytes in front of the digits of an address, which stay as they were. -/
def keyFront (fn : UInt64) (stack : KeyBuffer) : Text :=
  stack.1.take (ultohexstrSz - 1 - (Nat.toDigits 16 fn.toNat).length)

/-- A NUL stands in front of the digits of an address. -/
def DigitsHidden (fn : UInt64) (stack : KeyBuffer) : Prop := '\x00' ∈ keyFront fn stack

section Fronts

variable {fn fn' : UInt64} {stack stack' : KeyBuffer}

theorem length_toDigits_le (fn : UInt64) : (Nat.toDigits 16 fn.toNat).length ≤ 16 :=
  (Nat.length_toDigits_le_iff (by decide) (by decide)).mpr fn.toNat_lt

/-- The digits stand at the end of the buffer. -/
theorem keyFront_length (fn : UInt64) (stack : KeyBuffer) :
    (keyFront fn stack).length + (Nat.toDigits 16 fn.toNat).length = ultohexstrSz - 1 := by
  have hdigits := length_toDigits_le fn
  have hstack := stack.2
  have hsize : ultohexstrSz = 34 := rfl
  rw [keyFront, List.length_take]
  omega

theorem cString_eq_self_iff {text : Text} : cString text = text ↔ '\x00' ∉ text := by
  rw [cString, List.takeWhile_eq_self_iff]
  constructor
  · intro h hmem
    simpa using h _ hmem
  · intro h c hc
    have hne : c ≠ '\x00' := fun heq => h (heq ▸ hc)
    simpa using hne

theorem cString_append (front rest : Text) :
    cString (front ++ rest) =
      if '\x00' ∈ front then cString front else front ++ cString rest := by
  rw [cString, List.takeWhile_append]
  by_cases hnul : '\x00' ∈ front
  · have hshort : (front.takeWhile (· ≠ '\x00')).length ≠ front.length := by
      intro hlength
      have hself := (List.takeWhile_prefix (· ≠ '\x00')).eq_of_length hlength
      exact cString_eq_self_iff.mp hself hnul
    rw [if_neg hshort, if_pos hnul]
    rfl
  · have hself : front.takeWhile (· ≠ '\x00') = front := cString_eq_self_iff.mpr hnul
    rw [hself, if_pos rfl, if_neg hnul]
    rfl

/-- **The key of an address**: what stands in front of the digits, and the digits unless
they are hidden. -/
theorem keyOf_eq (fn : UInt64) (stack : KeyBuffer) :
    keyOf fn stack.1 =
      if '\x00' ∈ keyFront fn stack then cString (keyFront fn stack)
      else keyFront fn stack ++ Nat.toDigits 16 fn.toNat := by
  have hdigits : cString (Nat.toDigits 16 fn.toNat ++ ['\x00']) = Nat.toDigits 16 fn.toNat := by
    rw [cString_append, if_neg Numerals.nul_notMem_toDigits]
    exact List.append_nil _
  rw [keyOf, ultohexstr, List.append_assoc, cString_append, hdigits]
  rfl

/-- If there is a NUL before the digits the key is what stands there. -/
theorem keyOf_of_hidden (h : DigitsHidden fn stack) :
    keyOf fn stack.1 = cString (keyFront fn stack) := by
  rw [keyOf_eq]
  exact if_pos h

theorem keyOf_of_not_hidden (h : ¬ DigitsHidden fn stack) :
    keyOf fn stack.1 = keyFront fn stack ++ Nat.toDigits 16 fn.toNat := by
  rw [keyOf_eq]
  exact if_neg h

/-- A key fills the buffer exactly if the digits are not hidden. -/
theorem keyOf_length_lt_iff (fn : UInt64) (stack : KeyBuffer) :
    (keyOf fn stack.1).length < ultohexstrSz - 1 ↔ DigitsHidden fn stack := by
  have hlength := keyFront_length fn stack
  by_cases h : DigitsHidden fn stack
  · have hshort := (List.takeWhile_prefix (l := keyFront fn stack) (· ≠ '\x00')).length_le
    have hpos := Nat.length_toDigits_pos (b := 16) (n := fn.toNat)
    rw [keyOf_of_hidden h, iff_true_right h, cString]
    omega
  · rw [keyOf_of_not_hidden h, iff_false_right h, List.length_append]
    omega

end Fronts

/-! ## When keys are right -/

/-- The digits of one address go on with those of the other: the bytes in front of the
other spell the digits that the one has more. -/
def SpellsRest (fn : UInt64) (stack : KeyBuffer) (fn' : UInt64) (stack' : KeyBuffer) : Prop :=
  ∃ more, Nat.toDigits 16 fn.toNat = more ++ Nat.toDigits 16 fn'.toNat ∧
    keyFront fn' stack' = keyFront fn stack ++ more

/-- What the stack held lets two hooks take different addresses for one: the digits of
both are hidden behind the same text, or the stack spells what the numerals differ in. -/
def FrontsConfuse (fn : UInt64) (stack : KeyBuffer) (fn' : UInt64) (stack' : KeyBuffer) : Prop :=
  DigitsHidden fn stack ∧ DigitsHidden fn' stack' ∧
      cString (keyFront fn stack) = cString (keyFront fn' stack') ∨
    ¬ DigitsHidden fn stack ∧ ¬ DigitsHidden fn' stack' ∧
      (SpellsRest fn stack fn' stack' ∨ SpellsRest fn' stack' fn stack)

/-- The bytes in front of the digits are right for the keys of two hooks: the same text
for the same address, and none that confuses different ones. -/
def FrontsRight (fn : UInt64) (stack : KeyBuffer) (fn' : UInt64) (stack' : KeyBuffer) : Prop :=
  if fn = fn' then cString (keyFront fn stack) = cString (keyFront fn' stack')
  else ¬ FrontsConfuse fn stack fn' stack'

variable {fn fn' : UInt64} {stack stack' : KeyBuffer}

/-- Two keys are one exactly if what the stack held makes them so. -/
theorem keyOf_eq_iff_confuse :
    keyOf fn stack.1 = keyOf fn' stack'.1 ↔ FrontsConfuse fn stack fn' stack' := by
  have hside := keyOf_length_lt_iff fn stack
  have hside' := keyOf_length_lt_iff fn' stack'
  unfold FrontsConfuse
  by_cases h : DigitsHidden fn stack <;> by_cases h' : DigitsHidden fn' stack'
  · simp [h, h', keyOf_of_hidden]
  · -- only one of the keys fills the buffer
    have hne : keyOf fn stack.1 ≠ keyOf fn' stack'.1 := fun heq =>
      h' (hside'.mp (heq ▸ hside.mpr h))
    simp [h, h', hne]
  · have hne : keyOf fn stack.1 ≠ keyOf fn' stack'.1 := fun heq =>
      h (hside.mp (heq ▸ hside'.mpr h'))
    simp [h, h', hne]
  · rw [keyOf_of_not_hidden h, keyOf_of_not_hidden h', List.append_eq_append_iff]
    simp only [h, h', not_false_eq_true, true_and, false_and, false_or, SpellsRest]
    constructor
    · rintro (⟨more, hfront, hdigits⟩ | ⟨more, hfront, hdigits⟩)
      · exact .inl ⟨more, hdigits, hfront⟩
      · exact .inr ⟨more, hdigits, hfront⟩
    · rintro (⟨more, hdigits, hfront⟩ | ⟨more, hdigits, hfront⟩)
      · exact .inl ⟨more, hfront, hdigits⟩
      · exact .inr ⟨more, hfront, hdigits⟩

/-- Two stacks that spell the same have the same bytes before the digits. -/
theorem SpellsRest.front_eq (h : SpellsRest fn stack fn stack') :
    keyFront fn stack' = keyFront fn stack := by
  obtain ⟨more, hdigits, hfront⟩ := h
  have hnone : more = [] := List.self_eq_append_left.mp hdigits
  rw [hfront, hnone, List.append_nil]

/-- Behind the same text the bytes are the same, if they have no NUL. -/
theorem front_eq_of_cString_eq (heq : cString (keyFront fn stack) = cString (keyFront fn stack'))
    (h : ¬ DigitsHidden fn stack) : keyFront fn stack' = keyFront fn stack := by
  have hlength := keyFront_length fn stack
  have hlength' := keyFront_length fn stack'
  have hself : cString (keyFront fn stack) = keyFront fn stack := cString_eq_self_iff.mpr h
  have hstem : cString (keyFront fn stack') <+: keyFront fn stack' := List.takeWhile_prefix _
  rw [hself] at heq
  rw [← heq] at hstem
  exact (hstem.eq_of_length (by omega)).symm

/-- The keys of one address are one exactly if the same text is in front of its digits. -/
theorem frontsConfuse_self_iff :
    FrontsConfuse fn stack fn stack' ↔
      cString (keyFront fn stack) = cString (keyFront fn stack') := by
  constructor
  · rintro (⟨-, -, heq⟩ | ⟨-, -, hrest | hrest⟩)
    · exact heq
    · rw [hrest.front_eq]
    · rw [hrest.front_eq]
  · intro heq
    by_cases h : DigitsHidden fn stack <;> by_cases h' : DigitsHidden fn stack'
    · exact .inl ⟨h, h', heq⟩
    · rw [DigitsHidden, front_eq_of_cString_eq heq.symm h'] at h
      exact absurd h h'
    · rw [DigitsHidden, front_eq_of_cString_eq heq h] at h'
      exact absurd h' h
    · exact .inr ⟨h, h', .inl ⟨[], rfl, by rw [front_eq_of_cString_eq heq h, List.append_nil]⟩⟩

/-- **Which keys are right.**  The keys that two hooks make of their addresses are the
same for one address and differ for two, if and only if the bytes in front of the digits
are right for them. -/
theorem hash_keys_right_iff (fn fn' : UInt64) (stack stack' : KeyBuffer) :
    (keyOf fn stack.1 = keyOf fn' stack'.1 ↔ fn = fn') ↔ FrontsRight fn stack fn' stack' := by
  rw [keyOf_eq_iff_confuse]
  unfold FrontsRight
  by_cases hsame : fn = fn'
  · subst hsame
    rw [if_pos rfl, frontsConfuse_self_iff, iff_true_right rfl]
  · rw [if_neg hsame, iff_false_right hsame]

/-- A key buffer that held the same byte everywhere. -/
def KeyBuffer.filled (c : Char) : KeyBuffer :=
  ⟨List.replicate ultohexstrSz c, List.length_replicate⟩

/-- One function has two keys if the stack has changed in between, and two functions have
one key if it held zeros. -/
theorem hash_keys_follow_the_stack :
    keyOf 0x400500 (KeyBuffer.filled 'x').1 ≠ keyOf 0x400500 (KeyBuffer.filled 'y').1 ∧
      keyOf 0x400500 (KeyBuffer.filled '\x00').1 = keyOf 0x400600 (KeyBuffer.filled '\x00').1 := by
  decide

end Papiex
