import Papiex.Caliper.Keys

/-!
# How a key is written

`ultohexstr` makes the digits of an address from the last one on, and writes them from
the end of its buffer towards the front.  Here it is taken step by step: the loop with
its division, the pointer, and the bytes it writes, where a byte outside the buffer is a
failure.  The loop ends with the digits of the number in front of the final NUL, so the
buffer is the one the hooks are modelled with.

## Main results

* `loop_eq`: the loop writes the digits in front of the pointer.
* `ultohexstr_canonical`: the routine returns the numeral of the value, inside its buffer.

## Design notes

The loop ends because the number gets smaller with each division, and the value it still
has is the measure of its recursion.  The digits come out from the last to the first; the
induction is on the number and says what stands behind the pointer.  `run` keeps the test
of the radix, which the constants of `gcc.c` always pass.
-/

namespace Papiex

namespace Ultohexstr

/-- `const int radix`. -/
def radix : UInt64 := 16

/-- `const int uppercase`. -/
def uppercase : Bool := false

/-- The ways in which there is no string: the null pointer for a base that has no digits,
and a byte outside the buffer. -/
inductive Stop where
  | nullPointer
  | outsideBuffer (offset : ℤ)
  deriving DecidableEq

/-- The buffer, and the pointer `p` as an offset from its start. -/
structure Cursor where
  buf : Text
  p : ℤ

/-- `*--p = c`. -/
def Cursor.push (cur : Cursor) (c : Char) : Except Stop Cursor :=
  let p := cur.p - 1
  if 0 ≤ p ∧ p < ultohexstrSz then .ok { buf := cur.buf.set p.toNat c, p }
  else .error (.outsideBuffer p)

/-- The character for a remainder. -/
def digit (c : ℕ) : Char :=
  if 9 < c then Char.ofNat ((if uppercase then 'A' else 'a').toNat - 10 + c)
  else Char.ofNat ('0'.toNat + c)

/-- The loop over the digits, which tests the quotient after a digit is written. -/
def loop (val : UInt64) (cur : Cursor) : Except Stop Cursor :=
  match cur.push (digit (val % radix).toNat) with
  | .error stop => .error stop
  | .ok next => if _ : val / radix ≠ 0 then loop (val / radix) next else .ok next
termination_by val.toNat
decreasing_by
  have hdiv : (val / radix).toNat = val.toNat / 16 := UInt64.toNat_div val radix
  have hne : (val / radix).toNat ≠ 0 := fun hzero =>
    ‹val / radix ≠ 0› (UInt64.toNat_inj.mp hzero)
  omega

/-- `ultohexstr`, with the pointer it returns. -/
def run (val : UInt64) (buf : Text) : Except Stop Cursor :=
  if 36 < radix ∨ radix < 2 then .error .nullPointer
  else
    match Cursor.push { buf, p := ultohexstrSz } '\x00' with
    | .error stop => .error stop
    | .ok cur => loop val cur

/-- The string that begins where the pointer points. -/
def Cursor.string (cur : Cursor) : Text := cString (cur.buf.drop cur.p.toNat)

/-! ## One step -/

theorem digit_eq {c : ℕ} (h : c < 16) : digit c = Nat.digitChar c := by
  have hall : ∀ d : Fin 16, digit d = Nat.digitChar d := by decide
  exact hall ⟨c, h⟩

/-- A step inside the buffer puts one character in front of what was written. -/
theorem push_append (front written : Text) (old c : Char)
    (hlength : (front ++ [old] ++ written).length = ultohexstrSz) :
    Cursor.push { buf := front ++ [old] ++ written, p := (front.length + 1 : ℕ) } c =
      .ok { buf := front ++ [c] ++ written, p := front.length } := by
  simp only [List.length_append, List.length_singleton] at hlength
  have hp : ((front.length + 1 : ℕ) : ℤ) - 1 = (front.length : ℤ) := by omega
  have hinside : 0 ≤ (front.length : ℤ) ∧ (front.length : ℤ) < (ultohexstrSz : ℕ) := by omega
  unfold Cursor.push
  simp only [hp]
  rw [if_pos hinside, Int.toNat_natCast]
  simp

/-! ## The loop -/

theorem toNat_mod_radix (val : UInt64) : (val % radix).toNat = val.toNat % 16 :=
  UInt64.toNat_mod val radix

theorem toNat_div_radix (val : UInt64) : (val / radix).toNat = val.toNat / 16 :=
  UInt64.toNat_div val radix

/-- There are none above if the number has one digit. -/
theorem div_radix_eq_zero_iff (val : UInt64) : val / radix = 0 ↔ val.toNat < 16 := by
  have hzero : val / radix = 0 ↔ (val / radix).toNat = 0 := UInt64.toNat_inj.symm
  rw [hzero, toNat_div_radix]
  omega

/-- One round of the loop: the last digit, and the rest of the number if there is one. -/
theorem loop_append (val : UInt64) (front written : Text) (old : Char)
    (hlength : (front ++ [old] ++ written).length = ultohexstrSz) :
    loop val { buf := front ++ [old] ++ written, p := (front.length + 1 : ℕ) } =
      let next : Cursor :=
        { buf := front ++ [Nat.digitChar (val.toNat % 16)] ++ written, p := front.length }
      if val.toNat < 16 then .ok next else loop (val / radix) next := by
  have hdigit : digit (val % radix).toNat = Nat.digitChar (val.toNat % 16) := by
    rw [toNat_mod_radix, digit_eq (Nat.mod_lt _ (by decide))]
  rw [loop, hdigit, push_append front written old _ hlength]
  by_cases hlast : val.toNat < 16
  · simp only [(div_radix_eq_zero_iff val).mpr hlast, if_pos hlast, ne_eq, not_true_eq_false,
      dite_false]
  · have hmore : val / radix ≠ 0 := fun hzero => hlast ((div_radix_eq_zero_iff val).mp hzero)
    simp only [dif_pos hmore, if_neg hlast]

/-- **The loop writes the digits of the number** in front of what was written before, into
the room left for them. -/
theorem loop_eq (val : UInt64) (front room written : Text)
    (hroom : room.length = (Nat.toDigits 16 val.toNat).length)
    (hlength : (front ++ room ++ written).length = ultohexstrSz) :
    loop val { buf := front ++ room ++ written, p := (front.length + room.length : ℕ) } =
      .ok { buf := front ++ Nat.toDigits 16 val.toNat ++ written, p := front.length } := by
  induction hn : val.toNat using Nat.strong_induction_on generalizing val room written with
  | _ n ih =>
      -- a round fills the last place of the room
      obtain ⟨init, last, rfl⟩ : ∃ init last, room = init ++ [last] := by
        have hpos := Nat.length_toDigits_pos (b := 16) (n := val.toNat)
        have hne : room ≠ [] := List.length_pos_iff.mp (by omega)
        exact ⟨_, _, (List.dropLast_concat_getLast hne).symm⟩
      have hround := loop_append val (front ++ init) written last (by simpa using hlength)
      have hstart : (front.length + (init ++ [last]).length : ℕ) = (front ++ init).length + 1 := by
        simp only [List.length_append, List.length_singleton]
        omega
      rw [hn] at hroom hround
      rw [hstart, ← List.append_assoc front init, hround]
      rcases Nat.lt_or_ge n 16 with hsmall | hlarge
      · rw [Numerals.toDigits_of_lt hsmall] at hroom ⊢
        have hinit : init = [] := by
          simp only [List.length_append, List.length_singleton] at hroom
          exact List.length_eq_zero_iff.mp (by omega)
        simp only [if_pos hsmall, hinit, List.append_nil, Nat.mod_eq_of_lt hsmall]
      · have hless : n / 16 < n := Nat.div_lt_self (by omega) (by decide)
        have hdiv : (val / radix).toNat = n / 16 := by rw [toNat_div_radix, hn]
        rw [Numerals.toDigits_of_le hlarge] at hroom ⊢
        have hrest := ih (n / 16) hless (val / radix) init
          ([Nat.digitChar (n % 16)] ++ written) (by rw [hdiv]; simpa using hroom)
          (by simpa using hlength) hdiv
        have hsplit : (front ++ init).length = front.length + init.length := List.length_append
        have hlater : ¬ n < 16 := by omega
        simp only [if_neg hlater, hsplit, List.append_assoc] at hrest ⊢
        exact hrest

/-! ## The string -/

/-- **The digits end in front of the final NUL**, the bytes before them stay as they were,
and the pointer is at the first digit. -/
theorem run_eq (val : UInt64) (key : KeyBuffer) :
    run val key.1 =
      .ok { buf := ultohexstr val key.1, p := (keyFront val key).length } := by
  have hfit := keyFront_length val key
  have hsize : ultohexstrSz = 34 := rfl
  -- the front, the room for the digits, and the place of the NUL
  obtain ⟨room, last, hkey⟩ : ∃ room last, key.1 = keyFront val key ++ room ++ [last] := by
    have hlen := key.2
    have hne : key.1 ≠ [] := List.length_pos_iff.mp (by omega)
    refine ⟨(key.1.dropLast).drop (keyFront val key).length, key.1.getLast hne, ?_⟩
    have hfront : keyFront val key = key.1.dropLast.take (keyFront val key).length := by
      rw [List.dropLast_eq_take, List.take_take, keyFront, List.length_take]
      congr 1
      omega
    nth_rewrite 1 [hfront]
    rw [List.take_append_drop, List.dropLast_concat_getLast]
  have hlength := key.2
  rw [hkey] at hlength
  have hroom : room.length = (Nat.toDigits 16 val.toNat).length := by
    simp only [List.length_append, List.length_singleton] at hlength
    omega
  have hbase : ¬ (36 < radix ∨ radix < 2) := by decide
  have hnul := push_append (keyFront val key ++ room) [] last '\x00' (by simpa using hlength)
  have hend : (keyFront val key ++ room).length + 1 = ultohexstrSz := by
    rwa [List.length_append, List.length_singleton] at hlength
  rw [hend, List.append_nil, ← hkey] at hnul
  have hdigits := loop_eq val (keyFront val key) room ['\x00'] hroom
    (by simpa using hlength)
  unfold run
  rw [if_neg hbase, hnul, List.append_nil, List.length_append]
  exact hdigits

/-- **The buffer ends in the digits and a NUL.** -/
theorem drop_ultohexstr (val : UInt64) (key : KeyBuffer) :
    (ultohexstr val key.1).drop (keyFront val key).length =
      Nat.toDigits 16 val.toNat ++ ['\x00'] := by
  have hbuf : ultohexstr val key.1 = keyFront val key ++ (Nat.toDigits 16 val.toNat ++ ['\x00']) :=
    List.append_assoc _ _ _
  rw [hbuf, List.drop_left]

/-- The string at the pointer is the numeral of the number. -/
theorem string_run (val : UInt64) (key : KeyBuffer) :
    Cursor.string { buf := ultohexstr val key.1, p := (keyFront val key).length } =
      Nat.toDigits 16 val.toNat := by
  have hnul : cString (Nat.toDigits 16 val.toNat ++ ['\x00']) = Nat.toDigits 16 val.toNat := by
    rw [cString_append, if_neg Numerals.nul_notMem_toDigits]
    exact List.append_nil _
  rw [Cursor.string, Int.toNat_natCast, drop_ultohexstr, hnul]

end Ultohexstr

/-- **`ultohexstr` writes the numeral of its argument inside its buffer.**  It returns a
pointer into the buffer, at which the one lower-case numeral of the argument without leading
zeros stands, with a NUL after it; reading it gives the argument back, so that no two
arguments have one string. -/
theorem ultohexstr_canonical :
    (∀ (val : UInt64) (key : KeyBuffer), ∃ cur : Ultohexstr.Cursor,
      Ultohexstr.run val key.1 = .ok cur ∧
        (0 ≤ cur.p ∧ cur.p < ultohexstrSz) ∧ cur.buf.length = ultohexstrSz ∧
        cur.buf.drop cur.p.toNat = cur.string ++ ['\x00'] ∧
        Numerals.IsNumeral cur.string ∧ Scanf.ofHex cur.string = val.toNat ∧
        ∀ text, Numerals.IsNumeral text → Scanf.ofHex text = val.toNat → text = cur.string) ∧
      ∀ (val val' : UInt64) (key key' : KeyBuffer), val ≠ val' →
        (Ultohexstr.run val key.1).map Ultohexstr.Cursor.string ≠
          (Ultohexstr.run val' key'.1).map Ultohexstr.Cursor.string := by
  constructor
  · intro val key
    have hfit := keyFront_length val key
    have hsize : ultohexstrSz = 34 := rfl
    refine ⟨_, Ultohexstr.run_eq val key, ?_, ?_, ?_⟩
    · dsimp only
      omega
    · show (keyFront val key ++ Nat.toDigits 16 val.toNat ++ ['\x00']).length = ultohexstrSz
      rw [List.length_append, List.length_append, hfit]
      rfl
    · rw [Ultohexstr.string_run, Int.toNat_natCast, Ultohexstr.drop_ultohexstr]
      refine ⟨rfl, Numerals.isNumeral_toDigits _, Numerals.ofHex_toDigits _, ?_⟩
      intro text hnumeral hvalue
      rw [← hvalue]
      exact hnumeral.eq_toDigits
  · intro val val' key key' hne heq
    rw [Ultohexstr.run_eq, Ultohexstr.run_eq, Except.map, Except.map, Ultohexstr.string_run,
      Ultohexstr.string_run] at heq
    exact hne (UInt64.toNat_inj.mp (Numerals.toDigits_injective (Except.ok.inj heq)))

end Papiex
