import Mathlib.Data.List.Basic
import Mathlib.Tactic

/-!
# Bytes in base 64

Three bytes are four digits in base 64; a last group of two bytes or one byte is written with three
digits or two, whose unused low bits are zero. `decode` reads the groups back and drops the unused
bits, so that it accepts more than `encode` writes: `Canonical` says what is written.

Digits are numbers below 64 and not characters. What an alphabet and a padding character add is left
to a user of this module, who maps digits to characters and fills the last group up.

Both functions follow the groups, and so do the proofs: a group is a number of 24 bits, which four
digits and three bytes determine (`ofDigits_digitAt`, `ofBytes_byteAt`), and a short last group is
one whose missing bytes are zero. `decode_encode` is the round trip; `encode_eq_iff` says which
digit strings come back from what they decode to, namely those without dropped bits; and
`decode_isSome_iff` that only a single digit in the last group cannot be read.
-/

namespace Base64

/-- The digit of a number at a bit position, counted from the lowest bit; the bits above it are cut
off. -/
def digitAt (value shift : ℕ) : Fin 64 :=
  Fin.ofNat 64 (value / 2 ^ shift)

/-- The byte of a number at a bit position, with the bits above it cut off. -/
def byteAt (value shift : ℕ) : UInt8 :=
  UInt8.ofNat (value / 2 ^ shift)

/-- The number that three bytes stand for. A last group that is shorter is filled up with zero
bytes. -/
def ofBytes (a b c : UInt8) : ℕ :=
  a.toNat * 2 ^ 16 + b.toNat * 2 ^ 8 + c.toNat

/-- The number that four digits stand for, the first of them in its highest bits. -/
def ofDigits (a b c d : Fin 64) : ℕ :=
  a.val * 2 ^ 18 + b.val * 2 ^ 12 + c.val * 2 ^ 6 + d.val

/-- The digits of a byte string, group by group. The last group has two, three or four of them. -/
def encode : List UInt8 → List (Fin 64)
  | a :: b :: c :: rest =>
      digitAt (ofBytes a b c) 18 :: digitAt (ofBytes a b c) 12 :: digitAt (ofBytes a b c) 6 ::
        digitAt (ofBytes a b c) 0 :: encode rest
  | [a, b] => [digitAt (ofBytes a b 0) 18, digitAt (ofBytes a b 0) 12, digitAt (ofBytes a b 0) 6]
  | [a] => [digitAt (ofBytes a 0 0) 18, digitAt (ofBytes a 0 0) 12]
  | [] => []

/-- The bytes of a digit string. The low bits that a short last group does not need are dropped
without being looked at, and a single digit is too few for a byte. -/
def decode : List (Fin 64) → Option (List UInt8)
  | a :: b :: c :: d :: rest =>
      (decode rest).map fun bytes =>
        byteAt (ofDigits a b c d) 16 :: byteAt (ofDigits a b c d) 8 ::
          byteAt (ofDigits a b c d) 0 :: bytes
  | [a, b, c] => some [byteAt (ofDigits a b c 0) 16, byteAt (ofDigits a b c 0) 8]
  | [a, b] => some [byteAt (ofDigits a b 0 0) 16]
  | [_] => none
  | [] => some []

/-- The last digit has no bits behind the last byte. These are the digit strings that an encoder
writes. -/
def Canonical : List (Fin 64) → Prop
  | _ :: _ :: _ :: _ :: rest => Canonical rest
  | [_, _, c] => c.val % 4 = 0
  | [_, b] => b.val % 16 = 0
  | [_] => False
  | [] => True

/-! ## Groups -/

lemma toNat_byteAt (value shift : ℕ) : (byteAt value shift).toNat = value / 2 ^ shift % 2 ^ 8 :=
  UInt8.toNat_ofNat'

lemma val_digitAt (value shift : ℕ) : (digitAt value shift).val = value / 2 ^ shift % 2 ^ 6 :=
  rfl

/-- The digits of a number of 24 bits stand for that number, so that cutting it into digits loses
nothing. -/
lemma ofDigits_digitAt {value : ℕ} (h : value < 2 ^ 24) :
    ofDigits (digitAt value 18) (digitAt value 12) (digitAt value 6) (digitAt value 0) =
      value := by
  simp only [ofDigits, val_digitAt]
  omega

lemma ofBytes_lt (a b c : UInt8) : ofBytes a b c < 2 ^ 24 := by
  have ha := a.toNat_lt
  have hb := b.toNat_lt
  have hc := c.toNat_lt
  rw [ofBytes]
  omega

lemma ofDigits_lt (a b c d : Fin 64) : ofDigits a b c d < 2 ^ 24 := by
  have ha := a.isLt
  have hb := b.isLt
  have hc := c.isLt
  have hd := d.isLt
  rw [ofDigits]
  omega

/-- The bytes of a number of 24 bits stand for that number, so that cutting it into bytes loses
nothing. -/
lemma ofBytes_byteAt {value : ℕ} (h : value < 2 ^ 24) :
    ofBytes (byteAt value 16) (byteAt value 8) (byteAt value 0) = value := by
  simp only [ofBytes, toNat_byteAt]
  omega

lemma byteAt_ofBytes (a b c : UInt8) : byteAt (ofBytes a b c) 16 = a ∧
    byteAt (ofBytes a b c) 8 = b ∧ byteAt (ofBytes a b c) 0 = c := by
  have ha := a.toNat_lt
  have hb := b.toNat_lt
  have hc := c.toNat_lt
  simp only [← UInt8.toNat_inj, toNat_byteAt, ofBytes]
  omega

lemma digitAt_ofDigits (a b c d : Fin 64) : digitAt (ofDigits a b c d) 18 = a ∧
    digitAt (ofDigits a b c d) 12 = b ∧ digitAt (ofDigits a b c d) 6 = c ∧
    digitAt (ofDigits a b c d) 0 = d := by
  have ha := a.isLt
  have hb := b.isLt
  have hc := c.isLt
  have hd := d.isLt
  simp only [Fin.ext_iff, val_digitAt, ofDigits]
  omega

/-- The last digit of a group whose bytes end in zero is zero. -/
lemma digitAt_eq_zero {value shift : ℕ} (h : value / 2 ^ shift % 2 ^ 6 = 0) :
    digitAt value shift = 0 :=
  Fin.ext h

/-! ## The codec -/

/-- What is written is read back, for byte strings of any length. -/
theorem decode_encode (bytes : List UInt8) : decode (encode bytes) = some bytes := by
  fun_induction encode bytes with
  | case1 a b c rest ih =>
      obtain ⟨ha, hb, hc⟩ := byteAt_ofBytes a b c
      simp only [decode, ih, Option.map_some, ofDigits_digitAt (ofBytes_lt a b c), ha, hb, hc]
  | case2 a b =>
      obtain ⟨ha, hb, _⟩ := byteAt_ofBytes a b 0
      have hd : digitAt (ofBytes a b 0) 0 = 0 :=
        digitAt_eq_zero (by simp only [ofBytes, UInt8.toNat_zero]; omega)
      rw [decode, ← hd, ofDigits_digitAt (ofBytes_lt a b 0), ha, hb]
  | case3 a =>
      obtain ⟨ha, _, _⟩ := byteAt_ofBytes a 0 0
      have hc : digitAt (ofBytes a 0 0) 6 = 0 :=
        digitAt_eq_zero (by simp only [ofBytes, UInt8.toNat_zero]; omega)
      have hd : digitAt (ofBytes a 0 0) 0 = 0 :=
        digitAt_eq_zero (by simp only [ofBytes, UInt8.toNat_zero]; omega)
      have hgroup := ofDigits_digitAt (ofBytes_lt a 0 0)
      rw [hc, hd] at hgroup
      rw [decode, hgroup, ha]
  | case4 => rfl

/-- The digits that are read are the digits that are written, as long as nothing is dropped.
Otherwise two digit strings share their bytes, and only one of them is written. -/
theorem encode_eq_iff {digits : List (Fin 64)} {bytes : List UInt8}
    (h : decode digits = some bytes) : encode bytes = digits ↔ Canonical digits := by
  fun_induction decode digits generalizing bytes with
  | case1 a b c d rest ih =>
      obtain ⟨tail, htail, rfl⟩ := Option.map_eq_some_iff.mp h
      obtain ⟨ha, hb, hc, hd⟩ := digitAt_ofDigits a b c d
      rw [encode, ofBytes_byteAt (ofDigits_lt a b c d), ha, hb, hc, hd, Canonical, ← ih htail]
      simp only [List.cons.injEq, true_and]
  | case2 a b c =>
      cases h
      have ha := a.isLt
      have hb := b.isLt
      have hc := c.isLt
      simp only [encode, Canonical, List.cons.injEq, and_true, Fin.ext_iff, val_digitAt, ofBytes,
        toNat_byteAt, ofDigits, UInt8.toNat_zero, Fin.val_zero]
      omega
  | case3 a b =>
      cases h
      have ha := a.isLt
      have hb := b.isLt
      simp only [encode, Canonical, List.cons.injEq, and_true, Fin.ext_iff, val_digitAt, ofBytes,
        toNat_byteAt, ofDigits, UInt8.toNat_zero, Fin.val_zero]
      omega
  | case4 a => cases h
  | case5 =>
      cases h
      simp [encode, Canonical]

/-- A single digit in the last group is all that is not read; every other length can be decoded. -/
lemma decode_isSome_iff (digits : List (Fin 64)) :
    (decode digits).isSome ↔ digits.length % 4 ≠ 1 := by
  fun_induction decode digits with
  | case1 a b c d rest ih =>
      rw [Option.isSome_map, ih]
      simp only [List.length_cons]
      omega
  | case2 | case3 | case4 | case5 => simp

end Base64
