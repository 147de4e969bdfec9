import Mathlib.GroupTheory.OrderOfElement
import Mathlib.NumberTheory.LegendreSymbol.Basic
import CryptoCore.Framework.TwistedEdwards
import CryptoCore.Framework.Primality
import CryptoCore.Framework.ByteStrings
import CryptoCore.Construction.Result

/-!
# The curve edwards25519

The field, the group of points and the base point of edwards25519. As for P-256 nothing about the
curve is assumed: the field modulus and the order are certified primes, that `d` is no square is
Euler's criterion, and the order of the base point is computed. The group itself is built in
`Framework/TwistedEdwards.lean` for any field in which `-1` is a square and `d` is not, and this
module supplies those two facts (the instance of `Complete`).

`encoding` writes a point as 32 bytes: the second coordinate with the parity of the first one in the
top bit. `exists_encoding_iff` describes the encodings among all byte strings, which is the
specification of decoding, and `encoding_injective` says that a point has one of them only.

`root` is the candidate for a square root that decoding starts from: the modulus is five modulo
eight, so that a power of the value is a root of it or of its negative (`root_of_square`).
`Construction/Ed25519.lean` uses this module throughout; the moduli are irreducible, as for P-256.
-/

namespace CryptoCore

open ByteStrings TwistedEdwards

namespace Ed25519Curve

/-! ## The field -/

/-- The modulus of the field and the order of the base point. Both are irreducible, so that tactics
do not evaluate them. -/
@[irreducible] def p : ℕ := 2 ^ 255 - 19

@[irreducible] def order : ℕ := 2 ^ 252 + 27742317777372353535851937790883648493

/-- The certificates that end in the one of the field modulus. -/
def fieldChain : List Primality.Entry :=
  [⟨132049, 26, [(2, 4), (3, 2), (7, 1), (131, 1)]⟩,
    ⟨1923133, 2, [(2, 2), (3, 1), (43, 1), (3727, 1)]⟩,
    ⟨430751, 17, [(2, 1), (5, 3), (1723, 1)]⟩,
    ⟨31757755568855353, 10,
      [(2, 3), (3, 1), (31, 1), (107, 1), (223, 1), (4153, 1), (430751, 1)]⟩,
    ⟨569003, 2, [(2, 1), (7, 1), (97, 1), (419, 1)]⟩,
    ⟨2773320623, 5, [(2, 1), (2437, 1), (569003, 1)]⟩,
    ⟨72106336199, 7, [(2, 1), (13, 1), (2773320623, 1)]⟩,
    ⟨8574133, 2, [(2, 2), (3, 1), (7, 1), (103, 1), (991, 1)]⟩,
    ⟨1919519569386763, 2,
      [(2, 1), (3, 1), (7, 1), (19, 1), (47, 2), (127, 1), (8574133, 1)]⟩,
    ⟨75445702479781427272750846543864801, 7,
      [(2, 5), (3, 2), (5, 2), (75707, 1), (72106336199, 1), (1919519569386763, 1)]⟩,
    ⟨74058212732561358302231226437062788676166966415465897661863160754340907, 2,
      [(2, 1), (3, 1), (353, 1), (57467, 1), (132049, 1), (1923133, 1), (31757755568855353, 1),
        (75445702479781427272750846543864801, 1)]⟩,
    ⟨p, 2,
      [(2, 2), (3, 1), (65147, 1),
        (74058212732561358302231226437062788676166966415465897661863160754340907, 1)]⟩]

/-- The modulus of the field is prime, by the certificates above. -/
lemma prime_p : p.Prime := by
  have hknown : ∀ q ∈ [2, 3, 5, 7, 13, 19, 31, 43, 47, 97, 103, 107, 127, 131, 223, 353, 419, 991,
      1723, 2437, 3727, 4153, 57467, 65147, 75707], q.Prime := by norm_num
  exact Primality.prime_of_chain fieldChain hknown (by decide +kernel) ⟨p, _, _⟩
    (List.mem_of_getLast? rfl)

/-- The certificates that end in the one of the order. -/
def orderChain : List Primality.Entry :=
  [⟨409477, 2, [(2, 2), (3, 1), (34123, 1)]⟩,
    ⟨14741173, 2, [(2, 2), (3, 2), (409477, 1)]⟩,
    ⟨58964693, 2, [(2, 2), (14741173, 1)]⟩,
    ⟨132667, 5, [(2, 1), (3, 1), (22111, 1)]⟩,
    ⟨137849, 3, [(2, 3), (17231, 1)]⟩,
    ⟨3044861653679985063343, 5,
      [(2, 1), (3, 1), (11, 1), (30703, 1), (82163, 1), (132667, 1), (137849, 1)]⟩,
    ⟨198211423230930754013084525763697, 5,
      [(2, 4), (3, 1), (23, 1), (58964693, 1), (3044861653679985063343, 1)]⟩,
    ⟨292386187, 2, [(2, 1), (3, 4), (307, 1), (5879, 1)]⟩,
    ⟨213441916511, 13, [(2, 1), (5, 1), (73, 1), (292386187, 1)]⟩,
    ⟨531581, 2, [(2, 2), (5, 1), (7, 1), (3797, 1)]⟩,
    ⟨1224481, 13, [(2, 5), (3, 1), (5, 1), (2551, 1)]⟩,
    ⟨1257559732178653, 2, [(2, 2), (3, 1), (7, 1), (23, 1), (531581, 1), (1224481, 1)]⟩,
    ⟨4434155615661930479, 17, [(2, 1), (41, 1), (43, 1), (1257559732178653, 1)]⟩,
    ⟨172054593956031949258510691, 2,
      [(2, 1), (5, 1), (1361, 1), (2851, 1), (4434155615661930479, 1)]⟩,
    ⟨19757330305831588566944191468367130476339, 2,
      [(2, 1), (269, 1), (213441916511, 1), (172054593956031949258510691, 1)]⟩,
    ⟨276602624281642239937218680557139826668747, 2,
      [(2, 1), (7, 1), (19757330305831588566944191468367130476339, 1)]⟩,
    ⟨order, 2,
      [(2, 2), (3, 1), (11, 1), (198211423230930754013084525763697, 1),
        (276602624281642239937218680557139826668747, 1)]⟩]

lemma prime_order : order.Prime := by
  have hknown : ∀ q ∈ [2, 3, 5, 7, 11, 23, 41, 43, 73, 269, 307, 1361, 2551, 2851, 3797, 5879,
      17231, 22111, 30703, 34123, 82163], q.Prime := by norm_num
  exact Primality.prime_of_chain orderChain hknown (by decide +kernel) ⟨order, _, _⟩
    (List.mem_of_getLast? rfl)

instance : Fact p.Prime := ⟨prime_p⟩

/-- The field of the coordinates, the residues modulo the prime. -/
abbrev Coordinate := ZMod p

lemma p_lt : p < 2 ^ 255 := by decide +kernel

lemma odd_p : p % 2 = 1 := by decide +kernel

lemma order_lt : order < 2 ^ 253 := by decide +kernel

lemma val_pow (v : Coordinate) (e : ℕ) : (v ^ e).val = v.val ^ e % p := by
  rw [← ZMod.val_natCast, Nat.cast_pow, ZMod.natCast_zmod_val]

lemma inverse_eq_pow (v : Coordinate) : v ^ (p - 2) = v⁻¹ :=
  Primality.pow_sub_two_eq_inv (by decide +kernel) v

/-! ## Square roots -/

/-- A root of `-1`, with which a candidate root is corrected. -/
def sqrtMinusOne : Coordinate :=
  0x2B8324804FC1DF0B2B4D00993DFBD7A72F431806AD2FE478C4EE1B274A0EA0B0

lemma sqrtMinusOne_mul_self : sqrtMinusOne * sqrtMinusOne = -1 := by decide +kernel

/-- The exponent of the candidate root, for a prime that is five modulo eight. -/
@[irreducible] def sqrtExponent : ℕ := (p + 3) / 8

/-- The candidate for a root, before it is corrected by a root of minus one. -/
def root (v : Coordinate) : Coordinate :=
  v ^ sqrtExponent

/-- The candidate of a square is a root, or is one after a multiplication by a root of `-1`. Nothing
is said about values that are no squares: the source checks the candidate. -/
theorem root_of_square {v s : Coordinate} (h : s * s = v) :
    root v * root v = v ∨ root v * sqrtMinusOne * (root v * sqrtMinusOne) = v := by
  have hexponent : sqrtExponent * 4 = (p - 1) / 2 + 2 ∧ 2 * ((p - 1) / 2) = p - 1 := by
    decide +kernel
  have hfourth : (root v * root v) * (root v * root v) = v * v := by
    by_cases hs : s = 0
    · rw [← h, hs, root, mul_zero, zero_pow (by decide +kernel), mul_zero, mul_zero]
    · calc (root v * root v) * (root v * root v) = v ^ (sqrtExponent * 4) := by
            rw [root]
            ring
        _ = (s ^ (2 * ((p - 1) / 2))) * (v * v) := by
            rw [hexponent.1, pow_add, ← h]
            ring
        _ = v * v := by
            rw [hexponent.2, ZMod.pow_card_sub_one_eq_one hs, one_mul]
  rcases mul_self_eq_mul_self_iff.mp hfourth with hroot | hroot
  · exact Or.inl hroot
  · refine Or.inr ?_
    linear_combination -hroot + root v * root v * sqrtMinusOne_mul_self

/-! ## The curve and its base point -/

@[irreducible] def dValue : ℕ := 0x52036CEE2B6FFE738CC740797779E89800700A4D4141D8AB75EB4DCA135978A3

/-- The parameter of the curve, which is no square. -/
def d : Coordinate := dValue

/-- The parameter is no square, by Euler's criterion; this makes the addition complete. -/
lemma d_not_square (s : Coordinate) : s * s ≠ d := by
  intro hs
  have hd : d ≠ 0 := by decide +kernel
  have hpow : d ^ (p / 2) = 1 := (ZMod.euler_criterion p hd).mp ⟨s, hs.symm⟩
  rw [d, ← Nat.cast_one, Primality.pow_eq_iff _ _ (by decide +kernel)] at hpow
  exact absurd hpow (by decide +kernel)

instance : Complete d where
  two_ne_zero := by decide +kernel
  exists_root := ⟨sqrtMinusOne, sqrtMinusOne_mul_self⟩
  not_square := d_not_square

/-- The group of the curve, from the library. -/
abbrev Point := TwistedEdwards.Point d

def basePointX : Coordinate := 0x216936D3CD6E53FEC0A4E231FDD6DC5C692CC7609525A7B2C9562D608F25D51A

def basePointY : Coordinate := 0x6666666666666666666666666666666666666666666666666666666666666658

/-- The base point, whose coordinates satisfy the equation by evaluation. -/
def B : Point :=
  ⟨basePointX, basePointY, by decide +kernel⟩

/-- The multiple of the base point by the order vanishes, by computation in extended coordinates. -/
lemma order_nsmul_B : order • B = 0 := by
  have hmultiply : (Extended.ofAffine B.x B.y).Represents B := Extended.Represents.affine B
  have hproduct := Extended.represents_multiply hmultiply order_lt
  have hvalues : (Extended.multiply d 253 order (Extended.ofAffine B.x B.y)).x = 0 ∧
      (Extended.multiply d 253 order (Extended.ofAffine B.x B.y)).y =
        (Extended.multiply d 253 order (Extended.ofAffine B.x B.y)).z := by
    decide +kernel
  refine (hproduct.eq_iff Extended.Represents.zero).mp ⟨?_, ?_⟩
  · rw [hvalues.1]
    exact (zero_mul _).trans (zero_mul _).symm
  · rw [hvalues.2, mul_comm]
    rfl

lemma B_ne_zero : B ≠ 0 := by
  intro h
  have hx := congrArg TwistedEdwards.Point.x h
  rw [TwistedEdwards.Point.zero_x] at hx
  exact absurd hx (by decide +kernel)

instance : Fact order.Prime := ⟨prime_order⟩

/-- The base point has the prime order, since the multiple by it vanishes and the point itself does
not. -/
theorem addOrderOf_B : addOrderOf B = order :=
  addOrderOf_eq_prime order_nsmul_B B_ne_zero

/-- Multiples of the base point agree exactly when the numbers are congruent. -/
lemma nsmul_B_eq_iff (j k : ℕ) : j • B = k • B ↔ j ≡ k [MOD order] := by
  rw [nsmul_eq_nsmul_iff_modEq, addOrderOf_B]

lemma nsmul_B_mod (k : ℕ) : (k % order) • B = k • B :=
  (nsmul_B_eq_iff _ _).mpr (Nat.mod_modEq k order)

/-! ## Points as bytes -/

/-- The second coordinate, with the parity of the first one in the top bit. -/
@[irreducible] def encoding (P : Point) : ByteBuffer :=
  leBytes 32 (P.y.val + 2 ^ 255 * (P.x.val % 2))

@[simp] lemma length_encoding (P : Point) : (encoding P).length = 32 := by
  rw [encoding, length_leBytes]

lemma val_lt_two_pow (v : Coordinate) : v.val < 2 ^ 255 :=
  (ZMod.val_lt v).trans p_lt

/-- The number that an encoding stands for, from which both coordinates can be read off. -/
lemma leValue_encoding (P : Point) :
    leValue (encoding P) = P.y.val + 2 ^ 255 * (P.x.val % 2) := by
  have hy := val_lt_two_pow P.y
  rw [encoding]
  refine leValue_leBytes ?_
  rw [show (256 : ℕ) ^ 32 = 2 ^ 255 * 2 by norm_num]
  rcases Nat.mod_two_eq_zero_or_one P.x.val with h | h <;> omega

/-- A byte string is the encoding of a point when its value splits into the coordinates. -/
lemma eq_encoding_iff {bytes : ByteBuffer} {P : Point} :
    bytes = encoding P ↔ bytes.length = 32 ∧ leValue bytes % 2 ^ 255 = P.y.val ∧
      leValue bytes / 2 ^ 255 = P.x.val % 2 := by
  have hy := val_lt_two_pow P.y
  constructor
  · intro h
    rw [h, length_encoding, leValue_encoding, Nat.add_mul_mod_self_left,
      Nat.mod_eq_of_lt hy, Nat.add_mul_div_left _ _ (by norm_num), Nat.div_eq_of_lt hy, zero_add]
    exact ⟨rfl, rfl, rfl⟩
  · rintro ⟨hlength, hvalue, hparity⟩
    rw [encoding]
    refine eq_leBytes hlength ?_
    rw [← hvalue, ← hparity]
    exact (Nat.mod_add_div _ _).symm

/-- Opposite coordinates have different parities, since the modulus is odd. -/
lemma parity_neg {x : Coordinate} (hx : x ≠ 0) : (-x).val % 2 = 1 - x.val % 2 := by
  have hlt := ZMod.val_lt x
  have hodd := odd_p
  have hneg : (-x).val = p - x.val := by
    rw [ZMod.neg_val, if_neg hx]
  omega

lemma encoding_injective : Function.Injective encoding := by
  intro P Q h
  obtain ⟨-, hy, hx⟩ := eq_encoding_iff.mp h
  obtain ⟨-, hy', hx'⟩ := eq_encoding_iff.mp (Eq.refl (encoding P))
  rcases Point.eq_or_eq_neg (ZMod.val_injective p (hy'.symm.trans hy)) with heq | heq
  · exact heq
  · by_cases hzero : Q.x = 0
    · refine heq.trans (TwistedEdwards.Point.ext ?_ rfl)
      rw [TwistedEdwards.Point.neg_x, hzero, neg_zero]
    · have hparity := parity_neg hzero
      rw [← TwistedEdwards.Point.neg_x, ← heq, ← hx', hx] at hparity
      omega

/-- The encodings among all byte strings: 32 bytes, a reduced second coordinate, and a first
coordinate of the right parity on the curve. -/
theorem exists_encoding_iff (bytes : ByteBuffer) :
    (∃ P, bytes = encoding P) ↔ bytes.length = 32 ∧ leValue bytes % 2 ^ 255 < p ∧
      ∃ x : Coordinate, OnCurve d x ((leValue bytes % 2 ^ 255 : ℕ) : Coordinate) ∧
        x.val % 2 = leValue bytes / 2 ^ 255 := by
  constructor
  · rintro ⟨P, hP⟩
    obtain ⟨hlength, hy, hx⟩ := eq_encoding_iff.mp hP
    refine ⟨hlength, ?_, P.x, ?_, hx.symm⟩
    · rw [hy]
      exact ZMod.val_lt P.y
    · rw [hy, ZMod.natCast_zmod_val]
      exact P.onCurve
  · rintro ⟨hlength, hlt, x, hcurve, hx⟩
    exact ⟨⟨x, _, hcurve⟩, eq_encoding_iff.mpr ⟨hlength, (ZMod.val_cast_of_lt hlt).symm,
      hx.symm⟩⟩

end Ed25519Curve

end CryptoCore
