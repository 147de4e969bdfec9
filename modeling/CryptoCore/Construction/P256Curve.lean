import Mathlib.GroupTheory.OrderOfElement
import CryptoCore.Framework.ShortWeierstrass
import CryptoCore.Framework.Primality
import CryptoCore.Framework.ByteStrings
import CryptoCore.Construction.Result

/-!
# The curve P-256

The field, the group of points and the base point of NIST P-256. That the field modulus and the
order are prime is certified (`prime_p`, `prime_n`, by the chains of `Framework/Primality.lean`),
and that the base point has this order is computed (`addOrderOf_G`), so nothing about the curve is
assumed. The group law itself is that of Mathlib on the curve of `Framework/ShortWeierstrass.lean`;
commutativity and associativity are used from there and not proved again.

The moduli `p` and `n` are irreducible: no tactic evaluates a 256-bit number by accident, and the
few facts that need their digits are closed terms decided by the kernel.

The library hands points around as `P256Point`, a pair of coordinate byte strings and a flag.
`decodePoint` reads one as a point of the group and `encodePoint` writes the one that the library
produces; both implementations of the curve arithmetic, in `Construction/P256.lean` and
`Construction/P256Fixed.lean`, are specified by this pair. A `P256Point` need not stand for
anything: `point_cases` lists what it can be, and `add_toOption` is the part of the proof about
addition that the two implementations share.
-/

namespace CryptoCore

open ByteStrings ShortWeierstrass

/-- A point as the public functions take and return it. Nothing is promised by the type: the byte
strings have any length, and at infinity they are ignored. -/
structure P256Point where
  x : ByteBuffer
  y : ByteBuffer
  infinity : Bool
  deriving DecidableEq

/-- The identity as the library writes it, with empty coordinates. -/
def p256PointAtInfinity : P256Point := ⟨[], [], true⟩

namespace P256Curve

/-! ## The field -/

@[irreducible] def p : ℕ := 0xFFFFFFFF00000001000000000000000000000000FFFFFFFFFFFFFFFFFFFFFFFF

@[irreducible] def n : ℕ := 0xFFFFFFFF00000000FFFFFFFFFFFFFFFFBCE6FAADA7179E84F3B9CAC2FC632551

/-- The certificates that end in the one of the field modulus. -/
def fieldChain : List Primality.Entry :=
  [⟨490463, 14, [(2, 1), (7, 1), (53, 1), (661, 1)]⟩,
    ⟨6700417, 5, [(2, 7), (3, 1), (17449, 1)]⟩,
    ⟨204061199, 11, [(2, 1), (11, 1), (23, 1), (107, 1), (3769, 1)]⟩,
    ⟨34282281433, 17, [(2, 3), (3, 1), (7, 1), (204061199, 1)]⟩,
    ⟨66417393611, 6, [(2, 1), (5, 1), (53, 1), (173, 1), (197, 1), (3677, 1)]⟩,
    ⟨11290956913871, 13, [(2, 1), (5, 1), (17, 1), (66417393611, 1)]⟩,
    ⟨704251, 2, [(2, 1), (3, 2), (5, 3), (313, 1)]⟩,
    ⟨46076956964474543, 5, [(2, 1), (23, 1), (18169, 1), (78283, 1), (704251, 1)]⟩,
    ⟨774023187263532362759620327192479577272145303, 3,
      [(2, 1), (3, 2), (2411, 1), (34282281433, 1), (11290956913871, 1),
        (46076956964474543, 1)]⟩,
    ⟨835945042244614951780389953367877943453916927241, 11,
      [(2, 3), (3, 3), (5, 1), (774023187263532362759620327192479577272145303, 1)]⟩,
    ⟨p, 6,
      [(2, 1), (3, 1), (5, 2), (17, 1), (257, 1), (641, 1), (1531, 1), (65537, 1), (490463, 1),
        (6700417, 1), (835945042244614951780389953367877943453916927241, 1)]⟩]

/-- The modulus of the field is prime, by a chain of certificates in which each entry rests on
earlier ones. The kernel checks the chain. -/
lemma prime_p : p.Prime := by
  have hknown : ∀ q ∈ [2, 3, 5, 7, 11, 17, 23, 53, 107, 173, 197, 257, 313, 641, 661, 1531, 2411,
      3677, 3769, 17449, 18169, 65537, 78283], q.Prime := by norm_num
  exact Primality.prime_of_chain fieldChain hknown (by decide +kernel) ⟨p, _, _⟩
    (List.mem_of_getLast? rfl)

/-- The certificates that end in the one of the order. -/
def orderChain : List Primality.Entry :=
  [⟨9350987, 2, [(2, 1), (17, 1), (229, 1), (1201, 1)]⟩,
    ⟨187019741, 2, [(2, 2), (5, 1), (9350987, 1)]⟩,
    ⟨311245691, 2, [(2, 1), (5, 1), (7, 1), (17, 1), (29, 2), (311, 1)]⟩,
    ⟨622491383, 5, [(2, 1), (311245691, 1)]⟩,
    ⟨126241, 7, [(2, 5), (3, 1), (5, 1), (263, 1)]⟩,
    ⟨104471, 11, [(2, 1), (5, 1), (31, 1), (337, 1)]⟩,
    ⟨3969899, 2, [(2, 1), (19, 1), (104471, 1)]⟩,
    ⟨1002328039319, 19, [(2, 1), (126241, 1), (3969899, 1)]⟩,
    ⟨155317, 5, [(2, 2), (3, 1), (7, 1), (43, 2)]⟩,
    ⟨191039911, 3, [(2, 1), (3, 1), (5, 1), (41, 1), (155317, 1)]⟩,
    ⟨208150935158385979, 2,
      [(2, 1), (3, 1), (11, 1), (43, 1), (127, 1), (3023, 1), (191039911, 1)]⟩,
    ⟨2624747550333869278416773953, 7,
      [(2, 6), (3, 2), (1297, 1), (16879, 1), (208150935158385979, 1)]⟩,
    ⟨n, 7,
      [(2, 4), (3, 1), (71, 1), (131, 1), (373, 1), (3407, 1), (17449, 1), (38189, 1),
        (187019741, 1), (622491383, 1), (1002328039319, 1), (2624747550333869278416773953, 1)]⟩]

/-- The order is prime, so that scalars form a field and have inverses by powers. -/
lemma prime_n : n.Prime := by
  have hknown : ∀ q ∈ [2, 3, 5, 7, 11, 17, 19, 29, 31, 41, 43, 71, 127, 131, 229, 263, 311, 337,
      373, 1201, 1297, 3023, 3407, 16879, 17449, 38189], q.Prime := by norm_num
  exact Primality.prime_of_chain orderChain hknown (by decide +kernel) ⟨n, _, _⟩
    (List.mem_of_getLast? rfl)

instance : Fact p.Prime := ⟨prime_p⟩

instance : Fact n.Prime := ⟨prime_n⟩

/-- The field of the coordinates, the residues modulo the prime. -/
abbrev Coordinate := ZMod p

/-- The inverse in the field is the power that both backends compute, at zero as well. -/
lemma inverse_eq_pow (v : Coordinate) : v ^ (p - 2) = v⁻¹ :=
  Primality.pow_sub_two_eq_inv (by decide +kernel) v

lemma val_pow (v : Coordinate) (e : ℕ) : (v ^ e).val = v.val ^ e % p := by
  rw [← ZMod.val_natCast, Nat.cast_pow, ZMod.natCast_zmod_val]

/-! ## The curve and its base point -/

/-- The coefficients and the base point of the curve. `a` is minus three, which the source writes as
a number below the modulus. -/
def a : Coordinate := -(3 : ℕ)

def b : Coordinate := 0x5AC635D8AA3A93E7B3EBBD55769886BC651D06B0CC53B0F63BCE3C3E27D2604B

def gx : Coordinate := 0x6B17D1F2E12C4247F8BCE6E563A440F277037D812DEB33A0F4A13945D898C296

def gy : Coordinate := 0x4FE342E2FE1A7F9B8EE7EB4A7C0F9E162BCE33576B315ECECBB6406837BF51F5

lemma two_ne_zero : (2 : Coordinate) ≠ 0 := by decide +kernel

/-- The curve is smooth, so that every solution of the equation is a point of the group. -/
lemma discriminant_ne_zero : (curve a b).Δ ≠ 0 := by
  rw [discriminant_eq]
  decide +kernel

/-- The group of the curve, which is Mathlib's for its equation. -/
abbrev Point := (curve a b).Point

/-- The point at a solution of the curve equation. The curve has no singular point. -/
def pointAt {x y : Coordinate} (h : OnCurve a b x y) : Point :=
  ShortWeierstrass.pointAt discriminant_ne_zero h

/-- The point at a solution has the coordinates of that solution. -/
lemma isAt_pointAt {x y : Coordinate} (h : OnCurve a b x y) : IsAt (pointAt h) x y :=
  ShortWeierstrass.isAt_pointAt discriminant_ne_zero h

/-- The base point, whose coordinates satisfy the equation by evaluation. -/
def G : Point :=
  pointAt (show OnCurve a b gx gy by decide +kernel)

lemma isAt_G : IsAt G gx gy :=
  isAt_pointAt _

/-- What the multiplication of the base point in Jacobian coordinates computes. It is the executable
side of the proof that the base point has order `n`. -/
lemma represents_multiply_G {bits e : ℕ} (he : e < 2 ^ bits) :
    (Jacobian.multiply a gx gy bits e).Represents (e • G) :=
  Jacobian.represents_multiply two_ne_zero isAt_G he

/-- A multiple of the base point vanishes as soon as the computation says infinity. This turns a
fact about the group into an evaluation. -/
lemma nsmul_G_eq_zero (bits e : ℕ) (he : e < 2 ^ bits)
    (h : (Jacobian.multiply a gx gy bits e).infinity = true) : e • G = 0 :=
  (represents_multiply_G he).eq_zero h

lemma n_nsmul_G : n • G = 0 :=
  nsmul_G_eq_zero 256 n (by decide +kernel) (by decide +kernel)

/-- The base point has order `n`: the `n`-th multiple vanishes, the point itself does not, and `n`
is prime. -/
theorem addOrderOf_G : addOrderOf G = n :=
  addOrderOf_eq_prime n_nsmul_G isAt_G.ne_zero

/-- Multiples of the base point vanish exactly at multiples of the order. ECDSA uses this to see
when a combination of scalars gives infinity. -/
lemma nsmul_G_eq_zero_iff (k : ℕ) : k • G = 0 ↔ n ∣ k := by
  rw [← addOrderOf_G]
  exact addOrderOf_dvd_iff_nsmul_eq_zero.symm

lemma nsmul_G_mod (k : ℕ) : (k % n) • G = k • G := by
  rw [← addOrderOf_G, mod_addOrderOf_nsmul]

lemma nsmul_G_congr {j k : ℕ} (h : j ≡ k [MOD n]) : j • G = k • G := by
  rw [← nsmul_G_mod j, h, nsmul_G_mod]

/-- Multiples of the base point by numbers that are equal as residues. The proofs about signatures
calculate with residues and return to the group by this lemma. -/
lemma nsmul_G_of_cast {j k : ℕ} (h : (j : ZMod n) = (k : ZMod n)) : j • G = k • G :=
  nsmul_G_congr ((ZMod.natCast_eq_natCast_iff j k n).mp h)

lemma nsmul_G_of_cast_neg {j k : ℕ} (h : (j : ZMod n) = -(k : ZMod n)) : j • G = -(k • G) := by
  have hsum : (((j + k : ℕ) : ℕ) : ZMod n) = ((0 : ℕ) : ZMod n) := by
    rw [Nat.cast_add, h, neg_add_cancel, Nat.cast_zero]
  have hzero := nsmul_G_of_cast hsum
  rw [add_nsmul, zero_nsmul] at hzero
  exact eq_neg_of_add_eq_zero_left hzero

/-- The first coordinate of a finite point, modulo the order: the number `r` of a signature. -/
def xModN : Point → Option ℕ
  | .zero => none
  | .some x _ _ => some (x.val % n)

/-- A point and its inverse share it. This is where the second signature of a digest comes from. -/
lemma xModN_neg (P : Point) : xModN (-P) = xModN P := by
  cases P with
  | zero => rfl
  | some x y h => rfl

lemma xModN_eq_some_iff {P : Point} {r : ℕ} :
    xModN P = some r ↔ ∃ x y, IsAt P x y ∧ x.val % n = r := by
  cases P with
  | zero =>
      constructor
      · intro h
        cases h
      · rintro ⟨x, y, hat, -⟩
        exact absurd rfl hat.ne_zero
  | some x y hns =>
      constructor
      · intro h
        exact ⟨x, y, ⟨hns, rfl⟩, Option.some.inj h⟩
      · rintro ⟨x', y', ⟨hns', heq⟩, rfl⟩
        cases heq
        rfl

/-! ## Points as bytes -/

/-- A coordinate as the library writes it: 32 bytes, the most significant first. -/
def coordinateBytes (v : Coordinate) : ByteBuffer :=
  beBytes 32 v.val

/-- The coordinate that a byte string stands for: 32 bytes with a value below the modulus. -/
def coordinateOf (bytes : ByteBuffer) : Option Coordinate :=
  if bytes.length = 32 ∧ beValue bytes < p then some (beValue bytes) else none

lemma p_lt : p < 2 ^ 256 := by decide +kernel

lemma n_lt : n < 2 ^ 256 := by decide +kernel

lemma val_lt (v : Coordinate) : v.val < 256 ^ 32 :=
  (ZMod.val_lt v).trans p_lt

@[simp] lemma length_coordinateBytes (v : Coordinate) : (coordinateBytes v).length = 32 :=
  length_beBytes 32 _

@[simp] lemma beValue_coordinateBytes (v : Coordinate) : beValue (coordinateBytes v) = v.val :=
  beValue_beBytes (val_lt v)

lemma coordinateOf_eq_some {bytes : ByteBuffer} {v : Coordinate} :
    coordinateOf bytes = some v ↔ bytes = coordinateBytes v := by
  constructor
  · intro h
    unfold coordinateOf at h
    split at h
    · next hvalid =>
        obtain ⟨hlength, hlt⟩ := hvalid
        have hv : ((beValue bytes : ℕ) : Coordinate) = v := Option.some.inj h
        subst hv
        rw [coordinateBytes, ZMod.val_cast_of_lt hlt]
        exact eq_beBytes hlength rfl
    · cases h
  · intro h
    rw [h, coordinateOf, if_pos ⟨length_coordinateBytes v, by
      rw [beValue_coordinateBytes]
      exact ZMod.val_lt v⟩, beValue_coordinateBytes, ZMod.natCast_zmod_val]

@[simp] lemma coordinateOf_coordinateBytes (v : Coordinate) :
    coordinateOf (coordinateBytes v) = some v :=
  coordinateOf_eq_some.mpr rfl

/-- A finite pair has a coordinate out of range, or it is made of two coordinates. Both backends
start their case analysis here. -/
lemma coordinates_cases {point : P256Point} (hfinite : point.infinity = false) :
    (coordinateOf point.x = none ∨ coordinateOf point.y = none) ∨
      ∃ x y, point = ⟨coordinateBytes x, coordinateBytes y, false⟩ := by
  by_cases hnone : coordinateOf point.x = none ∨ coordinateOf point.y = none
  · exact Or.inl hnone
  · rw [not_or] at hnone
    obtain ⟨x, hx⟩ := Option.ne_none_iff_exists'.mp hnone.1
    obtain ⟨y, hy⟩ := Option.ne_none_iff_exists'.mp hnone.2
    obtain ⟨px, py, infinity⟩ := point
    simp only [coordinateOf_eq_some] at hx hy hfinite
    exact Or.inr ⟨x, y, by rw [hx, hy, hfinite]⟩

/-- Reading two coordinates fails as soon as one of them is out of range. -/
lemma bind_coordinates_of_none {β : Type} {x y : ByteBuffer}
    (h : coordinateOf x = none ∨ coordinateOf y = none) (f : Coordinate → Coordinate → Option β) :
    ((coordinateOf x).bind fun v => (coordinateOf y).bind (f v)) = none := by
  rcases h with h | h
  · rw [h]
    rfl
  · rw [h]
    cases coordinateOf x <;> rfl

/-- The bytes of a point of the group, as the library returns them. -/
def encodePoint : Point → P256Point
  | .zero => p256PointAtInfinity
  | .some x y _ => ⟨coordinateBytes x, coordinateBytes y, false⟩

/-- The point of the group that a byte pair stands for, if any. Infinity is recognised by the flag
alone; a finite pair needs both coordinates in range and a solution of the equation. -/
def decodePoint (point : P256Point) : Option Point :=
  if point.infinity then some 0
  else
    match coordinateOf point.x, coordinateOf point.y with
    | some x, some y => if h : OnCurve a b x y then some (pointAt h) else none
    | _, _ => none

@[simp] lemma encodePoint_zero : encodePoint 0 = p256PointAtInfinity := rfl

/-- The flag is set on the identity and on no other point. -/
lemma encodePoint_infinity_iff (P : Point) : (encodePoint P).infinity = true ↔ P = 0 := by
  cases P with
  | zero => exact iff_of_true rfl rfl
  | some x y hns =>
      exact iff_of_false Bool.false_ne_true (WeierstrassCurve.Affine.Point.some_ne_zero hns)

lemma encodePoint_of_isAt {P : Point} {x y : Coordinate} (h : IsAt P x y) :
    encodePoint P = ⟨coordinateBytes x, coordinateBytes y, false⟩ := by
  obtain ⟨_, rfl⟩ := h
  rfl

/-- Different points have different bytes, since coordinates have 32 bytes of their own. -/
lemma encodePoint_injective : Function.Injective encodePoint := by
  intro P Q h
  cases P with
  | zero =>
      cases Q with
      | zero => rfl
      | some x y hns => exact absurd (congrArg P256Point.infinity h).symm Bool.false_ne_true
  | some x y hns =>
      cases Q with
      | zero => exact absurd (congrArg P256Point.infinity h) Bool.false_ne_true
      | some x' y' hns' =>
          have hx := congrArg (coordinateOf ∘ P256Point.x) h
          have hy := congrArg (coordinateOf ∘ P256Point.y) h
          simp only [encodePoint, Function.comp, coordinateOf_coordinateBytes,
            Option.some.injEq] at hx hy
          subst hx hy
          rfl

lemma decodePoint_infinity {point : P256Point} (h : point.infinity = true) :
    decodePoint point = some 0 := by
  simp [decodePoint, h]

/-- A pair of coordinates on the curve stands for its point. -/
lemma decodePoint_of_isAt {P : Point} {x y : Coordinate} (h : IsAt P x y) :
    decodePoint ⟨coordinateBytes x, coordinateBytes y, false⟩ = some P := by
  simp only [decodePoint, Bool.false_eq_true, if_false, coordinateOf_coordinateBytes]
  rw [dif_pos h.onCurve]
  exact congrArg some ((isAt_pointAt _).unique h)

/-- What the library returns is read back as the point it was made from. -/
@[simp] lemma decodePoint_encodePoint (P : Point) : decodePoint (encodePoint P) = some P := by
  cases P with
  | zero => rfl
  | some x y hns => exact decodePoint_of_isAt ⟨hns, rfl⟩

/-- What a byte pair with a meaning looks like: its bytes are the encodings of two coordinates of a
point. -/
lemma exists_isAt_of_decodePoint {point : P256Point} {P : Point} (h : decodePoint point = some P)
    (hfinite : point.infinity = false) :
    ∃ x y, IsAt P x y ∧ point = ⟨coordinateBytes x, coordinateBytes y, false⟩ := by
  obtain ⟨px, py, infinity⟩ := point
  simp only at hfinite
  subst hfinite
  simp only [decodePoint, Bool.false_eq_true, if_false] at h
  split at h
  · next x y hx hy =>
      rw [coordinateOf_eq_some] at hx hy
      split at h
      · next hcurve =>
          cases h
          exact ⟨x, y, isAt_pointAt hcurve, by rw [← hx, ← hy]⟩
      · cases h
  · cases h

/-- What a byte pair can be: the identity, no point, or the coordinates of a finite point. -/
lemma point_cases (point : P256Point) :
    point.infinity = true ∧ decodePoint point = some 0 ∨
      point.infinity = false ∧ decodePoint point = none ∨
      ∃ P x y, IsAt P x y ∧ point = ⟨coordinateBytes x, coordinateBytes y, false⟩ ∧
        decodePoint point = some P := by
  cases hinf : point.infinity with
  | true => exact Or.inl ⟨rfl, decodePoint_infinity hinf⟩
  | false =>
      cases hP : decodePoint point with
      | none => exact Or.inr (Or.inl ⟨rfl, rfl⟩)
      | some P =>
          obtain ⟨x, y, hat, hpoint⟩ := exists_isAt_of_decodePoint hP hinf
          exact Or.inr (Or.inr ⟨P, x, y, hat, hpoint, rfl⟩)

section Addition

variable {add : P256Point → P256Point → Result P256Point}
  {read : ByteBuffer → ByteBuffer → Result P256Point}

/-- An operation on byte pairs adds the points they stand for if it reads the other argument where
one is the identity, fails on what is no point and adds finite points. -/
theorem add_toOption
    (hread : ∀ x y, (read x y).toOption = (decodePoint ⟨x, y, false⟩).map encodePoint)
    (hidentity : ∀ {lhs rhs}, lhs.infinity = true → rhs.infinity = true →
      add lhs rhs = .ok p256PointAtInfinity)
    (hleft : ∀ {lhs rhs}, lhs.infinity = true → rhs.infinity = false →
      add lhs rhs = read rhs.x rhs.y)
    (hright : ∀ {lhs rhs}, lhs.infinity = false → rhs.infinity = true →
      add lhs rhs = read lhs.x lhs.y)
    (hnone : ∀ {lhs rhs}, lhs.infinity = false → rhs.infinity = false →
      decodePoint lhs = none ∨ decodePoint rhs = none → ∃ e, add lhs rhs = .error e)
    (hfinite : ∀ {P Q x y x' y'}, IsAt P x y → IsAt Q x' y' →
      add ⟨coordinateBytes x, coordinateBytes y, false⟩
        ⟨coordinateBytes x', coordinateBytes y', false⟩ = .ok (encodePoint (P + Q)))
    (lhs rhs : P256Point) :
    (add lhs rhs).toOption = do
      let P ← decodePoint lhs
      let Q ← decodePoint rhs
      return encodePoint (P + Q) := by
  have hreadPoint : ∀ {point : P256Point}, point.infinity = false →
      (read point.x point.y).toOption = (decodePoint point).map encodePoint := by
    rintro ⟨x, y, infinity⟩ rfl
    exact hread x y
  cases hl : lhs.infinity with
  | true =>
      rw [decodePoint_infinity hl]
      cases hr : rhs.infinity with
      | true =>
          rw [hidentity hl hr, decodePoint_infinity hr]
          simp [Except.toOption]
      | false =>
          rw [hleft hl hr, hreadPoint hr]
          cases decodePoint rhs <;> simp
  | false =>
      cases hr : rhs.infinity with
      | true =>
          rw [hright hl hr, hreadPoint hl, decodePoint_infinity hr]
          cases decodePoint lhs <;> simp
      | false =>
          -- An argument off the curve: whichever it is, the sum fails.
          cases hP : decodePoint lhs with
          | none =>
              obtain ⟨e, he⟩ := hnone hl hr (Or.inl hP)
              rw [he]
              rfl
          | some P =>
              cases hQ : decodePoint rhs with
              | none =>
                  obtain ⟨e, he⟩ := hnone hl hr (Or.inr hQ)
                  rw [he]
                  rfl
              | some Q =>
                  obtain ⟨x, y, hPat, hlhs⟩ := exists_isAt_of_decodePoint hP hl
                  obtain ⟨x', y', hQat, hrhs⟩ := exists_isAt_of_decodePoint hQ hr
                  rw [hlhs, hrhs, hfinite hPat hQat]
                  rfl

end Addition

end P256Curve

end CryptoCore
