import CryptoCore.Construction.P256
import CryptoCore.Construction.P256Fixed

/-!
# The two backends of P-256

Three results about the curve arithmetic. `p256Fixed_multiplication_action`: scalar multiplication
in the fixed-limb backend is the action of the natural numbers on the group of the curve, by the
bit-serial algorithm and by the windowed one, for scalars of any length and for every point that the
backend accepts. `p256_backends_agree`: the two backends return the same values on the same
arguments and fail on the same ones; their errors differ in domain and text, so the comparison
forgets them. `p256Fixed_pointAdd_group`: addition in the fixed-limb backend is the operation of the
group, with the exceptional cases (the identity, a doubling, an inverse pair) decided as the group
law says, and finite operands off the curve refused.

All three rest on the specifications over the group in `Construction/P256Fixed.lean` and
`Construction/P256.lean`: nothing about limbs, windows or formulas remains here. A point that is
*accepted* is infinity or one that the backend has built from coordinates (`Accepted`), which is how
callers come by points; `IsCurvePoint` says the same of the bytes.
-/

namespace CryptoCore

open ByteStrings P256Curve ShortWeierstrass

/-! ## Multiplication -/

namespace P256Fixed

/-- The points that the fixed-limb backend works on: infinity, and those it builds itself. -/
def Accepted (point : P256Point) : Prop :=
  point.infinity = true ∨ ∃ x y, pointFromCoordinates x y = .ok point

/-- Accepted points stand for points of the group. -/
lemma Accepted.exists_decodePoint {point : P256Point} (h : Accepted point) :
    ∃ P : Point, decodePoint point = some P := by
  rcases h with hinfinity | ⟨x, y, haccept⟩
  · exact ⟨0, decodePoint_infinity hinfinity⟩
  · have hoption := pointFromCoordinates_toOption x y
    rw [toOption_eq_some.mpr haccept] at hoption
    obtain ⟨P, -, hP⟩ := Option.map_eq_some_iff.mp hoption.symm
    exact ⟨P, hP ▸ decodePoint_encodePoint P⟩

/-- The base point is built from its coordinates. -/
lemma accepted_base : Accepted ⟨coordinateBytes gx, coordinateBytes gy, false⟩ := by
  have hoption := pointFromCoordinates_toOption (coordinateBytes gx) (coordinateBytes gy)
  rw [decodePoint_of_isAt isAt_G, Option.map_some, encodePoint_of_isAt isAt_G] at hoption
  exact .inr ⟨_, _, toOption_eq_some.mp hoption⟩

end P256Fixed

/-- A point that is infinity or accepted by the fixed-limb backend stands for a point of the group,
and both multiplications are multiples in that group. -/
theorem p256Fixed_multiplication_action (scalar : List UInt8) (point : P256Point)
    (hpoint : point.infinity = true ∨
      ∃ x y, P256Fixed.pointFromCoordinates x y = .ok point) :
    ∃ P : Point, decodePoint point = some P ∧
      P256Fixed.scalarMultiply scalar point = .ok (encodePoint (beValue scalar • P)) ∧
      ((encodePoint (beValue scalar • P)).infinity = true ↔ beValue scalar • P = 0) ∧
      P256Fixed.basePointMultiply scalar = .ok (encodePoint (beValue scalar • G)) ∧
      ((encodePoint (beValue scalar • G)).infinity = true ↔ beValue scalar • G = 0) ∧
      P256Fixed.scalarMultiply scalar (encodePoint G) = P256Fixed.basePointMultiply scalar := by
  obtain ⟨P, hP⟩ := P256Fixed.Accepted.exists_decodePoint hpoint
  have hmultiply : ∀ (point : P256Point) (P : Point), decodePoint point = some P →
      P256Fixed.scalarMultiply scalar point = .ok (encodePoint (beValue scalar • P)) := by
    intro point P hP
    have hoption := P256Fixed.scalarMultiply_toOption scalar point
    rw [hP] at hoption
    exact toOption_eq_some.mp hoption
  have hbase := P256Fixed.basePointMultiply_eq scalar
  refine ⟨P, hP, hmultiply point P hP, encodePoint_infinity_iff _, hbase,
    encodePoint_infinity_iff _, ?_⟩
  rw [hbase, hmultiply _ G (decodePoint_encodePoint G)]

/-- Three times the base point, given by its coordinates. -/
theorem p256Fixed_multiplication_action_base :
    ∃ P : Point, decodePoint ⟨coordinateBytes gx, coordinateBytes gy, false⟩ = some P ∧
      P256Fixed.scalarMultiply [0x00, 0x03] ⟨coordinateBytes gx, coordinateBytes gy, false⟩ =
        .ok (encodePoint (beValue [0x00, 0x03] • P)) ∧
      ((encodePoint (beValue [0x00, 0x03] • P)).infinity = true ↔
        beValue [0x00, 0x03] • P = 0) ∧
      P256Fixed.basePointMultiply [0x00, 0x03] = .ok (encodePoint (beValue [0x00, 0x03] • G)) ∧
      ((encodePoint (beValue [0x00, 0x03] • G)).infinity = true ↔
        beValue [0x00, 0x03] • G = 0) ∧
      P256Fixed.scalarMultiply [0x00, 0x03] (encodePoint G) =
        P256Fixed.basePointMultiply [0x00, 0x03] :=
  p256Fixed_multiplication_action _ _ P256Fixed.accepted_base

/-- On every argument the two backends succeed together, with the same value. -/
theorem p256_backends_agree :
    (∀ x y, (P256Fixed.pointFromCoordinates x y).toOption =
      (P256.pointFromCoordinates x y).toOption) ∧
    (∀ point, (P256Fixed.isOnCurve point).toOption = (P256.isOnCurve point).toOption) ∧
    (∀ lhs rhs, (P256Fixed.pointAdd lhs rhs).toOption = (P256.pointAdd lhs rhs).toOption) ∧
    (∀ scalar point, (P256Fixed.scalarMultiply scalar point).toOption =
      (P256.scalarMultiply scalar point).toOption) ∧
    (∀ scalar, (P256Fixed.basePointMultiply scalar).toOption =
      (P256.basePointMultiply scalar).toOption) ∧
    (∀ point, (P256Fixed.xModOrder point).toOption = (P256.xModOrder point).toOption) ∧
    (∀ scalar, beValue scalar < 2 ^ 256 →
      (P256Fixed.scalarInverse scalar).toOption = (P256.scalarInverse scalar).toOption) ∧
    (∀ lhs rhs, beValue lhs < 2 ^ 256 → beValue rhs < 2 ^ 256 →
      (P256Fixed.scalarMultiplyMod lhs rhs).toOption =
        (P256.scalarMultiplyMod lhs rhs).toOption) := by
  refine ⟨fun x y => ?_, fun point => ?_, fun lhs rhs => ?_, fun scalar point => ?_,
    fun scalar => ?_, fun point => ?_, fun scalar h => ?_, fun lhs rhs hl hr => ?_⟩
  · rw [P256Fixed.pointFromCoordinates_toOption, P256.pointFromCoordinates_toOption]
  · rw [P256Fixed.isOnCurve_toOption, P256.isOnCurve_toOption]
  · rw [P256Fixed.pointAdd_toOption, P256.pointAdd_toOption]
  · rw [P256Fixed.scalarMultiply_toOption, P256.scalarMultiply_toOption]
  · rw [P256Fixed.basePointMultiply_eq, P256.basePointMultiply_eq]
  · rw [P256Fixed.xModOrder_toOption, P256.xModOrder_toOption]
  · rw [P256Fixed.scalarInverse_eq h, P256.scalarInverse_eq]
    split <;> rfl
  · rw [P256Fixed.scalarMultiplyMod_eq hl hr, P256.scalarMultiplyMod_eq]

/-- The scalars of the bounded part: the inverse of two, and the product of two and three. -/
theorem p256_backends_agree_small :
    (P256Fixed.scalarInverse [0x02]).toOption = (P256.scalarInverse [0x02]).toOption ∧
      (P256Fixed.scalarMultiplyMod [0x02] [0x03]).toOption =
        (P256.scalarMultiplyMod [0x02] [0x03]).toOption := by
  obtain ⟨-, -, -, -, -, -, hinverse, hproduct⟩ := p256_backends_agree
  exact ⟨hinverse [0x02] (by decide), hproduct [0x02] [0x03] (by decide) (by decide)⟩

/-! ## Addition -/

namespace P256Fixed

/-- A finite point with 32-byte coordinates below the modulus that solve the curve equation. -/
structure IsCurvePoint (point : P256Point) : Prop where
  finite : point.infinity = false
  length_x : point.x.length = 32
  length_y : point.y.length = 32
  x_lt : beValue point.x < p
  y_lt : beValue point.y < p
  onCurve : OnCurve a b (beValue point.x : Coordinate) (beValue point.y : Coordinate)

/-- What has a meaning is a point of the curve, and back: the condition on bytes, the numbers they
stand for and the equation is exactly that a point is decoded. -/
lemma isCurvePoint_iff {point : P256Point} (hfinite : point.infinity = false) :
    IsCurvePoint point ↔ ∃ P : Point, decodePoint point = some P := by
  constructor
  · intro h
    refine ⟨pointAt h.onCurve, ?_⟩
    rw [decodePoint, hfinite, if_neg Bool.false_ne_true, coordinateOf,
      if_pos ⟨h.length_x, h.x_lt⟩, coordinateOf, if_pos ⟨h.length_y, h.y_lt⟩]
    exact dif_pos h.onCurve
  · rintro ⟨P, hP⟩
    obtain ⟨x, y, hat, rfl⟩ := exists_isAt_of_decodePoint hP hfinite
    refine ⟨rfl, length_coordinateBytes x, length_coordinateBytes y, ?_, ?_, ?_⟩
    · exact (beValue_coordinateBytes x).trans_lt (ZMod.val_lt x)
    · exact (beValue_coordinateBytes y).trans_lt (ZMod.val_lt y)
    · simp only [beValue_coordinateBytes, ZMod.natCast_zmod_val]
      exact hat.onCurve

/-- Bytes that are no point of the curve decode to nothing. -/
lemma decodePoint_eq_none {point : P256Point} (hfinite : point.infinity = false)
    (h : ¬ IsCurvePoint point) : decodePoint point = none := by
  rw [isCurvePoint_iff hfinite] at h
  cases hpoint : decodePoint point with
  | none => rfl
  | some P => exact absurd ⟨P, hpoint⟩ h

/-- The sum, for arguments whose points are known. -/
lemma pointAdd_of_decodePoint {lhs rhs : P256Point} {P Q : Point}
    (hlhs : decodePoint lhs = some P) (hrhs : decodePoint rhs = some Q) :
    pointAdd lhs rhs = .ok (encodePoint (P + Q)) := by
  have hoption := pointAdd_toOption lhs rhs
  rw [hlhs, hrhs] at hoption
  exact toOption_eq_some.mp hoption

/-- A finite operand off the curve is refused on either side, even when the other one is infinity.
-/
lemma pointAdd_error {lhs rhs : P256Point}
    (h : lhs.infinity = false ∧ ¬ IsCurvePoint lhs ∨ rhs.infinity = false ∧ ¬ IsCurvePoint rhs) :
    ∃ e, pointAdd lhs rhs = .error e := by
  have hoption := pointAdd_toOption lhs rhs
  have hnone : (do
      let P ← decodePoint lhs
      let Q ← decodePoint rhs
      return encodePoint (P + Q)) = none := by
    rcases h with ⟨hfinite, hnot⟩ | ⟨hfinite, hnot⟩
    · rw [decodePoint_eq_none hfinite hnot]
      rfl
    · rw [decodePoint_eq_none hfinite hnot]
      cases decodePoint lhs <;> rfl
  rw [hnone] at hoption
  cases hadd : pointAdd lhs rhs with
  | ok sum =>
      rw [hadd] at hoption
      cases hoption
  | error e => exact ⟨e, rfl⟩

end P256Fixed

open P256Fixed in
/-- Addition is the operation of the group of the curve on the points that are accepted, and
fails on finite operands that are no points of the curve. -/
theorem p256Fixed_pointAdd_group :
    (∀ lhs rhs, Accepted lhs → Accepted rhs →
      ∃ (P Q : Point) (sum : P256Point), decodePoint lhs = some P ∧ decodePoint rhs = some Q ∧
        pointAdd lhs rhs = .ok sum ∧ decodePoint sum = some (P + Q) ∧
        (sum.infinity = true ↔ Q = -P) ∧ (sum.infinity = false → IsCurvePoint sum)) ∧
    (∀ lhs rhs,
      lhs.infinity = false ∧ ¬ IsCurvePoint lhs ∨ rhs.infinity = false ∧ ¬ IsCurvePoint rhs →
        ∃ e, pointAdd lhs rhs = .error e) ∧
    (∀ lhs rhs, Accepted lhs → Accepted rhs → pointAdd lhs rhs = pointAdd rhs lhs) ∧
    (∀ first second third, Accepted first → Accepted second → Accepted third →
      (pointAdd first second >>= fun sum => pointAdd sum third) =
        (pointAdd second third >>= fun sum => pointAdd first sum)) := by
  refine ⟨?_, fun lhs rhs h => pointAdd_error h, ?_, ?_⟩
  · intro lhs rhs hlhs hrhs
    obtain ⟨P, hP⟩ := hlhs.exists_decodePoint
    obtain ⟨Q, hQ⟩ := hrhs.exists_decodePoint
    refine ⟨P, Q, encodePoint (P + Q), hP, hQ, pointAdd_of_decodePoint hP hQ,
      decodePoint_encodePoint _, ?_, ?_⟩
    · rw [encodePoint_infinity_iff, add_comm, add_eq_zero_iff_eq_neg]
    · exact fun hfinite => (isCurvePoint_iff hfinite).mpr ⟨P + Q, decodePoint_encodePoint _⟩
  · intro lhs rhs hlhs hrhs
    obtain ⟨P, hP⟩ := hlhs.exists_decodePoint
    obtain ⟨Q, hQ⟩ := hrhs.exists_decodePoint
    rw [pointAdd_of_decodePoint hP hQ, pointAdd_of_decodePoint hQ hP, add_comm]
  · intro first second third hfirst hsecond hthird
    obtain ⟨P, hP⟩ := hfirst.exists_decodePoint
    obtain ⟨Q, hQ⟩ := hsecond.exists_decodePoint
    obtain ⟨R, hR⟩ := hthird.exists_decodePoint
    rw [pointAdd_of_decodePoint hP hQ, pointAdd_of_decodePoint hQ hR, ok_bind, ok_bind,
      pointAdd_of_decodePoint (decodePoint_encodePoint _) hR,
      pointAdd_of_decodePoint hP (decodePoint_encodePoint _), add_assoc]

open P256Fixed in
/-- The base point, given by its coordinates, added to itself. -/
theorem p256Fixed_pointAdd_group_base :
    ∃ (P Q : Point) (sum : P256Point),
      decodePoint ⟨coordinateBytes gx, coordinateBytes gy, false⟩ = some P ∧
      decodePoint ⟨coordinateBytes gx, coordinateBytes gy, false⟩ = some Q ∧
      pointAdd ⟨coordinateBytes gx, coordinateBytes gy, false⟩
        ⟨coordinateBytes gx, coordinateBytes gy, false⟩ = .ok sum ∧
      decodePoint sum = some (P + Q) ∧ (sum.infinity = true ↔ Q = -P) ∧
      (sum.infinity = false → IsCurvePoint sum) :=
  p256Fixed_pointAdd_group.1 _ _ accepted_base accepted_base

end CryptoCore
