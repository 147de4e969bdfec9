import CryptoCore.Construction.Memory
import CryptoCore.Construction.P256FixedInteger

/-!
# The fixed-limb backend of P-256

The backend that the library uses: affine points, the mixed Jacobian ladder that selects by masks,
and the windowed multiplication of the base point, over the integers of
`Construction/P256FixedInteger.lean`. The field operations cannot fail here, and infinity is a flag
of the affine point as well.

On representations of field elements the operations are those of `ShortWeierstrass`:
`jacobianDouble_lift` and `jacobianAddAffine_lift` are proved as in the reference backend, by
evaluating the formulas of the source with the simp lemmas for field elements. A ladder then carries
one invariant, `HoldsMultiple`: its state stands for a known multiple of the point. The bit-serial
round doubles the multiplier and adds a bit (`branchFreeRound_holds`); a window multiplies it by
sixteen and adds a nibble (`windowRound_holds`), for which the table of the base point is evaluated
once (`basePointWindowTable_eq`) and the masked scan of it is shown to return the entry that the
nibble names (`basePointSelectWindow_eq`).

Each public function finally has a specification over the group of the curve, in the form that
`Construction/P256.lean` gives to the reference backend: what it returns is decided by the points
that its arguments stand for. `Properties/P256.lean` puts the two side by side, and the signatures
of `Construction/Ecdsa.lean` are computed with the functions of this module.
-/

namespace CryptoCore

open ByteStrings ShortWeierstrass

namespace P256Fixed

/-- An affine point with its own flag, where the reference backend has finite points only. At
infinity the coordinates are zero. -/
structure AffinePoint where
  x : U256
  y : U256
  infinity : Bool

structure JacobianPoint where
  x : U256
  y : U256
  z : U256
  infinity : Bool

/-! ## Affine points -/

/-- A finite point in the fixed encoding. The source returns a result, although nothing can fail. -/
def makePoint (x y : U256) : Result P256Point :=
  .ok ⟨toBeBytesFixed x, toBeBytesFixed y, false⟩

/-- Reading a point: infinity is accepted and keeps its flag, a finite pair must have two
coordinates in range. The equation of the curve is not checked here. -/
def loadAffine (point : P256Point) : Result AffinePoint :=
  if point.infinity then .ok ⟨zero, zero, true⟩
  else do
    let x ← coordinateFromBe point.x
    let y ← coordinateFromBe point.y
    return ⟨x, y, false⟩

/-- The equation of the curve. Infinity is not on it. -/
def isOnCurveAffine (point : AffinePoint) : Bool :=
  if point.infinity then false
  else
    let ySquared := fieldMultiply point.y point.y
    let xSquared := fieldMultiply point.x point.x
    let xCubed := fieldMultiply xSquared point.x
    let ax := fieldMultiply aValue point.x
    let rhs := fieldAdd (fieldAdd xCubed ax) bValue
    compare ySquared rhs == 0

/-- A finite point of the curve or an error; the source treats infinity and a pair off the curve
alike. -/
def requireAffineOnCurve (point : P256Point) : Result AffinePoint := do
  let affine ← loadAffine point
  require (!(affine.infinity || !isOnCurveAffine affine))
    (fixedError .invalidKey "P-256 point is not on the curve")
  return affine

def pointDoubleAffine (point : AffinePoint) : Result P256Point :=
  if point.infinity || isZero point.y then .ok p256PointAtInfinity
  else
    let xSquared := fieldMultiply point.x point.x
    let numerator := fieldAdd (fieldMultiply (word 3) xSquared) aValue
    let denominator := fieldMultiply (word 2) point.y
    let slope := fieldMultiply numerator (fieldInverse denominator)
    let x3 := fieldSubtract (fieldMultiply slope slope) (fieldMultiply (word 2) point.x)
    let y3 := fieldSubtract (fieldMultiply slope (fieldSubtract point.x x3)) point.y
    makePoint x3 y3

/-- Outside bytes as a point. The lengths are checked by the reading of the coordinates. -/
def pointFromCoordinates (x y : ByteBuffer) : Result P256Point := do
  let point : P256Point := ⟨x, y, false⟩
  let _ ← requireAffineOnCurve point
  return point

/-- Whether a point is on the curve; coordinates out of range are an error, not a negative answer.
-/
def isOnCurve (point : P256Point) : Result Bool := do
  let affine ← loadAffine point
  return isOnCurveAffine affine

/-- Addition with the same branches as in the reference backend: the identity on either side, an
inverse pair, a doubling, and the chord. -/
def pointAdd (lhs rhs : P256Point) : Result P256Point :=
  if lhs.infinity then
    if rhs.infinity then .ok p256PointAtInfinity
    else pointFromCoordinates rhs.x rhs.y
  else if rhs.infinity then pointFromCoordinates lhs.x lhs.y
  else do
    let left ← requireAffineOnCurve lhs
    let right ← requireAffineOnCurve rhs
    if compare left.x right.x == 0 then
      if isZero (fieldAdd left.y right.y) then .ok p256PointAtInfinity
      else pointDoubleAffine left
    else
      let numerator := fieldSubtract right.y left.y
      let denominator := fieldSubtract right.x left.x
      let slope := fieldMultiply numerator (fieldInverse denominator)
      let x3 := fieldSubtract (fieldSubtract (fieldMultiply slope slope) left.x) right.x
      let y3 := fieldSubtract (fieldMultiply slope (fieldSubtract left.x x3)) left.y
      makePoint x3 y3

/-! ## Jacobian points -/

def jacobianInfinity : Result JacobianPoint :=
  .ok ⟨zero, zero, zero, true⟩

def affineToJacobian (point : AffinePoint) : JacobianPoint :=
  if point.infinity then ⟨zero, zero, zero, true⟩
  else ⟨point.x, point.y, one, false⟩

def jacobianDouble (point : JacobianPoint) : Result JacobianPoint :=
  if point.infinity || isZero point.y then jacobianInfinity
  else
    let xx := fieldMultiply point.x point.x
    let yy := fieldMultiply point.y point.y
    let yyyy := fieldMultiply yy yy
    let zz := fieldMultiply point.z point.z
    let xPlusYy := fieldAdd point.x yy
    let sHalf := fieldSubtract (fieldSubtract (fieldMultiply xPlusYy xPlusYy) xx) yyyy
    let s := fieldMultiply (word 2) sHalf
    let aZzSquared := fieldMultiply aValue (fieldMultiply zz zz)
    let m := fieldAdd (fieldMultiply (word 3) xx) aZzSquared
    let x3 := fieldSubtract (fieldMultiply m m) (fieldMultiply (word 2) s)
    let y3 := fieldSubtract (fieldMultiply m (fieldSubtract s x3)) (fieldMultiply (word 8) yyyy)
    let yPlusZ := fieldAdd point.y point.z
    let z3 := fieldSubtract (fieldSubtract (fieldMultiply yPlusZ yPlusZ) yy) zz
    if isZero z3 then jacobianInfinity else .ok ⟨x3, y3, z3, false⟩

/-- Addition of an affine point, which may be infinity here, since the table of the base point
starts with it. -/
def jacobianAddAffine (lhs : JacobianPoint) (rhs : AffinePoint) : Result JacobianPoint :=
  if rhs.infinity then .ok lhs
  else if lhs.infinity then .ok (affineToJacobian rhs)
  else
    let z1z1 := fieldMultiply lhs.z lhs.z
    let u2 := fieldMultiply rhs.x z1z1
    let s2 := fieldMultiply rhs.y (fieldMultiply lhs.z z1z1)
    let h := fieldSubtract u2 lhs.x
    let s2MinusY1 := fieldSubtract s2 lhs.y
    -- The points share a coordinate: they are equal, or cancel.
    if isZero h then
      if isZero s2MinusY1 then jacobianDouble lhs else jacobianInfinity
    else
      let hh := fieldMultiply h h
      let i := fieldMultiply (word 4) hh
      let j := fieldMultiply h i
      let r := fieldMultiply (word 2) s2MinusY1
      let v := fieldMultiply lhs.x i
      let x3 := fieldSubtract (fieldSubtract (fieldMultiply r r) j) (fieldMultiply (word 2) v)
      let y3 := fieldSubtract (fieldMultiply r (fieldSubtract v x3))
        (fieldMultiply (word 2) (fieldMultiply lhs.y j))
      let z1PlusH := fieldAdd lhs.z h
      let z3 := fieldSubtract (fieldSubtract (fieldMultiply z1PlusH z1PlusH) z1z1) hh
      if isZero z3 then jacobianInfinity else .ok ⟨x3, y3, z3, false⟩

def jacobianToAffine (point : JacobianPoint) : Result P256Point :=
  if point.infinity then .ok p256PointAtInfinity
  else
    let zInverse := fieldInverse point.z
    let zInverseSquared := fieldMultiply zInverse zInverse
    let zInverseCubed := fieldMultiply zInverseSquared zInverse
    makePoint (fieldMultiply point.x zInverseSquared) (fieldMultiply point.y zInverseCubed)

/-! ## The table of the base point -/

/-- The value-initialized point of an unfilled table entry. It is no encoding of a point, and no
entry of the finished table is left at it. -/
def defaultPoint : P256Point := ⟨[], [], false⟩

/-- The loop that adds the base point to the entry before; it stops at an error and leaves the
remaining entries as they were initialized. -/
def fillWindowTable (base : P256Point) : ℕ → P256Point → List P256Point
  | 0, _ => []
  | entries + 1, previous =>
      match pointAdd previous base with
      | .error _ => List.replicate (entries + 1) defaultPoint
      | .ok next => next :: fillWindowTable base entries next

/-- The sixteen multiples of the base point, from infinity to fifteen. The source fills the table
once, on first use. -/
def basePointWindowTable : List P256Point :=
  p256PointAtInfinity ::
    match makePoint gxValue gyValue with
    | .error _ => List.replicate 15 defaultPoint
    | .ok base => base :: fillWindowTable base 14 base

/-! ## Masked selection -/

/-- One byte of a coordinate, with zero for infinity, so that the scan below reads every entry
alike. -/
def pointCoordinateByte (point : P256Point) (xCoordinate : Bool) (index : ℕ) : UInt8 :=
  if point.infinity then 0
  else
    let bytes := if xCoordinate then point.x else point.y
    bytes.getD index 0

/-- The limbs of one of two integers, by a mask that is spread over the words. -/
def selectU256 (mask : UInt8) (ifSet ifClear : U256) : U256 :=
  ⟨Limbs.select (wordMaskFromByte mask) (ifSet.limbs.getD · 0) (ifClear.limbs.getD · 0) 8,
    by simp⟩

/-- The choice between two triples, coordinate by coordinate, the flags included. -/
def selectJacobian (mask : UInt8) (ifSet ifClear : JacobianPoint) : JacobianPoint :=
  let infinityMask := constantTimeSelect mask (constantTimeBoolMask ifSet.infinity)
    (constantTimeBoolMask ifClear.infinity)
  { x := selectU256 mask ifSet.x ifClear.x
    y := selectU256 mask ifSet.y ifClear.y
    z := selectU256 mask ifSet.z ifClear.z
    infinity := infinityMask != 0 }

/-- The coordinates and the flag that have been selected so far. -/
structure WindowSelection where
  x : List UInt8
  y : List UInt8
  infinity : UInt8

/-- One round of the selection: the table entry at index `i` under its mask. -/
def selectWindowRound (selectedNibble : UInt8) (selection : WindowSelection)
    (entry : P256Point × ℕ) : WindowSelection :=
  let mask := constantTimeIsZero (selectedNibble ^^^ UInt8.ofNat entry.2)
  { x := (List.range 32).map fun byteIndex =>
      constantTimeSelect mask (pointCoordinateByte entry.1 true byteIndex)
        (selection.x.getD byteIndex 0)
    y := (List.range 32).map fun byteIndex =>
      constantTimeSelect mask (pointCoordinateByte entry.1 false byteIndex)
        (selection.y.getD byteIndex 0)
    infinity := constantTimeSelect mask (constantTimeBoolMask entry.1.infinity)
      selection.infinity }

/-- The scan of the whole table under the mask of each index. All sixteen entries are read,
whichever is wanted. -/
def basePointSelectWindow (nibble : UInt8) : Result P256Point :=
  let selectedNibble := nibble &&& 0x0F
  let selection := basePointWindowTable.zipIdx.foldl (selectWindowRound selectedNibble)
    ⟨List.replicate 32 0, List.replicate 32 0, 0⟩
  if selection.infinity != 0 then .ok p256PointAtInfinity
  else .ok ⟨selection.x, selection.y, false⟩

/-! ## Scalar multiplication -/

/-- One bit of the branch-free multiplication: the sum is always computed. -/
def branchFreeRound (addend : AffinePoint) (byte : UInt8) (bit : ℕ) (result : JacobianPoint) :
    Result JacobianPoint := do
  let doubled ← jacobianDouble result
  let added ← jacobianAddAffine doubled addend
  let mask : UInt8 := 0 - ((byte >>> UInt8.ofNat bit) &&& 0x01)
  return selectJacobian mask added doubled

/-- The bit-serial ladder: for every bit a doubling and an addition, of which the mask keeps one. -/
def scalarMultiplyBranchFree (scalar : List UInt8) (point : P256Point) : Result P256Point :=
  if point.infinity then .ok p256PointAtInfinity
  else do
    let addend ← requireAffineOnCurve point
    let start ← jacobianInfinity
    let result ← scalar.foldlM
      (fun result byte => Loops.loopDownM (branchFreeRound addend byte) 8 result) start
    jacobianToAffine result

def scalarMultiply (scalar : List UInt8) (point : P256Point) : Result P256Point :=
  scalarMultiplyBranchFree scalar point

/-- One window: four doublings and the addition of a table entry, infinity included for the nibble
zero. -/
def windowRound (result : JacobianPoint) (nibble : UInt8) : Result JacobianPoint := do
  let doubled ← Loops.loopUpM (fun _ => jacobianDouble) 4 result
  let selected ← basePointSelectWindow nibble
  let affine ← loadAffine selected
  jacobianAddAffine doubled affine

/-- The two windows of a byte, high nibble first, as the loop over the scalar takes them. -/
def nibbles (byte : UInt8) : List UInt8 :=
  [(byte >>> 4) &&& 0x0F, byte &&& 0x0F]

/-- The windowed multiplication, over all the nibbles of the scalar. Its length is not bounded. -/
def basePointMultiplyWindowed (scalar : List UInt8) : Result P256Point := do
  let start ← jacobianInfinity
  let result ← scalar.foldlM
    (fun result byte => (nibbles byte).foldlM windowRound result) start
  jacobianToAffine result

def basePointMultiply (scalar : List UInt8) : Result P256Point :=
  basePointMultiplyWindowed scalar

/-! ## Scalars -/

def scalarInverse (scalar : List UInt8) : Result ByteBuffer := do
  let reduced ← scalarFromBeReduced scalar
  require (!isZero reduced) (fixedError .invalidArgument "scalar has no inverse")
  return toBeBytesMinimal (modExp reduced nMinusTwoValue nValue)

def scalarAddMod (lhs rhs : List UInt8) : Result ByteBuffer := do
  let left ← scalarFromBeReduced lhs
  let right ← scalarFromBeReduced rhs
  return toBeBytesMinimal (modAdd left right nValue)

def scalarMultiplyMod (lhs rhs : List UInt8) : Result ByteBuffer := do
  let left ← scalarFromBeReduced lhs
  let right ← scalarFromBeReduced rhs
  return toBeBytesMinimal (modMultiply left right nValue)

/-- A scalar reduced modulo the order, in 32 bytes with leading zeros. -/
def scalarReduceFixed32 (scalar : List UInt8) : Result ByteBuffer := do
  let reduced ← scalarFromBeReduced scalar
  return toBeBytesFixed reduced

def xModOrder (point : P256Point) : Result ByteBuffer := do
  let affine ← requireAffineOnCurve point
  return toBeBytesMinimal (scalarReduce affine.x)

/-- Whether a scalar lies between one and the order. Too many significant bytes are a negative
answer and no error. -/
def scalarIsValidNonzero (scalar : List UInt8) : Result Bool :=
  let scalar := scalar.dropWhile (· == 0)
  if scalar.length > 32 then .ok false
  else do
    let value ← u256FromBe scalar
    return !isZero value && compare value nValue < 0

/-! ## The operations on field elements -/

open P256Curve

/-- The representation of a Jacobian triple, on which all the operations are those of the field. -/
def liftJacobian (J : Jacobian Coordinate) : JacobianPoint :=
  ⟨ofField J.x, ofField J.y, ofField J.z, J.infinity⟩

/-- The representation of a pair of coordinates, as a finite point. -/
def liftAffine (x y : Coordinate) : AffinePoint :=
  ⟨ofField x, ofField y, false⟩

lemma jacobianInfinity_eq : jacobianInfinity = .ok (liftJacobian Jacobian.identity) := by
  simp [jacobianInfinity, liftJacobian, Jacobian.identity, zero_eq]

@[simp] lemma affineToJacobian_liftAffine (x y : Coordinate) :
    affineToJacobian (liftAffine x y) = liftJacobian (Jacobian.ofAffine x y) := by
  simp [affineToJacobian, liftAffine, liftJacobian, Jacobian.ofAffine, one_eq]

/-- The check of the curve decides the equation over the field. -/
lemma isOnCurveAffine_liftAffine (x y : Coordinate) :
    isOnCurveAffine (liftAffine x y) = decide (OnCurve a b x y) := by
  simp only [isOnCurveAffine, liftAffine, Bool.false_eq_true, if_false, aValue_eq, bValue_eq,
    fieldMultiply_ofField, fieldAdd_ofField]
  rw [Bool.eq_iff_iff, beq_iff_eq, compare_ofField, decide_eq_true_iff]
  rfl

/-- The check of the last coordinate, at which both formulas end, is `Jacobian.checked`. -/
lemma checked_eq (x y z : Coordinate) :
    (if z = 0 then jacobianInfinity else .ok ⟨ofField x, ofField y, ofField z, false⟩) =
      .ok (liftJacobian (Jacobian.checked x y z)) := by
  rw [Jacobian.checked, jacobianInfinity_eq]
  by_cases hz : z = 0
  · rw [if_pos hz, if_pos hz]
  · rw [if_neg hz, if_neg hz]
    rfl

/-- Doubling is that of `ShortWeierstrass`, as for the reference backend. -/
theorem jacobianDouble_lift (J : Jacobian Coordinate) :
    jacobianDouble (liftJacobian J) = .ok (liftJacobian (J.double a)) := by
  unfold jacobianDouble
  simp only [liftJacobian, isZero_ofField, fieldMultiply_ofField, fieldAdd_ofField,
    fieldSubtract_ofField, aValue_eq, word_two, word_three, word_eight, Bool.or_eq_true,
    decide_eq_true_eq]
  by_cases hinf : J.infinity = true ∨ J.y = 0
  · rw [if_pos hinf, Jacobian.double, if_pos hinf, jacobianInfinity_eq]
    rfl
  · rw [if_neg hinf, Jacobian.double, if_neg hinf]
    exact checked_eq _ _ _

/-- Mixed addition is that of `ShortWeierstrass`, with the case of equal first coordinates apart. -/
theorem jacobianAddAffine_lift (J : Jacobian Coordinate) (x y : Coordinate) :
    jacobianAddAffine (liftJacobian J) (liftAffine x y) =
      .ok (liftJacobian (J.addAffine a x y)) := by
  unfold jacobianAddAffine
  rw [show (liftAffine x y).infinity = false from rfl]
  simp only [Bool.false_eq_true, if_false]
  by_cases hinf : J.infinity = true
  · rw [show (liftJacobian J).infinity = J.infinity from rfl, if_pos hinf, Jacobian.addAffine,
      if_pos hinf, affineToJacobian_liftAffine]
  · rw [show (liftJacobian J).infinity = J.infinity from rfl, if_neg hinf, Jacobian.addAffine,
      if_neg hinf]
    simp only [jacobianDouble_lift]
    simp only [liftJacobian, liftAffine, isZero_ofField, fieldMultiply_ofField, fieldAdd_ofField,
      fieldSubtract_ofField, word_two, word_four, decide_eq_true_eq]
    by_cases hh : x * (J.z * J.z) - J.x = 0
    · rw [if_pos hh, if_pos hh, jacobianInfinity_eq]
      split <;> rfl
    · rw [if_neg hh, if_neg hh]
      exact checked_eq _ _ _

/-- A triple that represents a point is read off as the bytes of that point. -/
theorem jacobianToAffine_lift {J : Jacobian Coordinate} {P : Point} (h : J.Represents P) :
    jacobianToAffine (liftJacobian J) = .ok (encodePoint P) := by
  unfold jacobianToAffine
  rw [show (liftJacobian J).infinity = J.infinity from rfl]
  cases hinf : J.infinity with
  | true =>
      rw [h.eq_zero hinf]
      rfl
  | false =>
      obtain ⟨hz, hP⟩ := h.isAt hinf
      simp only [Bool.false_eq_true, if_false, liftJacobian, fieldInverse_ofField,
        fieldMultiply_ofField, makePoint, toBeBytesFixed_ofField]
      rw [encodePoint_of_isAt hP, div_eq_mul_inv, div_eq_mul_inv, mul_inv, mul_inv, mul_inv]

/-! ## Affine points and the group -/

/-- Encoded coordinates are read as the representation they were written from. -/
lemma loadAffine_coordinates (x y : Coordinate) :
    loadAffine ⟨coordinateBytes x, coordinateBytes y, false⟩ = .ok (liftAffine x y) := by
  have hx := coordinateFromBe_of_some (coordinateOf_coordinateBytes x)
  have hy := coordinateFromBe_of_some (coordinateOf_coordinateBytes y)
  rw [loadAffine, if_neg Bool.false_ne_true, hx, ok_bind, hy, ok_bind]
  rfl

lemma loadAffine_infinity {point : P256Point} (h : point.infinity = true) :
    loadAffine point = .ok ⟨zero, zero, true⟩ := by
  rw [loadAffine, if_pos h]

/-- A coordinate out of range is an error, whatever is wrong with it. -/
lemma loadAffine_of_none {point : P256Point} (hfinite : point.infinity = false)
    (h : coordinateOf point.x = none ∨ coordinateOf point.y = none) :
    ∃ e, loadAffine point = .error e := by
  rw [loadAffine, hfinite, if_neg Bool.false_ne_true]
  cases hx : coordinateOf point.x with
  | none =>
      obtain ⟨e, he⟩ := coordinateFromBe_of_none hx
      exact ⟨e, by rw [he, error_bind]⟩
  | some x =>
      obtain ⟨e, he⟩ := coordinateFromBe_of_none (h.resolve_left (by simp [hx]))
      exact ⟨e, by rw [coordinateFromBe_of_some hx, ok_bind, he, error_bind]⟩

lemma requireAffineOnCurve_of_isAt {P : Point} {x y : Coordinate} (h : IsAt P x y) :
    requireAffineOnCurve ⟨coordinateBytes x, coordinateBytes y, false⟩ =
      .ok (liftAffine x y) := by
  rw [requireAffineOnCurve, loadAffine_coordinates, ok_bind, isOnCurveAffine_liftAffine,
    decide_eq_true h.onCurve]
  rfl

/-- A finite pair that stands for no point is an error, be it out of range or off the curve. -/
lemma requireAffineOnCurve_of_none {point : P256Point} (hfinite : point.infinity = false)
    (h : decodePoint point = none) : ∃ e, requireAffineOnCurve point = .error e := by
  rcases coordinates_cases hfinite with hnone | ⟨x, y, rfl⟩
  · obtain ⟨e, he⟩ := loadAffine_of_none hfinite hnone
    exact ⟨e, by rw [requireAffineOnCurve, he, error_bind]⟩
  · have hcurve : ¬OnCurve a b x y := by
      intro hcurve
      simp [decodePoint, coordinateOf_coordinateBytes, hcurve] at h
    rw [requireAffineOnCurve, loadAffine_coordinates, ok_bind, isOnCurveAffine_liftAffine,
      decide_eq_false hcurve]
    exact ⟨_, rfl⟩

lemma requireAffineOnCurve_infinity {point : P256Point} (h : point.infinity = true) :
    requireAffineOnCurve point =
      .error (fixedError .invalidKey "P-256 point is not on the curve") := by
  rw [requireAffineOnCurve, loadAffine_infinity h]
  rfl

/-- Writing the representation of a point gives the encoding of that point. -/
lemma makePoint_of_isAt {P : Point} {x y : Coordinate} (h : IsAt P x y) :
    makePoint (ofField x) (ofField y) = .ok (encodePoint P) := by
  rw [makePoint, toBeBytesFixed_ofField, toBeBytesFixed_ofField, encodePoint_of_isAt h]

/-- Doubling along the tangent is doubling in the group, with infinity where the tangent is
vertical. -/
lemma pointDoubleAffine_of_isAt {P : Point} {x y : Coordinate} (h : IsAt P x y) :
    pointDoubleAffine (liftAffine x y) = .ok (encodePoint (P + P)) := by
  unfold pointDoubleAffine
  simp only [liftAffine, isZero_ofField, Bool.false_or, decide_eq_true_eq]
  by_cases hy : y = 0
  · have hsum : P + P = 0 := h.add_eq_zero h (by simp [hy])
    rw [if_pos hy, hsum]
    rfl
  · rw [if_neg hy]
    simp only [fieldMultiply_ofField, fieldAdd_ofField, fieldSubtract_ofField,
      fieldInverse_ofField, aValue_eq, word_two, word_three]
    have hsum := h.add_self two_ne_zero hy
    rw [chordY, chordX, tangent, div_eq_mul_inv, sub_sub _ x x, ← two_mul] at hsum
    exact makePoint_of_isAt hsum

/-! ## What the public functions compute -/

/-- Exactly the encodings of finite points are accepted, and they are returned as they came. -/
theorem pointFromCoordinates_toOption (x y : ByteBuffer) :
    (pointFromCoordinates x y).toOption = (decodePoint ⟨x, y, false⟩).map encodePoint := by
  rw [pointFromCoordinates]
  cases h : decodePoint ⟨x, y, false⟩ with
  | none =>
      obtain ⟨e, he⟩ := requireAffineOnCurve_of_none rfl h
      rw [he, error_bind]
      rfl
  | some P =>
      obtain ⟨v, w, hP, hpoint⟩ := exists_isAt_of_decodePoint h rfl
      rw [hpoint, requireAffineOnCurve_of_isAt hP, ok_bind, Option.map_some,
        encodePoint_of_isAt hP]
      rfl

/-- The answer about any pair, in the form in which the reference backend gives it. -/
theorem isOnCurve_toOption (point : P256Point) :
    (isOnCurve point).toOption =
      if point.infinity then some false
      else do
        let x ← coordinateOf point.x
        let y ← coordinateOf point.y
        return decide (OnCurve a b x y) := by
  rw [isOnCurve]
  cases hinf : point.infinity with
  | true =>
      rw [loadAffine_infinity hinf]
      rfl
  | false =>
      rw [if_neg Bool.false_ne_true]
      rcases coordinates_cases hinf with hnone | ⟨x, y, rfl⟩
      · obtain ⟨e, he⟩ := loadAffine_of_none hinf hnone
        rw [he, error_bind]
        exact (bind_coordinates_of_none hnone _).symm
      · rw [loadAffine_coordinates, ok_bind, isOnCurveAffine_liftAffine,
          coordinateOf_coordinateBytes, coordinateOf_coordinateBytes]
        rfl

lemma pointAdd_of_isAt {P Q : Point} {x y x' y' : Coordinate} (hP : IsAt P x y)
    (hQ : IsAt Q x' y') :
    pointAdd ⟨coordinateBytes x, coordinateBytes y, false⟩
      ⟨coordinateBytes x', coordinateBytes y', false⟩ = .ok (encodePoint (P + Q)) := by
  rw [pointAdd, if_neg Bool.false_ne_true, if_neg Bool.false_ne_true,
    requireAffineOnCurve_of_isAt hP, requireAffineOnCurve_of_isAt hQ, ok_bind, ok_bind]
  rw [show (liftAffine x y).x = ofField x from rfl, show (liftAffine x y).y = ofField y from rfl,
    show (liftAffine x' y').x = ofField x' from rfl,
    show (liftAffine x' y').y = ofField y' from rfl]
  simp only [beq_iff_eq, compare_ofField, fieldMultiply_ofField, fieldAdd_ofField,
    fieldSubtract_ofField, fieldInverse_ofField, isZero_ofField, decide_eq_true_eq]
  by_cases hx : x = x'
  · subst hx
    rw [if_pos rfl]
    by_cases hy : y + y' = 0
    · rw [if_pos hy, hP.add_eq_zero hQ hy]
      rfl
    · have hyy := hP.eq_of_add_ne_zero hQ hy
      subst hyy
      rw [if_neg hy, ← hP.unique hQ]
      exact pointDoubleAffine_of_isAt hP
  · rw [if_neg hx]
    have hsum := hP.add_of_ne hQ hx
    rw [chordY, chordX, div_eq_mul_inv] at hsum
    exact makePoint_of_isAt hsum

/-- Addition fails on a finite pair that stands for no point. -/
lemma pointAdd_of_none {lhs rhs : P256Point} (hl : lhs.infinity = false)
    (hr : rhs.infinity = false) (h : decodePoint lhs = none ∨ decodePoint rhs = none) :
    ∃ e, pointAdd lhs rhs = .error e := by
  rw [pointAdd, hl, hr, if_neg Bool.false_ne_true, if_neg Bool.false_ne_true]
  rcases point_cases lhs with ⟨hinf, -⟩ | ⟨-, hP⟩ | ⟨P, x, y, hPat, hlhs, hP⟩
  · exact absurd (hl.symm.trans hinf) Bool.false_ne_true
  · obtain ⟨e, he⟩ := requireAffineOnCurve_of_none hl hP
    exact ⟨e, by rw [he, error_bind]⟩
  · obtain ⟨e, he⟩ := requireAffineOnCurve_of_none hr (h.resolve_left (by simp [hP]))
    exact ⟨e, by rw [hlhs, requireAffineOnCurve_of_isAt hPat, ok_bind, he, error_bind]⟩

/-- Addition succeeds exactly when both arguments stand for points, and returns the encoded sum. -/
theorem pointAdd_toOption (lhs rhs : P256Point) :
    (pointAdd lhs rhs).toOption = do
      let P ← decodePoint lhs
      let Q ← decodePoint rhs
      return encodePoint (P + Q) := by
  refine add_toOption pointFromCoordinates_toOption (fun hl hr => ?_) (fun hl hr => ?_)
    (fun hl hr => ?_) pointAdd_of_none pointAdd_of_isAt lhs rhs
  all_goals
    rw [pointAdd, hl, hr]
    rfl

/-- The sum of two encoded points is the encoded sum. The table of the base point is built with
this. -/
lemma pointAdd_encodePoint (P Q : Point) :
    pointAdd (encodePoint P) (encodePoint Q) = .ok (encodePoint (P + Q)) := by
  have h := pointAdd_toOption (encodePoint P) (encodePoint Q)
  rw [decodePoint_encodePoint, decodePoint_encodePoint] at h
  exact toOption_eq_some.mp h

/-! ### The branch-free multiplication -/

/-- The masks of the ladders have all bits equal, and then the selection is a conditional. -/
lemma selectU256_maskOfBit (bit : Bool) (x y : U256) :
    selectU256 (maskOfBit bit) x y = if bit then x else y := by
  apply U256.ext_toNat
  have h := Limbs.value_select bit x.limbs y.limbs x.length_limbs.le y.length_limbs.le
  rw [← wordMaskFromByte_maskOfBit] at h
  cases bit with
  | true => exact h
  | false => exact h

lemma selectJacobian_maskOfBit (bit : Bool) (ifSet ifClear : JacobianPoint) :
    selectJacobian (maskOfBit bit) ifSet ifClear = if bit then ifSet else ifClear := by
  have hflag : ∀ i j : Bool, (constantTimeSelect (maskOfBit bit) (constantTimeBoolMask i)
      (constantTimeBoolMask j) != 0) = if bit then i else j := by
    revert bit
    decide
  unfold selectJacobian
  simp only [selectU256_maskOfBit, hflag]
  cases bit <;> rfl

/-- The state of a ladder stands for a multiple of the point: the invariant of both multiplications.
-/
def HoldsMultiple (P : Point) (point : JacobianPoint) (k : ℕ) : Prop :=
  ∃ J : Jacobian Coordinate, point = liftJacobian J ∧ J.Represents (k • P)

lemma holdsMultiple_zero (P : Point) : HoldsMultiple P (liftJacobian Jacobian.identity) 0 :=
  ⟨Jacobian.identity, rfl, by simpa using Jacobian.represents_identity⟩

/-- At the end of a ladder the multiple is read off. -/
lemma jacobianToAffine_holds {P : Point} {point : JacobianPoint} {k : ℕ}
    (h : HoldsMultiple P point k) : jacobianToAffine point = .ok (encodePoint (k • P)) := by
  obtain ⟨J, rfl, hJ⟩ := h
  exact jacobianToAffine_lift hJ

/-- One round doubles the multiplier and adds a bit; the sum that the mask drops is a point as well,
so that its computation cannot fail. -/
lemma branchFreeRound_holds {P : Point} {x y : Coordinate} (hP : IsAt P x y) (byte : UInt8)
    {i : ℕ} (hi : i < 8) {point : JacobianPoint} {k : ℕ} (h : HoldsMultiple P point k) :
    Loops.Refines (HoldsMultiple P) (branchFreeRound (liftAffine x y) byte i point)
      (2 * k + (byte.toNat.testBit i).toNat) := by
  obtain ⟨J, rfl, hJ⟩ := h
  refine ⟨_, ?_, J.step a x y (byte.toNat.testBit i), rfl, hJ.step two_ne_zero hP _⟩
  rw [branchFreeRound, jacobianDouble_lift, ok_bind, jacobianAddAffine_lift, ok_bind]
  dsimp only
  rw [maskOfBit_byte byte hi, selectJacobian_maskOfBit, Jacobian.step]
  split <;> rfl

/-- The bit-serial ladder on a checked point, for scalars of any length. -/
theorem scalarMultiply_of_isAt (scalar : List UInt8) {P : Point} {x y : Coordinate}
    (hP : IsAt P x y) :
    scalarMultiply scalar ⟨coordinateBytes x, coordinateBytes y, false⟩ =
      .ok (encodePoint (beValue scalar • P)) := by
  have hloop := Loops.foldlM_bytes
    (fun result byte => Loops.loopDownM (branchFreeRound (liftAffine x y) byte) 8 result)
    (HoldsMultiple P)
    (fun s byte v hs => Loops.loopDownM_byte _ _ byte
      (fun i hi s u hs => branchFreeRound_holds hP byte hi hs) hs)
    scalar (holdsMultiple_zero P)
  obtain ⟨result, hresult, hholds⟩ := hloop
  rw [scalarMultiply, scalarMultiplyBranchFree, if_neg Bool.false_ne_true,
    requireAffineOnCurve_of_isAt hP, ok_bind, jacobianInfinity_eq, ok_bind, hresult, ok_bind,
    jacobianToAffine_holds hholds]

/-- Multiplication succeeds exactly on what stands for a point, and is the action of the number. -/
theorem scalarMultiply_toOption (scalar : List UInt8) (point : P256Point) :
    (scalarMultiply scalar point).toOption =
      (decodePoint point).map fun P => encodePoint (beValue scalar • P) := by
  rcases point_cases point with ⟨hinf, hP⟩ | ⟨hinf, hP⟩ | ⟨P, x, y, hat, rfl, hP⟩
  · rw [scalarMultiply, scalarMultiplyBranchFree, hinf, if_pos rfl, hP, Option.map_some,
      nsmul_zero]
    rfl
  · obtain ⟨e, he⟩ := requireAffineOnCurve_of_none hinf hP
    rw [scalarMultiply, scalarMultiplyBranchFree, hinf, if_neg Bool.false_ne_true, he,
      error_bind, hP]
    rfl
  · rw [scalarMultiply_of_isAt scalar hat, hP]
    rfl

/-! ### The windowed multiplication -/

/-- The loop never meets an error, and its entries are consecutive multiples. -/
lemma fillWindowTable_eq (entries i : ℕ) :
    fillWindowTable (encodePoint G) entries (encodePoint (i • G)) =
      (List.range' (i + 1) entries).map fun j => encodePoint (j • G) := by
  induction entries generalizing i with
  | zero => rfl
  | succ entries ih =>
      rw [fillWindowTable, pointAdd_encodePoint, ← succ_nsmul]
      simp only [List.range'_succ, List.map_cons, ih (i + 1)]

/-- Entry `i` of the table is the `i`-th multiple of the base point, infinity at index zero
included. -/
lemma basePointWindowTable_eq :
    basePointWindowTable = (List.range 16).map fun i => encodePoint (i • G) := by
  have hbase : makePoint gxValue gyValue = .ok (encodePoint G) := by
    rw [gxValue_eq, gyValue_eq, makePoint_of_isAt isAt_G]
  have hfill := fillWindowTable_eq 14 1
  have hrange : List.range 16 = 0 :: 1 :: List.range' (1 + 1) 14 := rfl
  rw [one_nsmul] at hfill
  rw [basePointWindowTable, hbase, hrange, List.map_cons, List.map_cons, zero_nsmul, one_nsmul,
    encodePoint_zero, ← hfill]

/-- The selection that holds one entry, byte by byte, and its flag as a mask. -/
def WindowSelection.of (entry : P256Point) : WindowSelection where
  x := (List.range 32).map (pointCoordinateByte entry true)
  y := (List.range 32).map (pointCoordinateByte entry false)
  infinity := constantTimeBoolMask entry.infinity

/-- Reading a list of known length index by index gives the list back. -/
lemma map_getD_range {xs : List UInt8} {k : ℕ} (h : xs.length = k) :
    (List.range k).map (xs.getD · 0) = xs := by
  apply List.ext_getElem
  · simp [h]
  · intro i h₁ h₂
    simp [h₂]

/-- One round of the scan replaces the selection if the index is the nibble, and keeps it otherwise.
-/
lemma selectWindowRound_eq (nibble : UInt8) {selection : WindowSelection}
    (hx : selection.x.length = 32) (hy : selection.y.length = 32) (entry : P256Point) (i : ℕ) :
    selectWindowRound nibble selection (entry, i) =
      if nibble = UInt8.ofNat i then .of entry else selection := by
  have hmask : constantTimeIsZero (nibble ^^^ UInt8.ofNat i) =
      if nibble = UInt8.ofNat i then 0xFF else 0 := by
    simp
  unfold selectWindowRound
  rw [hmask]
  split
  · simp only [constantTimeSelect_set]
    rfl
  · simp only [constantTimeSelect_clear, map_getD_range hx, map_getD_range hy]

@[simp] lemma WindowSelection.length_of_x (entry : P256Point) :
    (WindowSelection.of entry).x.length = 32 := by
  simp [WindowSelection.of]

@[simp] lemma WindowSelection.length_of_y (entry : P256Point) :
    (WindowSelection.of entry).y.length = 32 := by
  simp [WindowSelection.of]

/-- After `k` rounds: the entry at the index of the nibble, if it has been passed. -/
lemma selectWindow_rounds (nibble : UInt8) (entry : ℕ → P256Point) {start : WindowSelection}
    (hx : start.x.length = 32) (hy : start.y.length = 32) {k : ℕ} (hk : k ≤ 16) :
    ((List.range k).map fun i => (entry i, i)).foldl (selectWindowRound nibble) start =
      if nibble.toNat < k then .of (entry nibble.toNat) else start := by
  induction k with
  | zero => simp
  | succ k ih =>
      have hindex : nibble = UInt8.ofNat k ↔ nibble.toNat = k := by
        rw [← UInt8.toNat_inj, UInt8.toNat_ofNat_of_lt' (by simp [UInt8.size]; omega)]
      rw [List.range_succ, List.map_append, List.foldl_append, ih (by omega), List.map_singleton,
        List.foldl_cons, List.foldl_nil]
      by_cases hlt : nibble.toNat < k
      · rw [if_pos hlt, if_pos (by omega), selectWindowRound_eq _ (by simp) (by simp),
          if_neg (by rw [hindex]; omega)]
      · rw [if_neg hlt, selectWindowRound_eq _ hx hy]
        by_cases heq : nibble.toNat = k
        · rw [if_pos (hindex.mpr heq), if_pos (by omega), heq]
        · rw [if_neg (by rw [hindex]; exact heq), if_neg (by omega)]

/-- A selected entry is the point that was encoded in it, where zero bytes with the flag mean
infinity. -/
lemma selection_of_encodePoint (P : Point) :
    (if (WindowSelection.of (encodePoint P)).infinity != 0 then .ok p256PointAtInfinity
      else .ok ⟨(WindowSelection.of (encodePoint P)).x,
        (WindowSelection.of (encodePoint P)).y, false⟩ : Result P256Point) =
      .ok (encodePoint P) := by
  cases P with
  | zero => rfl
  | some x y hns =>
      have hbyte : ∀ i, pointCoordinateByte (encodePoint (.some x y hns)) true i =
          (coordinateBytes x).getD i 0 := fun _ => rfl
      have hbyte' : ∀ i, pointCoordinateByte (encodePoint (.some x y hns)) false i =
          (coordinateBytes y).getD i 0 := fun _ => rfl
      have hx : (List.range 32).map (pointCoordinateByte (encodePoint (.some x y hns)) true) =
          coordinateBytes x := by
        rw [funext hbyte]
        exact map_getD_range (length_coordinateBytes x)
      have hy : (List.range 32).map (pointCoordinateByte (encodePoint (.some x y hns)) false) =
          coordinateBytes y := by
        rw [funext hbyte']
        exact map_getD_range (length_coordinateBytes y)
      have hflag : constantTimeBoolMask (encodePoint (.some x y hns)).infinity = 0 :=
        constantTimeBoolMask_eq false
      rw [WindowSelection.of, hx, hy, hflag]
      simp only [bne_self_eq_false, Bool.false_eq_true, if_false]
      rfl

/-- The scan returns the multiple that the low four bits of its argument name. -/
theorem basePointSelectWindow_eq (nibble : UInt8) :
    basePointSelectWindow nibble = .ok (encodePoint ((nibble &&& 0x0F).toNat • G)) := by
  have hlt : (nibble &&& 0x0F).toNat < 16 := by
    rw [UInt8.toNat_and]
    exact Nat.lt_succ_of_le Nat.and_le_right
  have hzip : basePointWindowTable.zipIdx =
      (List.range 16).map fun i => (encodePoint (i • G), i) := by
    rw [basePointWindowTable_eq]
    rfl
  unfold basePointSelectWindow
  dsimp only
  rw [hzip, selectWindow_rounds _ (fun i => encodePoint (i • G)) (by simp) (by simp) le_rfl,
    if_pos hlt]
  exact selection_of_encodePoint _

/-- One window multiplies the multiplier by sixteen and adds the nibble. -/
lemma windowRound_holds {point : JacobianPoint} {k : ℕ} (h : HoldsMultiple G point k)
    (nibble : UInt8) : Loops.Refines (HoldsMultiple G) (windowRound point nibble)
      (16 * k + (nibble &&& 0x0F).toNat) := by
  obtain ⟨doubled, hdoubled, J, rfl, hJ⟩ := Loops.loopUpM_invariant (n := 4) (s := point)
    (fun _ => jacobianDouble) (fun i s => HoldsMultiple G s (2 ^ i * k)) (by simpa using h)
    (by
      rintro i - s ⟨J, rfl, hJ⟩
      refine ⟨_, jacobianDouble_lift J, _, rfl, ?_⟩
      have hdouble := hJ.double two_ne_zero
      rwa [← add_nsmul, ← two_mul, ← mul_assoc, ← pow_succ'] at hdouble)
  set Q := (nibble &&& 0x0F).toNat • G with hQ
  have hsum : (16 * k + (nibble &&& 0x0F).toNat) • G = (2 ^ 4 * k) • G + Q := by
    rw [add_nsmul, hQ]
    norm_num
  rw [windowRound, hdoubled, ok_bind, basePointSelectWindow_eq, ok_bind, ← hQ]
  by_cases hzero : Q = 0
  · rw [hzero, encodePoint_zero, loadAffine_infinity rfl, ok_bind]
    exact ⟨_, rfl, J, rfl, by rwa [hsum, hzero, add_zero]⟩
  · obtain ⟨x, y, hat⟩ := exists_isAt_of_ne_zero hzero
    rw [encodePoint_of_isAt hat, loadAffine_coordinates, ok_bind, jacobianAddAffine_lift]
    exact ⟨_, rfl, _, rfl, hsum ▸ hJ.addAffine two_ne_zero hat⟩

/-- The two nibbles of a byte make up the byte. -/
lemma nibbles_value (byte : UInt8) :
    16 * (((byte >>> 4) &&& 0x0F) &&& 0x0F).toNat + ((byte &&& 0x0F) &&& 0x0F).toNat =
      byte.toNat := by
  obtain ⟨bits⟩ := byte
  revert bits
  decide +kernel

/-- The windowed multiplication is the action of the number on the base point, and never fails. -/
theorem basePointMultiply_eq (scalar : List UInt8) :
    basePointMultiply scalar = .ok (encodePoint (beValue scalar • G)) := by
  have hloop := Loops.foldlM_bytes
    (fun result byte => (nibbles byte).foldlM windowRound result) (HoldsMultiple G)
    (fun s byte v hs => by
      rw [nibbles, List.foldlM_cons, ← nibbles_value byte]
      refine (windowRound_holds hs _).bind fun s' hs' => ?_
      rw [List.foldlM_cons]
      refine (windowRound_holds hs' _).bind fun s'' hs'' => ?_
      rw [List.foldlM_nil]
      refine Loops.Refines.ok ?_
      convert hs'' using 1
      ring)
    scalar (holdsMultiple_zero G)
  obtain ⟨result, hresult, hholds⟩ := hloop
  rw [basePointMultiply, basePointMultiplyWindowed, jacobianInfinity_eq, ok_bind, hresult,
    ok_bind, jacobianToAffine_holds hholds]

/-! ### Scalars -/

section Scalars

variable {scalar lhs rhs : List UInt8}

lemma toNat_ofNat_mod (k : ℕ) : (U256.ofNat (k % n)).toNat = k % n :=
  U256.toNat_ofNat ((Nat.mod_lt _ prime_n.pos).trans n_lt)

/-- The inverse as a power, for scalars that fit in 256 bits; the reference backend has no such
bound. -/
theorem scalarInverse_eq (h : beValue scalar < 2 ^ 256) :
    scalarInverse scalar =
      if beValue scalar % n = 0 then
        .error (fixedError .invalidArgument "scalar has no inverse")
      else .ok (minBeBytes ((beValue scalar % n) ^ (n - 2) % n)) := by
  have hexp : nMinusTwoValue.toNat = n - 2 := by decide +kernel
  rw [scalarInverse, scalarFromBeReduced_eq, if_pos h, ok_bind]
  by_cases hzero : beValue scalar % n = 0
  · have hflag : isZero (U256.ofNat (beValue scalar % n)) = true := by
      rw [isZero_iff, toNat_ofNat_mod, hzero]
    rw [hflag, if_pos hzero]
    rfl
  · have hflag : isZero (U256.ofNat (beValue scalar % n)) = false := by
      rw [← Bool.not_eq_true, isZero_iff, toNat_ofNat_mod]
      exact hzero
    rw [hflag, if_neg hzero, Bool.not_false, require_true, ok_bind, toBeBytesMinimal_eq,
      toNat_modExp _ _ nValue_ne_zero, toNat_ofNat_mod, hexp, toNat_nValue]
    rfl

theorem scalarMultiplyMod_eq (hl : beValue lhs < 2 ^ 256) (hr : beValue rhs < 2 ^ 256) :
    scalarMultiplyMod lhs rhs = .ok (minBeBytes (beValue lhs * beValue rhs % n)) := by
  rw [scalarMultiplyMod, scalarFromBeReduced_eq, scalarFromBeReduced_eq, if_pos hl, if_pos hr,
    ok_bind, ok_bind, toBeBytesMinimal_eq, toNat_modMultiply _ _ nValue_ne_zero, toNat_ofNat_mod,
    toNat_ofNat_mod, toNat_nValue, ← Nat.mul_mod]
  rfl

theorem scalarAddMod_eq (hl : beValue lhs < 2 ^ 256) (hr : beValue rhs < 2 ^ 256) :
    scalarAddMod lhs rhs = .ok (minBeBytes ((beValue lhs + beValue rhs) % n)) := by
  rw [scalarAddMod, scalarFromBeReduced_eq, scalarFromBeReduced_eq, if_pos hl, if_pos hr,
    ok_bind, ok_bind, toBeBytesMinimal_eq, toNat_modAdd _ _ nValue_ne_zero, toNat_ofNat_mod,
    toNat_ofNat_mod, toNat_nValue, ← Nat.add_mod]
  rfl

theorem scalarReduceFixed32_eq (h : beValue scalar < 2 ^ 256) :
    scalarReduceFixed32 scalar = .ok (beBytes 32 (beValue scalar % n)) := by
  rw [scalarReduceFixed32, scalarFromBeReduced_eq, if_pos h, ok_bind, toBeBytesFixed,
    Limbs.storeBytes_eq_beBytes, U256.length_limbs]
  exact congrArg (fun k => Except.ok (beBytes 32 k)) (toNat_ofNat_mod _)

/-- The check of a scalar is exact for byte strings of any length, leading zeros included. -/
theorem scalarIsValidNonzero_eq (scalar : List UInt8) :
    scalarIsValidNonzero scalar = .ok (decide (0 < beValue scalar ∧ beValue scalar < n)) := by
  have hvalue := beValue_dropWhile_zero scalar
  have hbound := n_lt
  have hwidth : (scalar.dropWhile (· == 0)).length ≤ 32 ↔ beValue scalar < 2 ^ 256 :=
    length_dropWhile_zero_le_iff scalar 32
  unfold scalarIsValidNonzero
  dsimp only
  by_cases hlt : beValue scalar < 2 ^ 256
  · have hlength := hwidth.mpr hlt
    rw [if_neg (by omega), u256FromBe_eq, hvalue, if_pos hlt, ok_bind]
    refine congrArg Except.ok ?_
    rw [Bool.eq_iff_iff, Bool.and_eq_true, Bool.not_eq_true', ← Bool.not_eq_true, isZero_iff,
      decide_eq_true_iff, decide_eq_true_iff, compare_neg_iff, U256.toNat_ofNat hlt,
      toNat_nValue, Nat.pos_iff_ne_zero]
  · rw [if_pos (by rw [gt_iff_lt, ← not_le, hwidth]; exact hlt), decide_eq_false (by omega)]

end Scalars

/-- The first coordinate of a finite point, modulo the order, in the shortest bytes. -/
theorem xModOrder_encodePoint {P : Point} {r : ℕ} (h : xModN P = some r) :
    xModOrder (encodePoint P) = .ok (minBeBytes r) := by
  cases P with
  | zero => cases h
  | some x y hns =>
      have hat : IsAt (.some x y hns : Point) x y := ⟨hns, rfl⟩
      cases h
      rw [encodePoint_of_isAt hat, xModOrder, requireAffineOnCurve_of_isAt hat, ok_bind,
        toBeBytesMinimal_eq, scalarReduce, toNat_reduce256 _ nValue_ne_zero, toNat_nValue]
      exact congrArg (fun k => Except.ok (minBeBytes (k % n))) (toNat_ofField x)

/-- It exists exactly for the encodings of finite points, and is then the first coordinate modulo
the order. -/
theorem xModOrder_toOption (point : P256Point) :
    (xModOrder point).toOption = ((decodePoint point).bind xModN).map minBeBytes := by
  rcases point_cases point with ⟨hinf, hP⟩ | ⟨hinf, hP⟩ | ⟨P, x, y, hat, rfl, hP⟩
  · rw [xModOrder, requireAffineOnCurve_infinity hinf, error_bind, hP]
    rfl
  · obtain ⟨e, he⟩ := requireAffineOnCurve_of_none hinf hP
    rw [xModOrder, he, error_bind, hP]
    rfl
  · obtain ⟨hns, rfl⟩ := hat
    rw [hP, ← encodePoint_of_isAt ⟨hns, rfl⟩, xModOrder_encodePoint rfl]
    rfl

end P256Fixed

end CryptoCore
