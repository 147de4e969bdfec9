import CryptoCore.Construction.BigInt
import CryptoCore.Construction.P256Curve

/-!
# The reference backend of P-256

The curve arithmetic of `p256.cpp` on `BigInt`, where every field operation reads its modulus from a
byte constant and may fail. Points travel as `P256Point`, two byte strings and a flag; inside a
computation they are pairs (`AffinePoint`) or triples (`JacobianPoint`) of big integers. A
double-and-add ladder in Jacobian coordinates that branches on the bits of the scalar multiplies
points.

The proofs never unfold a formula twice. `ofField` is the `BigInt` of a field element, and on such
integers no field operation fails: the simp lemmas `fieldAdd_ofField`, `fieldMultiply_ofField` and
their siblings turn a formula of the source into the formula of `Framework/ShortWeierstrass.lean`
over the field of `Construction/P256Curve.lean`. `liftAffine` and `liftJacobian` carry this to
points, and `jacobianDouble_lift`, `jacobianAddAffine_lift` and `jacobianToAffine_lift` are the
three facts about Jacobian coordinates that the ladder needs.

The public functions are then described by their answers alone: `pointAdd_toOption`,
`scalarMultiply_toOption`, `xModOrder_toOption` and the others say which group element comes back
and that everything that is no encoding of a point fails. `Properties/P256.lean` compares these
statements with those of the fixed-limb backend in `Construction/P256Fixed.lean`.
-/

namespace CryptoCore

open ByteStrings ShortWeierstrass

namespace P256

/-- The error of this backend: its own domain, with the code and the text of the check that refused.
-/
def p256Error (code : ErrorCode) (message : String) : Error :=
  makeError code "p256" message

/-! ## Constants -/

/-- The prime of the field, as big-endian bytes. The constants of the source are byte strings, and
each use converts one of them again. -/
def pBytes : List UInt8 :=
  [0xFF, 0xFF, 0xFF, 0xFF, 0x00, 0x00, 0x00, 0x01,
    0x00, 0x00, 0x00, 0x00, 0x00, 0x00, 0x00, 0x00,
    0x00, 0x00, 0x00, 0x00, 0xFF, 0xFF, 0xFF, 0xFF,
    0xFF, 0xFF, 0xFF, 0xFF, 0xFF, 0xFF, 0xFF, 0xFF]

def aBytes : List UInt8 :=
  [0xFF, 0xFF, 0xFF, 0xFF, 0x00, 0x00, 0x00, 0x01,
    0x00, 0x00, 0x00, 0x00, 0x00, 0x00, 0x00, 0x00,
    0x00, 0x00, 0x00, 0x00, 0xFF, 0xFF, 0xFF, 0xFF,
    0xFF, 0xFF, 0xFF, 0xFF, 0xFF, 0xFF, 0xFF, 0xFC]

def bBytes : List UInt8 :=
  [0x5A, 0xC6, 0x35, 0xD8, 0xAA, 0x3A, 0x93, 0xE7,
    0xB3, 0xEB, 0xBD, 0x55, 0x76, 0x98, 0x86, 0xBC,
    0x65, 0x1D, 0x06, 0xB0, 0xCC, 0x53, 0xB0, 0xF6,
    0x3B, 0xCE, 0x3C, 0x3E, 0x27, 0xD2, 0x60, 0x4B]

/-- The coordinates of the base point; `basePoint` checks them against the curve like any other
pair. -/
def gxBytes : List UInt8 :=
  [0x6B, 0x17, 0xD1, 0xF2, 0xE1, 0x2C, 0x42, 0x47,
    0xF8, 0xBC, 0xE6, 0xE5, 0x63, 0xA4, 0x40, 0xF2,
    0x77, 0x03, 0x7D, 0x81, 0x2D, 0xEB, 0x33, 0xA0,
    0xF4, 0xA1, 0x39, 0x45, 0xD8, 0x98, 0xC2, 0x96]

def gyBytes : List UInt8 :=
  [0x4F, 0xE3, 0x42, 0xE2, 0xFE, 0x1A, 0x7F, 0x9B,
    0x8E, 0xE7, 0xEB, 0x4A, 0x7C, 0x0F, 0x9E, 0x16,
    0x2B, 0xCE, 0x33, 0x57, 0x6B, 0x31, 0x5E, 0xCE,
    0xCB, 0xB6, 0x40, 0x68, 0x37, 0xBF, 0x51, 0xF5]

/-- The order of the base point, which is the modulus of the scalars. -/
def nBytes : List UInt8 :=
  [0xFF, 0xFF, 0xFF, 0xFF, 0x00, 0x00, 0x00, 0x00,
    0xFF, 0xFF, 0xFF, 0xFF, 0xFF, 0xFF, 0xFF, 0xFF,
    0xBC, 0xE6, 0xFA, 0xAD, 0xA7, 0x17, 0x9E, 0x84,
    0xF3, 0xB9, 0xCA, 0xC2, 0xFC, 0x63, 0x25, 0x51]

/-- The exponent that inverts field elements, by the little theorem of Fermat; `nMinusTwoBytes` is
the same for scalars. -/
def pMinusTwoBytes : List UInt8 :=
  [0xFF, 0xFF, 0xFF, 0xFF, 0x00, 0x00, 0x00, 0x01,
    0x00, 0x00, 0x00, 0x00, 0x00, 0x00, 0x00, 0x00,
    0x00, 0x00, 0x00, 0x00, 0xFF, 0xFF, 0xFF, 0xFF,
    0xFF, 0xFF, 0xFF, 0xFF, 0xFF, 0xFF, 0xFF, 0xFD]

def nMinusTwoBytes : List UInt8 :=
  [0xFF, 0xFF, 0xFF, 0xFF, 0x00, 0x00, 0x00, 0x00,
    0xFF, 0xFF, 0xFF, 0xFF, 0xFF, 0xFF, 0xFF, 0xFF,
    0xBC, 0xE6, 0xFA, 0xAD, 0xA7, 0x17, 0x9E, 0x84,
    0xF3, 0xB9, 0xCA, 0xC2, 0xFC, 0x63, 0x25, 0x4F]

def zeroBigint : Result BigInt := BigInt.fromBeBytes [0x00]

def oneBigint : Result BigInt := BigInt.fromBeBytes [0x01]

def twoBigint : Result BigInt := BigInt.fromBeBytes [0x02]

def threeBigint : Result BigInt := BigInt.fromBeBytes [0x03]

def fourBigint : Result BigInt := BigInt.fromBeBytes [0x04]

def eightBigint : Result BigInt := BigInt.fromBeBytes [0x08]

def fieldModulus : Result BigInt := BigInt.fromBeBytes pBytes

def scalarModulus : Result BigInt := BigInt.fromBeBytes nBytes

def curveA : Result BigInt := BigInt.fromBeBytes aBytes

def curveB : Result BigInt := BigInt.fromBeBytes bBytes

def fieldInverseExponent : Result BigInt := BigInt.fromBeBytes pMinusTwoBytes

def scalarInverseExponent : Result BigInt := BigInt.fromBeBytes nMinusTwoBytes

/-! ## Field and scalar arithmetic -/

/-- The remainder of a number, computed as a modular sum with zero. -/
def reduceMod (value modulus : BigInt) : Result BigInt := do
  let zero ← zeroBigint
  BigInt.modAdd value zero modulus

def fieldAdd (lhs rhs : BigInt) : Result BigInt := do
  let modulus ← fieldModulus
  BigInt.modAdd lhs rhs modulus

def fieldSubtract (lhs rhs : BigInt) : Result BigInt := do
  let modulus ← fieldModulus
  BigInt.modSubtract lhs rhs modulus

def fieldMultiply (lhs rhs : BigInt) : Result BigInt := do
  let modulus ← fieldModulus
  BigInt.modMultiply lhs rhs modulus

/-- Inversion as exponentiation by `p - 2`. The inverse of zero is zero, and the formulas that call
it have excluded that case before. -/
def fieldInverse (value : BigInt) : Result BigInt := do
  let modulus ← fieldModulus
  let exponent ← fieldInverseExponent
  BigInt.modExp value exponent modulus

def scalarReduce (value : List UInt8) : Result BigInt := do
  let input ← BigInt.fromBeBytes value
  let modulus ← scalarModulus
  reduceMod input modulus

/-- The big-endian bytes of a field element, padded to the width of a coordinate. The check of the
width never fires on a reduced element (`fixed32Bytes_ofField`). -/
def fixed32Bytes (value : BigInt) : Result ByteBuffer :=
  let minimal := value.toBeBytes
  if minimal.length > 32 then .error (p256Error .internalError "field element is too large")
  else .ok (List.replicate (32 - minimal.length) 0 ++ minimal)

/-- A finite point from its coordinates. Nothing is checked here: the formulas that call it produce
points of the curve. -/
def makeAffinePoint (x y : BigInt) : Result P256Point := do
  let xBytes ← fixed32Bytes x
  let yBytes ← fixed32Bytes y
  return ⟨xBytes, yBytes, false⟩

/-! ## Affine points -/

structure AffinePoint where
  x : BigInt
  y : BigInt

structure JacobianPoint where
  x : BigInt
  y : BigInt
  z : BigInt
  infinity : Bool

/-- Reading a point into integers: it must be finite, both coordinates have the length of a field
element, and both are below the prime. The equation of the curve is checked by the callers. -/
def loadAffinePoint (point : P256Point) : Result AffinePoint := do
  require (!point.infinity) (p256Error .invalidArgument "point is at infinity")
  require (!(point.x.length != 32 || point.y.length != 32))
    (p256Error .invalidKey "invalid P-256 coordinate length")
  let modulus ← fieldModulus
  let x ← BigInt.fromBeBytes point.x
  let y ← BigInt.fromBeBytes point.y
  require (!(x.compare modulus ≥ 0 || y.compare modulus ≥ 0))
    (p256Error .invalidKey "P-256 coordinate exceeds field")
  return ⟨x, y⟩

/-- The equation of the curve, evaluated as the source does, with the cube computed before the
linear term is added. -/
def isOnCurveAffine (point : AffinePoint) : Result Bool := do
  let ySquared ← fieldMultiply point.y point.y
  let xSquared ← fieldMultiply point.x point.x
  let xCubed ← fieldMultiply xSquared point.x
  let a ← curveA
  let ax ← fieldMultiply a point.x
  let b ← curveB
  let rhsWithoutB ← fieldAdd xCubed ax
  let rhs ← fieldAdd rhsWithoutB b
  return ySquared.compare rhs == 0

def requireOnCurveAffine (point : AffinePoint) : Result Unit := do
  let onCurve ← isOnCurveAffine point
  require onCurve (p256Error .invalidKey "P-256 point is not on the curve")

/-- Doubling of an affine point along its tangent. A point with `y = 0` is its own inverse and
doubles to infinity, so the tangent is taken only where it exists. -/
def pointDouble (point : AffinePoint) : Result P256Point :=
  if point.y.isZero then .ok p256PointAtInfinity
  else do
    let three ← threeBigint
    let two ← twoBigint
    let xSquared ← fieldMultiply point.x point.x
    let threeXSquared ← fieldMultiply three xSquared
    let a ← curveA
    let numerator ← fieldAdd threeXSquared a
    let denominator ← fieldMultiply two point.y
    let denominatorInverse ← fieldInverse denominator
    let slope ← fieldMultiply numerator denominatorInverse
    let slopeSquared ← fieldMultiply slope slope
    let twoX ← fieldMultiply two point.x
    let x3 ← fieldSubtract slopeSquared twoX
    let xMinusX3 ← fieldSubtract point.x x3
    let slopeTimesDelta ← fieldMultiply slope xMinusX3
    let y3 ← fieldSubtract slopeTimesDelta point.y
    makeAffinePoint x3 y3

/-! ## Jacobian points -/

def jacobianInfinity : Result JacobianPoint := do
  let zero ← zeroBigint
  return ⟨zero, zero, zero, true⟩

def affineToJacobian (point : AffinePoint) : Result JacobianPoint := do
  let one ← oneBigint
  return ⟨point.x, point.y, one, false⟩

/-- Doubling in Jacobian coordinates. Infinity, `y = 0` and a vanishing new `z` all answer infinity.
-/
def jacobianDouble (point : JacobianPoint) : Result JacobianPoint :=
  if point.infinity || point.y.isZero then jacobianInfinity
  else do
    let two ← twoBigint
    let three ← threeBigint
    let eight ← eightBigint
    let xx ← fieldMultiply point.x point.x
    let yy ← fieldMultiply point.y point.y
    let yyyy ← fieldMultiply yy yy
    let zz ← fieldMultiply point.z point.z
    let xPlusYy ← fieldAdd point.x yy
    let xPlusYySquared ← fieldMultiply xPlusYy xPlusYy
    let sWithoutYyyy ← fieldSubtract xPlusYySquared xx
    let sHalf ← fieldSubtract sWithoutYyyy yyyy
    let s ← fieldMultiply two sHalf
    let zzSquared ← fieldMultiply zz zz
    -- The term of the curve's coefficient, which is multiplied out although it is `-3`.
    let a ← curveA
    let aZzSquared ← fieldMultiply a zzSquared
    let threeXx ← fieldMultiply three xx
    let m ← fieldAdd threeXx aZzSquared
    let mSquared ← fieldMultiply m m
    let twoS ← fieldMultiply two s
    let x3 ← fieldSubtract mSquared twoS
    let sMinusX3 ← fieldSubtract s x3
    let mTimesDelta ← fieldMultiply m sMinusX3
    let eightYyyy ← fieldMultiply eight yyyy
    let y3 ← fieldSubtract mTimesDelta eightYyyy
    let yPlusZ ← fieldAdd point.y point.z
    let yPlusZSquared ← fieldMultiply yPlusZ yPlusZ
    let zWithoutYy ← fieldSubtract yPlusZSquared yy
    let z3 ← fieldSubtract zWithoutYy zz
    if z3.isZero then jacobianInfinity else .ok ⟨x3, y3, z3, false⟩

/-- Addition of an affine point to a Jacobian one. Equal first coordinates mean either the same
point, which is doubled, or its inverse, which gives infinity; the chord is taken in the remaining
case. -/
def jacobianAddAffine (lhs : JacobianPoint) (rhs : AffinePoint) : Result JacobianPoint :=
  if lhs.infinity then affineToJacobian rhs
  else do
    let two ← twoBigint
    let four ← fourBigint
    let z1z1 ← fieldMultiply lhs.z lhs.z
    let u2 ← fieldMultiply rhs.x z1z1
    let z1TimesZ1z1 ← fieldMultiply lhs.z z1z1
    let s2 ← fieldMultiply rhs.y z1TimesZ1z1
    let h ← fieldSubtract u2 lhs.x
    let s2MinusY1 ← fieldSubtract s2 lhs.y
    -- equal first coordinates: the same point or its inverse, no chord exists
    if h.isZero then
      if s2MinusY1.isZero then jacobianDouble lhs else jacobianInfinity
    else
      let hh ← fieldMultiply h h
      let i ← fieldMultiply four hh
      let j ← fieldMultiply h i
      let r ← fieldMultiply two s2MinusY1
      let v ← fieldMultiply lhs.x i
      let rSquared ← fieldMultiply r r
      let rSquaredMinusJ ← fieldSubtract rSquared j
      let twoV ← fieldMultiply two v
      let x3 ← fieldSubtract rSquaredMinusJ twoV
      let vMinusX3 ← fieldSubtract v x3
      let rTimesDelta ← fieldMultiply r vMinusX3
      let y1J ← fieldMultiply lhs.y j
      let twoY1J ← fieldMultiply two y1J
      let y3 ← fieldSubtract rTimesDelta twoY1J
      let z1PlusH ← fieldAdd lhs.z h
      let z1PlusHSquared ← fieldMultiply z1PlusH z1PlusH
      let zWithoutZ1z1 ← fieldSubtract z1PlusHSquared z1z1
      let z3 ← fieldSubtract zWithoutZ1z1 hh
      if z3.isZero then jacobianInfinity else .ok ⟨x3, y3, z3, false⟩

/-- Back to affine coordinates, with one inversion; infinity is a point of its own. -/
def jacobianToAffine (point : JacobianPoint) : Result P256Point :=
  if point.infinity then .ok p256PointAtInfinity
  else do
    let zInverse ← fieldInverse point.z
    let zInverseSquared ← fieldMultiply zInverse zInverse
    let zInverseCubed ← fieldMultiply zInverseSquared zInverse
    let x ← fieldMultiply point.x zInverseSquared
    let y ← fieldMultiply point.y zInverseCubed
    makeAffinePoint x y

/-! ## The public functions -/

/-- Whether a pair is on the curve. Infinity is not an error here but a negative answer. -/
def isOnCurve (point : P256Point) : Result Bool :=
  if point.infinity then .ok false
  else do
    let affine ← loadAffinePoint point
    isOnCurveAffine affine

/-- The only way from outside bytes to a point: 32 bytes a coordinate, both below the prime, and the
equation of the curve. Every other public function accepts a finite point only through these checks.
-/
def pointFromCoordinates (x y : ByteBuffer) : Result P256Point := do
  require (!(x.length != 32 || y.length != 32))
    (p256Error .invalidArgument "P-256 coordinates must be 32 bytes")
  let point : P256Point := ⟨x, y, false⟩
  let onCurve ← isOnCurve point
  require onCurve (p256Error .invalidKey "P-256 point is not on the curve")
  return point

def basePoint : Result P256Point :=
  pointFromCoordinates gxBytes gyBytes

/-- Addition of two points that may come from anywhere. A finite summand of infinity is validated
again before it is returned, and two finite summands are both checked against the curve. -/
def pointAdd (lhs rhs : P256Point) : Result P256Point :=
  if lhs.infinity then
    if rhs.infinity then .ok p256PointAtInfinity
    else pointFromCoordinates rhs.x rhs.y
  else if rhs.infinity then pointFromCoordinates lhs.x lhs.y
  else do
    let left ← loadAffinePoint lhs
    let right ← loadAffinePoint rhs
    requireOnCurveAffine left
    requireOnCurveAffine right
    -- The points share a coordinate: they cancel, or are equal.
    if left.x.compare right.x == 0 then
      let ySum ← fieldAdd left.y right.y
      if ySum.isZero then .ok p256PointAtInfinity else pointDouble left
    else
      let numerator ← fieldSubtract right.y left.y
      let denominator ← fieldSubtract right.x left.x
      let denominatorInverse ← fieldInverse denominator
      let slope ← fieldMultiply numerator denominatorInverse
      let slopeSquared ← fieldMultiply slope slope
      let x3WithoutRight ← fieldSubtract slopeSquared left.x
      let x3 ← fieldSubtract x3WithoutRight right.x
      let xDelta ← fieldSubtract left.x x3
      let slopeTimesDelta ← fieldMultiply slope xDelta
      let y3 ← fieldSubtract slopeTimesDelta left.y
      makeAffinePoint x3 y3

/-- One bit of the multiplication: the point is added for a set bit only. -/
def scalarRound (addend : AffinePoint) (byte : UInt8) (bit : ℕ) (result : JacobianPoint) :
    Result JacobianPoint := do
  let doubled ← jacobianDouble result
  if (byte >>> UInt8.ofNat bit) &&& 1 != 0 then jacobianAddAffine doubled addend
  else return doubled

/-- The ladder over all the bytes of the scalar, most significant bit first. The scalar has any
length and is not reduced first, so that the number of rounds depends on its length alone. -/
def scalarMultiply (scalar : List UInt8) (point : P256Point) : Result P256Point :=
  if point.infinity then .ok p256PointAtInfinity
  else do
    let canonical ← pointFromCoordinates point.x point.y
    let addend ← loadAffinePoint canonical
    let start ← jacobianInfinity
    let result ← scalar.foldlM
      (fun result byte => Loops.loopDownM (scalarRound addend byte) 8 result) start
    jacobianToAffine result

/-- The multiple of the base point; the base point is checked against the curve on every call. -/
def basePointMultiply (scalar : List UInt8) : Result P256Point := do
  let base ← basePoint
  scalarMultiply scalar base

/-- The inverse of a scalar modulo the order, again by exponentiation. A scalar that is a multiple
of the order has none, and it is refused. -/
def scalarInverse (scalar : List UInt8) : Result ByteBuffer := do
  let reduced ← scalarReduce scalar
  require (!reduced.isZero) (p256Error .invalidArgument "scalar has no inverse")
  let modulus ← scalarModulus
  let exponent ← scalarInverseExponent
  let inverse ← BigInt.modExp reduced exponent modulus
  return inverse.toBeBytes

/-- The product of two scalars modulo the order, in the shortest bytes. -/
def scalarMultiplyMod (lhs rhs : List UInt8) : Result ByteBuffer := do
  let left ← scalarReduce lhs
  let right ← scalarReduce rhs
  let modulus ← scalarModulus
  let product ← BigInt.modMultiply left right modulus
  return product.toBeBytes

/-- The first coordinate of a point modulo the order, which ECDSA compares with its `r`. -/
def xModOrder (point : P256Point) : Result ByteBuffer := do
  require (!point.infinity) (p256Error .invalidKey "point at infinity has no x-coordinate")
  let affine ← loadAffinePoint point
  requireOnCurveAffine affine
  let modulus ← scalarModulus
  let reduced ← reduceMod affine.x modulus
  return reduced.toBeBytes

/-! ## The operations on field elements -/

open P256Curve

/-- The representation of a coordinate. The proofs below are about representations only, and every
integer that the backend computes is one. -/
def ofField (v : Coordinate) : BigInt :=
  BigInt.ofNat v.val

@[simp] lemma toNat_ofField (v : Coordinate) : (ofField v).toNat = v.val :=
  BigInt.toNat_ofNat _

/-- What a constant of the source is: conversion from bytes cannot fail, and the integer is
determined by the number that the bytes stand for. -/
lemma fromBeBytes_of_value {bytes : List UInt8} {k : ℕ} (h : beValue bytes = k) :
    BigInt.fromBeBytes bytes = .ok (BigInt.ofNat k) := by
  rw [BigInt.fromBeBytes_eq, h]

/-- The constants of the source are those of the curve. One lemma evaluates all of them, since the
byte strings are closed terms. -/
lemma constant_values : beValue pBytes = p ∧ beValue nBytes = n ∧ beValue pMinusTwoBytes = p - 2 ∧
    beValue nMinusTwoBytes = n - 2 ∧ beValue aBytes = a.val ∧ beValue bBytes = b.val ∧
    beValue gxBytes = gx.val ∧ beValue gyBytes = gy.val := by
  decide +kernel

/-- The small factors of the formulas, as field elements: they are below the prime, so that each is
its own representative. -/
lemma factor_values : beValue [0] = (0 : Coordinate).val ∧ beValue [1] = (1 : Coordinate).val ∧
    beValue [2] = (2 : Coordinate).val ∧ beValue [3] = (3 : Coordinate).val ∧
    beValue [4] = (4 : Coordinate).val ∧ beValue [8] = (8 : Coordinate).val := by
  decide +kernel

lemma fieldModulus_eq : fieldModulus = .ok (BigInt.ofNat p) :=
  fromBeBytes_of_value constant_values.1

lemma scalarModulus_eq : scalarModulus = .ok (BigInt.ofNat n) :=
  fromBeBytes_of_value constant_values.2.1

lemma fieldInverseExponent_eq : fieldInverseExponent = .ok (BigInt.ofNat (p - 2)) :=
  fromBeBytes_of_value constant_values.2.2.1

lemma scalarInverseExponent_eq : scalarInverseExponent = .ok (BigInt.ofNat (n - 2)) :=
  fromBeBytes_of_value constant_values.2.2.2.1

lemma curveA_eq : curveA = .ok (ofField a) :=
  fromBeBytes_of_value constant_values.2.2.2.2.1

lemma curveB_eq : curveB = .ok (ofField b) :=
  fromBeBytes_of_value constant_values.2.2.2.2.2.1

lemma zeroBigint_eq : zeroBigint = .ok (ofField 0) :=
  fromBeBytes_of_value factor_values.1

lemma oneBigint_eq : oneBigint = .ok (ofField 1) :=
  fromBeBytes_of_value factor_values.2.1

lemma twoBigint_eq : twoBigint = .ok (ofField 2) :=
  fromBeBytes_of_value factor_values.2.2.1

lemma threeBigint_eq : threeBigint = .ok (ofField 3) :=
  fromBeBytes_of_value factor_values.2.2.2.1

lemma fourBigint_eq : fourBigint = .ok (ofField 4) :=
  fromBeBytes_of_value factor_values.2.2.2.2.1

lemma eightBigint_eq : eightBigint = .ok (ofField 8) :=
  fromBeBytes_of_value factor_values.2.2.2.2.2

lemma modulus_ne_zero : (BigInt.ofNat p).toNat ≠ 0 := by
  rw [BigInt.toNat_ofNat]
  exact prime_p.ne_zero

lemma order_ne_zero : (BigInt.ofNat n).toNat ≠ 0 := by
  rw [BigInt.toNat_ofNat]
  exact prime_n.ne_zero

/-- The field operations on representations are those of the field, and none of them fails. The four
lemmas of this shape are in the simp set with which the formulas are evaluated. -/
@[simp] lemma fieldAdd_ofField (v w : Coordinate) :
    fieldAdd (ofField v) (ofField w) = .ok (ofField (v + w)) := by
  rw [fieldAdd, fieldModulus_eq, ok_bind, BigInt.modAdd_eq _ _ modulus_ne_zero, toNat_ofField,
    toNat_ofField, BigInt.toNat_ofNat, ← ZMod.val_add]
  rfl

@[simp] lemma fieldSubtract_ofField (v w : Coordinate) :
    fieldSubtract (ofField v) (ofField w) = .ok (ofField (v - w)) := by
  rw [fieldSubtract, fieldModulus_eq, ok_bind, BigInt.modSubtract_eq _ _ modulus_ne_zero,
    toNat_ofField, toNat_ofField, BigInt.toNat_ofNat, Nat.mod_eq_of_lt (ZMod.val_lt v),
    Nat.mod_eq_of_lt (ZMod.val_lt w), ofField, sub_eq_add_neg, ZMod.val_add, ZMod.neg_val',
    Nat.add_mod_mod]

@[simp] lemma fieldMultiply_ofField (v w : Coordinate) :
    fieldMultiply (ofField v) (ofField w) = .ok (ofField (v * w)) := by
  rw [fieldMultiply, fieldModulus_eq, ok_bind, BigInt.modMultiply_eq _ _ modulus_ne_zero,
    toNat_ofField, toNat_ofField, BigInt.toNat_ofNat, ← ZMod.val_mul]
  rfl

/-- Inversion agrees with that of the field also at zero, where both answer zero. -/
@[simp] lemma fieldInverse_ofField (v : Coordinate) :
    fieldInverse (ofField v) = .ok (ofField v⁻¹) := by
  rw [fieldInverse, fieldModulus_eq, ok_bind, fieldInverseExponent_eq, ok_bind,
    BigInt.modExp_eq _ _ modulus_ne_zero, toNat_ofField, BigInt.toNat_ofNat, BigInt.toNat_ofNat,
    ← val_pow, inverse_eq_pow]
  rfl

@[simp] lemma isZero_ofField (v : Coordinate) : (ofField v).isZero = decide (v = 0) := by
  rw [Bool.eq_iff_iff, BigInt.isZero_iff, toNat_ofField, ZMod.val_eq_zero, decide_eq_true_iff]

/-- Representations are equal exactly when the field elements are: each element has one `BigInt`. -/
lemma compare_ofField (v w : Coordinate) : (ofField v).compare (ofField w) = 0 ↔ v = w := by
  rw [BigInt.compare_eq_zero_iff, toNat_ofField, toNat_ofField]
  exact (ZMod.val_injective p).eq_iff

/-- The representation of a Jacobian triple, each coordinate by its reduced integer, flag included.
-/
def liftJacobian (J : Jacobian Coordinate) : JacobianPoint :=
  ⟨ofField J.x, ofField J.y, ofField J.z, J.infinity⟩

/-- The representation of a pair of coordinates, each by its reduced integer. -/
def liftAffine (x y : Coordinate) : AffinePoint :=
  ⟨ofField x, ofField y⟩

lemma jacobianInfinity_eq : jacobianInfinity = .ok (liftJacobian Jacobian.identity) := by
  rw [jacobianInfinity, zeroBigint_eq]
  rfl

lemma affineToJacobian_liftAffine (x y : Coordinate) :
    affineToJacobian (liftAffine x y) = .ok (liftJacobian (Jacobian.ofAffine x y)) := by
  rw [affineToJacobian, oneBigint_eq]
  rfl

lemma isOnCurveAffine_liftAffine (x y : Coordinate) :
    isOnCurveAffine (liftAffine x y) = .ok (decide (OnCurve a b x y)) := by
  have hflag : ((ofField (y * y)).compare (ofField (x * x * x + a * x + b)) == 0) =
      decide (OnCurve a b x y) := by
    rw [Bool.eq_iff_iff, beq_iff_eq, compare_ofField, decide_eq_true_iff]
    rfl
  rw [← hflag]
  simp only [isOnCurveAffine, liftAffine, curveA_eq, curveB_eq, fieldMultiply_ofField,
    fieldAdd_ofField, ok_bind]
  rfl

/-- The check of the last coordinate, at which both formulas of the source end, is
`Jacobian.checked`. -/
lemma checked_eq (x y z : Coordinate) :
    (if z = 0 then jacobianInfinity else .ok ⟨ofField x, ofField y, ofField z, false⟩) =
      .ok (liftJacobian (Jacobian.checked x y z)) := by
  rw [Jacobian.checked, jacobianInfinity_eq]
  by_cases hz : z = 0
  · rw [if_pos hz, if_pos hz]
  · rw [if_neg hz, if_neg hz]
    rfl

/-- Doubling is the doubling of `ShortWeierstrass`. The formulas of the source and the library
differ in shape only, which a normalisation in the field decides. -/
theorem jacobianDouble_lift (J : Jacobian Coordinate) :
    jacobianDouble (liftJacobian J) = .ok (liftJacobian (J.double a)) := by
  unfold jacobianDouble
  simp only [liftJacobian, isZero_ofField, fieldMultiply_ofField, fieldAdd_ofField,
    fieldSubtract_ofField, curveA_eq, twoBigint_eq, threeBigint_eq, eightBigint_eq, ok_bind,
    Bool.or_eq_true, decide_eq_true_eq]
  by_cases hinf : J.infinity = true ∨ J.y = 0
  · rw [if_pos hinf, Jacobian.double, if_pos hinf, jacobianInfinity_eq]
    rfl
  · rw [if_neg hinf, Jacobian.double, if_neg hinf]
    exact checked_eq _ _ _

/-- Mixed addition is that of `ShortWeierstrass`, with the same three cases. -/
theorem jacobianAddAffine_lift (J : Jacobian Coordinate) (x y : Coordinate) :
    jacobianAddAffine (liftJacobian J) (liftAffine x y) =
      .ok (liftJacobian (J.addAffine a x y)) := by
  unfold jacobianAddAffine
  by_cases hinf : J.infinity = true
  · rw [show (liftJacobian J).infinity = J.infinity from rfl, if_pos hinf, Jacobian.addAffine,
      if_pos hinf, affineToJacobian_liftAffine]
  · rw [show (liftJacobian J).infinity = J.infinity from rfl, if_neg hinf, Jacobian.addAffine,
      if_neg hinf]
    simp only [jacobianDouble_lift]
    simp only [liftJacobian, liftAffine, isZero_ofField, fieldMultiply_ofField, fieldAdd_ofField,
      fieldSubtract_ofField, twoBigint_eq, fourBigint_eq, ok_bind, decide_eq_true_eq]
    by_cases hh : x * (J.z * J.z) - J.x = 0
    · rw [if_pos hh, if_pos hh, jacobianInfinity_eq]
      split <;> rfl
    · rw [if_neg hh, if_neg hh]
      exact checked_eq _ _ _

/-! ## Affine points and the group -/

/-- A field element has at most 32 bytes, so that the width check passes and the padding fills up
the fixed encoding. -/
lemma fixed32Bytes_ofField (v : Coordinate) :
    fixed32Bytes (ofField v) = .ok (coordinateBytes v) := by
  have hlength : (minBeBytes v.val).length ≤ 32 :=
    (length_minBeBytes_le_iff (by norm_num)).mpr (val_lt v)
  rw [fixed32Bytes, BigInt.toBeBytes_eq, toNat_ofField]
  rw [if_neg (by omega), replicate_append_minBeBytes hlength]
  rfl

lemma makeAffinePoint_of_isAt {P : Point} {x y : Coordinate} (h : IsAt P x y) :
    makeAffinePoint (ofField x) (ofField y) = .ok (encodePoint P) := by
  rw [makeAffinePoint, fixed32Bytes_ofField, ok_bind, fixed32Bytes_ofField, ok_bind,
    encodePoint_of_isAt h]
  rfl

/-- A triple that represents a point is converted into the encoding of that point, whichever triple
represents it. -/
theorem jacobianToAffine_lift {J : Jacobian Coordinate} {P : Point} (h : J.Represents P) :
    jacobianToAffine (liftJacobian J) = .ok (encodePoint P) := by
  unfold jacobianToAffine
  rw [show (liftJacobian J).infinity = J.infinity from rfl]
  cases hinf : J.infinity with
  | true =>
      rw [h.eq_zero hinf]
      rfl
  | false =>
      obtain ⟨hz, hP⟩ := h.isAt hinf
      simp only [Bool.false_eq_true, if_false, liftJacobian, fieldInverse_ofField,
        fieldMultiply_ofField, ok_bind]
      rw [div_eq_mul_inv, div_eq_mul_inv, mul_inv, mul_inv, mul_inv] at hP
      exact makeAffinePoint_of_isAt hP

lemma loadAffinePoint_coordinates (x y : Coordinate) :
    loadAffinePoint ⟨coordinateBytes x, coordinateBytes y, false⟩ = .ok (liftAffine x y) := by
  have hlt : ∀ v : Coordinate, ¬(ofField v).compare (BigInt.ofNat p) ≥ 0 := by
    intro v hle
    rw [BigInt.compare_nonneg_iff, toNat_ofField, BigInt.toNat_ofNat] at hle
    exact absurd hle (not_le.mpr (ZMod.val_lt v))
  have hread : ∀ v : Coordinate, BigInt.fromBeBytes (coordinateBytes v) = .ok (ofField v) :=
    fun v => fromBeBytes_of_value (beValue_coordinateBytes v)
  rw [loadAffinePoint, fieldModulus_eq]
  simp only [length_coordinateBytes, hread, ok_bind, bne_self_eq_false, Bool.or_false,
    Bool.not_false, require_true, decide_eq_false (hlt x), decide_eq_false (hlt y)]
  rfl

/-- A coordinate out of range is an error, whether it has the wrong length or is not below the
prime. -/
lemma loadAffinePoint_of_none {point : P256Point} (hfinite : point.infinity = false)
    (h : coordinateOf point.x = none ∨ coordinateOf point.y = none) :
    ∃ e, loadAffinePoint point = .error e := by
  have hcompare : ∀ k, (BigInt.ofNat k).compare (BigInt.ofNat p) ≥ 0 ↔ p ≤ k := by
    intro k
    rw [BigInt.compare_nonneg_iff, BigInt.toNat_ofNat, BigInt.toNat_ofNat]
  rw [loadAffinePoint, hfinite, Bool.not_false, require_true, ok_bind]
  by_cases hlength : (point.x.length != 32 || point.y.length != 32) = true
  · rw [hlength]
    exact ⟨_, rfl⟩
  · rw [Bool.not_eq_true] at hlength
    have hlengths : point.x.length = 32 ∧ point.y.length = 32 := by simpa using hlength
    have hlarge : p ≤ beValue point.x ∨ p ≤ beValue point.y := by
      rcases h with h | h
      · refine Or.inl (not_lt.mp fun hlt => ?_)
        rw [coordinateOf, if_pos ⟨hlengths.1, hlt⟩] at h
        cases h
      · refine Or.inr (not_lt.mp fun hlt => ?_)
        rw [coordinateOf, if_pos ⟨hlengths.2, hlt⟩] at h
        cases h
    have hflag : (decide ((BigInt.ofNat (beValue point.x)).compare (BigInt.ofNat p) ≥ 0) ||
        decide ((BigInt.ofNat (beValue point.y)).compare (BigInt.ofNat p) ≥ 0)) = true := by
      simp only [hcompare, Bool.or_eq_true, decide_eq_true_eq]
      exact hlarge
    rw [hlength, Bool.not_false, require_true, ok_bind, fieldModulus_eq, ok_bind,
      BigInt.fromBeBytes_eq, BigInt.fromBeBytes_eq, ok_bind, ok_bind, hflag]
    exact ⟨_, rfl⟩

lemma requireOnCurveAffine_liftAffine (x y : Coordinate) :
    requireOnCurveAffine (liftAffine x y) = require (decide (OnCurve a b x y))
      (p256Error .invalidKey "P-256 point is not on the curve") := by
  rw [requireOnCurveAffine, isOnCurveAffine_liftAffine, ok_bind]

/-- A finite pair either does not load, or it loads and stands for a point when it is on the curve.
The public functions are all proved by this case distinction. -/
lemma loadAffinePoint_cases {point : P256Point} (hfinite : point.infinity = false) :
    (∃ e, loadAffinePoint point = .error e ∧ decodePoint point = none) ∨
      ∃ x y, loadAffinePoint point = .ok (liftAffine x y) ∧
        (decodePoint point = none ↔ ¬OnCurve a b x y) := by
  rcases coordinates_cases hfinite with hnone | ⟨x, y, rfl⟩
  · obtain ⟨e, he⟩ := loadAffinePoint_of_none hfinite hnone
    refine Or.inl ⟨e, he, ?_⟩
    rw [decodePoint, hfinite, if_neg Bool.false_ne_true]
    rcases hnone with h | h
    · rw [h]
    · rw [h]
      cases coordinateOf point.x <;> rfl
  · refine Or.inr ⟨x, y, loadAffinePoint_coordinates x y, ?_⟩
    by_cases hcurve : OnCurve a b x y <;>
      simp [decodePoint, coordinateOf_coordinateBytes, hcurve]

/-! ## What the public functions compute -/

/-- The answer about any pair: infinity is off the curve, a coordinate out of range fails, and
otherwise the equation decides. -/
theorem isOnCurve_toOption (point : P256Point) :
    (isOnCurve point).toOption =
      if point.infinity then some false
      else do
        let x ← coordinateOf point.x
        let y ← coordinateOf point.y
        return decide (OnCurve a b x y) := by
  rw [isOnCurve]
  cases hinf : point.infinity with
  | true => rfl
  | false =>
      rw [if_neg Bool.false_ne_true, if_neg Bool.false_ne_true]
      rcases coordinates_cases hinf with hnone | ⟨x, y, rfl⟩
      · obtain ⟨e, he⟩ := loadAffinePoint_of_none hinf hnone
        rw [he, error_bind]
        exact (bind_coordinates_of_none hnone _).symm
      · rw [loadAffinePoint_coordinates, ok_bind, isOnCurveAffine_liftAffine,
          coordinateOf_coordinateBytes, coordinateOf_coordinateBytes]
        rfl

lemma isOnCurve_of_isAt {P : Point} {x y : Coordinate} (h : IsAt P x y) :
    isOnCurve ⟨coordinateBytes x, coordinateBytes y, false⟩ = .ok true := by
  rw [isOnCurve, if_neg Bool.false_ne_true, loadAffinePoint_coordinates, ok_bind,
    isOnCurveAffine_liftAffine, decide_eq_true h.onCurve]

lemma pointFromCoordinates_of_isAt {P : Point} {x y : Coordinate} (h : IsAt P x y) :
    pointFromCoordinates (coordinateBytes x) (coordinateBytes y) = .ok (encodePoint P) := by
  rw [pointFromCoordinates, length_coordinateBytes, length_coordinateBytes]
  dsimp only
  rw [isOnCurve_of_isAt h, encodePoint_of_isAt h]
  rfl

/-- A pair that stands for no point is an error. -/
lemma pointFromCoordinates_of_none {x y : ByteBuffer} (h : decodePoint ⟨x, y, false⟩ = none) :
    ∃ e, pointFromCoordinates x y = .error e := by
  rw [pointFromCoordinates]
  dsimp only
  cases (!(x.length != 32 || y.length != 32)) with
  | false => exact ⟨_, rfl⟩
  | true =>
      have honcurve : isOnCurve ⟨x, y, false⟩ = loadAffinePoint ⟨x, y, false⟩ >>= isOnCurveAffine :=
        rfl
      rw [require_true, ok_bind, honcurve]
      have hcases := @loadAffinePoint_cases ⟨x, y, false⟩ rfl
      rcases hcases with ⟨e, he, -⟩ | ⟨v, w, hload, hcurve⟩
      · rw [he]
        exact ⟨_, rfl⟩
      · rw [hload, ok_bind, isOnCurveAffine_liftAffine, decide_eq_false (hcurve.mp h)]
        exact ⟨_, rfl⟩

/-- The construction of points accepts exactly the encodings of points, and returns its input. -/
theorem pointFromCoordinates_toOption (x y : ByteBuffer) :
    (pointFromCoordinates x y).toOption = (decodePoint ⟨x, y, false⟩).map encodePoint := by
  cases h : decodePoint ⟨x, y, false⟩ with
  | none =>
      obtain ⟨e, he⟩ := pointFromCoordinates_of_none h
      rw [he]
      rfl
  | some P =>
      obtain ⟨v, w, hP, hpoint⟩ := exists_isAt_of_decodePoint h rfl
      have hx : x = coordinateBytes v := congrArg P256Point.x hpoint
      have hy : y = coordinateBytes w := congrArg P256Point.y hpoint
      rw [hx, hy, pointFromCoordinates_of_isAt hP]
      rfl

/-- Doubling of a checked point is doubling in the group, the point of order two included. -/
lemma pointDouble_of_isAt {P : Point} {x y : Coordinate} (h : IsAt P x y) :
    pointDouble (liftAffine x y) = .ok (encodePoint (P + P)) := by
  unfold pointDouble
  simp only [liftAffine, isZero_ofField, decide_eq_true_eq]
  by_cases hy : y = 0
  · have hsum : P + P = 0 := h.add_eq_zero h (by simp [hy])
    rw [if_pos hy, hsum]
    rfl
  · rw [if_neg hy]
    simp only [fieldMultiply_ofField, fieldAdd_ofField, fieldSubtract_ofField,
      fieldInverse_ofField, curveA_eq, twoBigint_eq, threeBigint_eq, ok_bind]
    have hsum := h.add_self two_ne_zero hy
    rw [chordY, chordX, tangent, div_eq_mul_inv, sub_sub _ x x, ← two_mul] at hsum
    exact makeAffinePoint_of_isAt hsum

/-- Addition of two finite points: the chord, the tangent and the inverse pair, as in the group law.
-/
lemma pointAdd_of_isAt {P Q : Point} {x y x' y' : Coordinate} (hP : IsAt P x y)
    (hQ : IsAt Q x' y') :
    pointAdd ⟨coordinateBytes x, coordinateBytes y, false⟩
      ⟨coordinateBytes x', coordinateBytes y', false⟩ = .ok (encodePoint (P + Q)) := by
  rw [pointAdd, if_neg Bool.false_ne_true, if_neg Bool.false_ne_true,
    loadAffinePoint_coordinates, loadAffinePoint_coordinates, ok_bind, ok_bind,
    requireOnCurveAffine_liftAffine, requireOnCurveAffine_liftAffine,
    decide_eq_true hP.onCurve, decide_eq_true hQ.onCurve, require_true, ok_bind, ok_bind]
  rw [show (liftAffine x y).x = ofField x from rfl, show (liftAffine x y).y = ofField y from rfl,
    show (liftAffine x' y').x = ofField x' from rfl,
    show (liftAffine x' y').y = ofField y' from rfl]
  simp only [beq_iff_eq, compare_ofField, fieldMultiply_ofField, fieldAdd_ofField,
    fieldSubtract_ofField, fieldInverse_ofField, isZero_ofField, decide_eq_true_eq, ok_bind]
  by_cases hx : x = x'
  · subst hx
    rw [if_pos rfl]
    by_cases hy : y + y' = 0
    · rw [if_pos hy, hP.add_eq_zero hQ hy]
      rfl
    · have hyy := hP.eq_of_add_ne_zero hQ hy
      subst hyy
      rw [if_neg hy, ← hP.unique hQ]
      exact pointDouble_of_isAt hP
  · rw [if_neg hx]
    have hsum := hP.add_of_ne hQ hx
    rw [chordY, chordX, div_eq_mul_inv] at hsum
    exact makeAffinePoint_of_isAt hsum

/-- Addition fails on a finite pair that stands for no point. -/
lemma pointAdd_of_none {lhs rhs : P256Point} (hl : lhs.infinity = false)
    (hr : rhs.infinity = false) (h : decodePoint lhs = none ∨ decodePoint rhs = none) :
    ∃ e, pointAdd lhs rhs = .error e := by
  rw [pointAdd, hl, hr, if_neg Bool.false_ne_true, if_neg Bool.false_ne_true]
  rcases loadAffinePoint_cases hl with ⟨e, he, -⟩ | ⟨x, y, hloadl, hcurvel⟩
  · exact ⟨e, by rw [he, error_bind]⟩
  rcases loadAffinePoint_cases hr with ⟨e, he, -⟩ | ⟨x', y', hloadr, hcurver⟩
  · exact ⟨e, by rw [hloadl, ok_bind, he, error_bind]⟩
  rw [hloadl, hloadr, ok_bind, ok_bind, requireOnCurveAffine_liftAffine,
    requireOnCurveAffine_liftAffine]
  by_cases hon : OnCurve a b x y
  · have hoff : ¬OnCurve a b x' y' := hcurver.mp (h.resolve_left fun hnone => hcurvel.mp hnone hon)
    rw [decide_eq_true hon, decide_eq_false hoff]
    exact ⟨_, rfl⟩
  · rw [decide_eq_false hon]
    exact ⟨_, rfl⟩

/-- Addition succeeds exactly on encodings of points, and the result encodes their sum. -/
theorem pointAdd_toOption (lhs rhs : P256Point) :
    (pointAdd lhs rhs).toOption = do
      let P ← decodePoint lhs
      let Q ← decodePoint rhs
      return encodePoint (P + Q) := by
  refine add_toOption pointFromCoordinates_toOption (fun hl hr => ?_) (fun hl hr => ?_)
    (fun hl hr => ?_) pointAdd_of_none pointAdd_of_isAt lhs rhs
  all_goals
    rw [pointAdd, hl, hr]
    rfl

/-! ### Scalar multiplication -/

/-- The state of the ladder stands for a multiple of the point. This is the invariant of the ladder,
with the number read so far as the multiplier. -/
def HoldsMultiple (P : Point) (point : JacobianPoint) (k : ℕ) : Prop :=
  ∃ J : Jacobian Coordinate, point = liftJacobian J ∧ J.Represents (k • P)

/-- One round doubles the multiplier and adds the bit that it reads. -/
lemma scalarRound_holds {P : Point} {x y : Coordinate} (hP : IsAt P x y) (byte : UInt8)
    {i : ℕ} (hi : i < 8) {point : JacobianPoint} {k : ℕ} (h : HoldsMultiple P point k) :
    Loops.Refines (HoldsMultiple P) (scalarRound (liftAffine x y) byte i point)
      (2 * k + (byte.toNat.testBit i).toNat) := by
  obtain ⟨J, rfl, hJ⟩ := h
  refine ⟨_, ?_, J.step a x y (byte.toNat.testBit i), rfl, hJ.step two_ne_zero hP _⟩
  rw [scalarRound, jacobianDouble_lift, ok_bind, byte_bit byte hi, Jacobian.step]
  split
  · exact jacobianAddAffine_lift _ x y
  · rfl

/-- The whole ladder on a checked point: the multiplier is the number that the bytes stand for, of
any length and not reduced. -/
theorem scalarMultiply_of_isAt (scalar : List UInt8) {P : Point} {x y : Coordinate}
    (hP : IsAt P x y) :
    scalarMultiply scalar ⟨coordinateBytes x, coordinateBytes y, false⟩ =
      .ok (encodePoint (beValue scalar • P)) := by
  have hloop := Loops.foldlM_bytes
    (fun result byte => Loops.loopDownM (scalarRound (liftAffine x y) byte) 8 result)
    (HoldsMultiple P)
    (fun s byte v hs => Loops.loopDownM_byte _ _ byte
      (fun i hi s u hs => scalarRound_holds hP byte hi hs) hs)
    scalar ⟨Jacobian.identity, rfl, by simpa using Jacobian.represents_identity⟩
  obtain ⟨result, hresult, J, rfl, hJ⟩ := hloop
  rw [scalarMultiply, if_neg Bool.false_ne_true, pointFromCoordinates_of_isAt hP, ok_bind,
    encodePoint_of_isAt hP, loadAffinePoint_coordinates, ok_bind, jacobianInfinity_eq, ok_bind,
    hresult, ok_bind, jacobianToAffine_lift hJ]

/-- Multiplication succeeds exactly on encodings of points, and is the action of the number on the
group. -/
theorem scalarMultiply_toOption (scalar : List UInt8) (point : P256Point) :
    (scalarMultiply scalar point).toOption =
      (decodePoint point).map fun P => encodePoint (beValue scalar • P) := by
  rcases point_cases point with ⟨hinf, hP⟩ | ⟨hinf, hP⟩ | ⟨P, x, y, hat, rfl, hP⟩
  · rw [scalarMultiply, hinf, if_pos rfl, hP, Option.map_some, nsmul_zero]
    rfl
  · obtain ⟨x, y, infinity⟩ := point
    simp only at hinf
    subst hinf
    obtain ⟨e, he⟩ := pointFromCoordinates_of_none hP
    rw [scalarMultiply, if_neg Bool.false_ne_true, he, error_bind, hP]
    rfl
  · rw [scalarMultiply_of_isAt scalar hat, hP]
    rfl

theorem basePointMultiply_eq (scalar : List UInt8) :
    basePointMultiply scalar = .ok (encodePoint (beValue scalar • G)) := by
  have hx : gxBytes = coordinateBytes gx := eq_beBytes rfl constant_values.2.2.2.2.2.2.1
  have hy : gyBytes = coordinateBytes gy := eq_beBytes rfl constant_values.2.2.2.2.2.2.2
  rw [basePointMultiply, basePoint, hx, hy, pointFromCoordinates_of_isAt isAt_G, ok_bind,
    encodePoint_of_isAt isAt_G, scalarMultiply_of_isAt scalar isAt_G]

/-! ### Scalars -/

lemma reduceMod_eq (k : ℕ) :
    reduceMod (BigInt.ofNat k) (BigInt.ofNat n) = .ok (BigInt.ofNat (k % n)) := by
  rw [reduceMod, zeroBigint_eq, ok_bind, BigInt.modAdd_eq _ _ order_ne_zero, toNat_ofField,
    ZMod.val_zero, add_zero, BigInt.toNat_ofNat, BigInt.toNat_ofNat]

lemma scalarReduce_eq (value : List UInt8) :
    scalarReduce value = .ok (BigInt.ofNat (beValue value % n)) := by
  rw [scalarReduce, BigInt.fromBeBytes_eq, ok_bind, scalarModulus_eq, ok_bind, reduceMod_eq]

/-- The inverse as a power. That it is an inverse modulo the order is arithmetic of
`Construction/P256Curve.lean`, where the order is shown to be prime. -/
theorem scalarInverse_eq (scalar : List UInt8) :
    scalarInverse scalar =
      if beValue scalar % n = 0 then
        .error (p256Error .invalidArgument "scalar has no inverse")
      else .ok (minBeBytes ((beValue scalar % n) ^ (n - 2) % n)) := by
  rw [scalarInverse, scalarReduce_eq, ok_bind]
  by_cases hzero : beValue scalar % n = 0
  · have hflag : (BigInt.ofNat (beValue scalar % n)).isZero = true := by
      rw [BigInt.isZero_iff, BigInt.toNat_ofNat, hzero]
    rw [hflag, if_pos hzero]
    rfl
  · have hflag : (BigInt.ofNat (beValue scalar % n)).isZero = false :=
      BigInt.isZero_eq_false (by rwa [BigInt.toNat_ofNat])
    rw [hflag, if_neg hzero, Bool.not_false, require_true, ok_bind, scalarModulus_eq, ok_bind,
      scalarInverseExponent_eq, ok_bind, BigInt.modExp_eq _ _ order_ne_zero, ok_bind,
      BigInt.toBeBytes_eq, BigInt.toNat_ofNat, BigInt.toNat_ofNat, BigInt.toNat_ofNat,
      BigInt.toNat_ofNat]
    rfl

theorem scalarMultiplyMod_eq (lhs rhs : List UInt8) :
    scalarMultiplyMod lhs rhs = .ok (minBeBytes (beValue lhs * beValue rhs % n)) := by
  rw [scalarMultiplyMod, scalarReduce_eq, scalarReduce_eq, ok_bind, ok_bind, scalarModulus_eq,
    ok_bind, BigInt.modMultiply_eq _ _ order_ne_zero, ok_bind, BigInt.toBeBytes_eq,
    BigInt.toNat_ofNat, BigInt.toNat_ofNat, BigInt.toNat_ofNat, BigInt.toNat_ofNat,
    ← Nat.mul_mod]
  rfl

/-- The coordinate modulo the order, for encodings of finite points and for nothing else. -/
theorem xModOrder_toOption (point : P256Point) :
    (xModOrder point).toOption = ((decodePoint point).bind xModN).map minBeBytes := by
  rcases point_cases point with ⟨hinf, hP⟩ | ⟨hinf, hP⟩ | ⟨P, v, w, ⟨hns, rfl⟩, rfl, hP⟩
  · rw [xModOrder, hinf, hP]
    rfl
  · rw [xModOrder, hinf, Bool.not_false, require_true, ok_bind]
    rcases loadAffinePoint_cases hinf with ⟨e, he, -⟩ | ⟨x, y, hload, hcurve⟩
    · rw [he, hP]
      rfl
    · rw [hload, ok_bind, requireOnCurveAffine_liftAffine, decide_eq_false (hcurve.mp hP), hP]
      rfl
  · have hat : IsAt (.some v w hns : Point) v w := ⟨hns, rfl⟩
    have hx : (liftAffine v w).x = BigInt.ofNat v.val := rfl
    rw [xModOrder, hP, Bool.not_false, require_true, ok_bind, loadAffinePoint_coordinates, ok_bind,
      requireOnCurveAffine_liftAffine, decide_eq_true hat.onCurve, require_true, ok_bind,
      scalarModulus_eq, ok_bind, hx, reduceMod_eq, ok_bind, BigInt.toBeBytes_eq,
      BigInt.toNat_ofNat]
    rfl

end P256

end CryptoCore
