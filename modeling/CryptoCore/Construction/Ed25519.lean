import CryptoCore.Construction.BigInt
import CryptoCore.Construction.Ed25519Curve
import CryptoCore.Construction.Sha2

/-!
# Ed25519

Field and scalar arithmetic on `BigInt`, points in extended coordinates, the decoding and encoding
of points, and signatures over them, after `ed25519.cpp`.

The field operations reduce whatever they are given, so each of them is the operation of the field
on the residues of its operands: `toField` takes an integer to its residue, `ofField` back to the
reduced integer, and the lemmas `fieldAdd_eq` to `fieldInverse_eq` hold for all operands. With that
no operation on points fails, and the operations are those of `Framework/TwistedEdwards.lean`
(`pointAdd_eq`, `scalarMultiply_eq`); the addition formula of the curve is complete, so that there
are no cases to distinguish.

Decoding is the part with an argument. A byte string has a point only if the second coordinate is
reduced and the quotient for the square of the first one is a square; the candidate root of the
source finds a root whenever there is one (`squareRoot_spec`), and the top bit picks one of the two
(`withParity_eq_ok_iff`). `decodePoint_eq_ok_iff` says that exactly the encodings of points are
decoded, and `encodePoint_eq` that any coordinates of a point are encoded as that point.

`Verifies` is what a signature has to satisfy, over the group; `verifyEd25519_eq` says that
verification decides it, and `signEd25519Seed_eq` what signing writes. `Properties/Ed25519.lean` and
`Properties/SignatureOrigins.lean` continue from there.
-/

namespace CryptoCore

open ByteStrings TwistedEdwards

namespace Ed25519

/-! ## Constants -/

/-- The sizes of an encoded point and of a signature, in bytes. -/
def encodedPointSize : ℕ := 32

def signatureSize : ℕ := 64

/-- The constants of the curve as big-endian bytes; each use converts one of them again. -/
def fieldModulusBytes : List UInt8 :=
  [0x7F, 0xFF, 0xFF, 0xFF, 0xFF, 0xFF, 0xFF, 0xFF,
    0xFF, 0xFF, 0xFF, 0xFF, 0xFF, 0xFF, 0xFF, 0xFF,
    0xFF, 0xFF, 0xFF, 0xFF, 0xFF, 0xFF, 0xFF, 0xFF,
    0xFF, 0xFF, 0xFF, 0xFF, 0xFF, 0xFF, 0xFF, 0xED]

def groupOrderBytes : List UInt8 :=
  [0x10, 0x00, 0x00, 0x00, 0x00, 0x00, 0x00, 0x00,
    0x00, 0x00, 0x00, 0x00, 0x00, 0x00, 0x00, 0x00,
    0x14, 0xDE, 0xF9, 0xDE, 0xA2, 0xF7, 0x9C, 0xD6,
    0x58, 0x12, 0x63, 0x1A, 0x5C, 0xF5, 0xD3, 0xED]

def curveDBytes : List UInt8 :=
  [0x52, 0x03, 0x6C, 0xEE, 0x2B, 0x6F, 0xFE, 0x73,
    0x8C, 0xC7, 0x40, 0x79, 0x77, 0x79, 0xE8, 0x98,
    0x00, 0x70, 0x0A, 0x4D, 0x41, 0x41, 0xD8, 0xAB,
    0x75, 0xEB, 0x4D, 0xCA, 0x13, 0x59, 0x78, 0xA3]

def sqrtMinusOneBytes : List UInt8 :=
  [0x2B, 0x83, 0x24, 0x80, 0x4F, 0xC1, 0xDF, 0x0B,
    0x2B, 0x4D, 0x00, 0x99, 0x3D, 0xFB, 0xD7, 0xA7,
    0x2F, 0x43, 0x18, 0x06, 0xAD, 0x2F, 0xE4, 0x78,
    0xC4, 0xEE, 0x1B, 0x27, 0x4A, 0x0E, 0xA0, 0xB0]

def sqrtExponentBytes : List UInt8 :=
  [0x0F, 0xFF, 0xFF, 0xFF, 0xFF, 0xFF, 0xFF, 0xFF,
    0xFF, 0xFF, 0xFF, 0xFF, 0xFF, 0xFF, 0xFF, 0xFF,
    0xFF, 0xFF, 0xFF, 0xFF, 0xFF, 0xFF, 0xFF, 0xFF,
    0xFF, 0xFF, 0xFF, 0xFF, 0xFF, 0xFF, 0xFF, 0xFE]

def inverseExponentBytes : List UInt8 :=
  [0x7F, 0xFF, 0xFF, 0xFF, 0xFF, 0xFF, 0xFF, 0xFF,
    0xFF, 0xFF, 0xFF, 0xFF, 0xFF, 0xFF, 0xFF, 0xFF,
    0xFF, 0xFF, 0xFF, 0xFF, 0xFF, 0xFF, 0xFF, 0xFF,
    0xFF, 0xFF, 0xFF, 0xFF, 0xFF, 0xFF, 0xFF, 0xEB]

/-- The encoding of the base point, which every signature decodes anew. -/
def basePointBytes : List UInt8 :=
  [0x58, 0x66, 0x66, 0x66, 0x66, 0x66, 0x66, 0x66,
    0x66, 0x66, 0x66, 0x66, 0x66, 0x66, 0x66, 0x66,
    0x66, 0x66, 0x66, 0x66, 0x66, 0x66, 0x66, 0x66,
    0x66, 0x66, 0x66, 0x66, 0x66, 0x66, 0x66, 0x66]

/-- Extended coordinates. The last one is the product of the first two, up to the scale. -/
structure ExtendedPoint where
  x : BigInt
  y : BigInt
  z : BigInt
  t : BigInt

/-- The error of this file, with the code of the check that made it. -/
def ed25519Error (code : ErrorCode) (message : String) : Error :=
  makeError code "ed25519" message

def zero : Result BigInt := BigInt.fromBeBytes [0x00]

def one : Result BigInt := BigInt.fromBeBytes [0x01]

def fieldModulus : Result BigInt := BigInt.fromBeBytes fieldModulusBytes

def groupOrder : Result BigInt := BigInt.fromBeBytes groupOrderBytes

/-! ## Field arithmetic -/

def fieldAdd (lhs rhs : BigInt) : Result BigInt := do
  let modulus ← fieldModulus
  BigInt.modAdd lhs rhs modulus

def fieldSubtract (lhs rhs : BigInt) : Result BigInt := do
  let modulus ← fieldModulus
  BigInt.modSubtract lhs rhs modulus

def fieldMultiply (lhs rhs : BigInt) : Result BigInt := do
  let modulus ← fieldModulus
  BigInt.modMultiply lhs rhs modulus

def fieldSquare (value : BigInt) : Result BigInt :=
  fieldMultiply value value

/-- Inversion by exponentiation with a constant exponent, which answers zero for zero. -/
def fieldInverse (value : BigInt) : Result BigInt := do
  let modulus ← fieldModulus
  let exponent ← BigInt.fromBeBytes inverseExponentBytes
  BigInt.modExp value exponent modulus

/-- The parity of a number, off its last byte. The number zero has one byte. -/
def isOdd (value : BigInt) : Bool :=
  match value.toBeBytes.getLast? with
  | none => false
  | some byte => byte &&& 1 != 0

/-! ## Little-endian integers and scalars -/

/-- Little-endian bytes as a number, by way of the big-endian reader. -/
def fromLeBytes (bytes : List UInt8) : Result BigInt :=
  BigInt.fromBeBytes bytes.reverse

/-- A number as little-endian bytes of a fixed size. A number that does not fit is refused. -/
def toFixedLeBytes (value : BigInt) (size : ℕ) : Result (List UInt8) :=
  let bytes := value.toBeBytes
  if bytes.length > size ∧ ¬(bytes.length = 1 ∧ bytes.getD 0 0 = 0) then
    .error (ed25519Error .invalidArgument "integer does not fit fixed-width output")
  else .ok (bytes.reverse.take size ++ List.replicate (size - bytes.length) 0)

/-- A digest as a scalar, reduced modulo the order by a sum with zero. -/
def reduceModOrder (littleEndian : List UInt8) : Result BigInt := do
  let value ← fromLeBytes littleEndian
  let order ← groupOrder
  let z ← zero
  BigInt.modAdd value z order

def multiplyModOrder (lhs rhs : BigInt) : Result BigInt := do
  let order ← groupOrder
  BigInt.modMultiply lhs rhs order

def addModOrder (lhs rhs : BigInt) : Result BigInt := do
  let order ← groupOrder
  BigInt.modAdd lhs rhs order

/-- Whether a scalar is below the order. Verification insists on it. -/
def scalarIsCanonical (littleEndian : List UInt8) : Result Bool := do
  let value ← fromLeBytes littleEndian
  let order ← groupOrder
  return decide (value.compare order < 0)

/-- A bit of a little-endian scalar; there is none past its end. -/
def scalarBit (littleEndian : List UInt8) (bit : ℕ) : Bool :=
  decide (bit / 8 < littleEndian.length) &&
    (littleEndian.getD (bit / 8) 0 >>> UInt8.ofNat (bit % 8)) &&& 1 != 0

/-! ## Points -/

/-- The identity of the curve in extended coordinates: zero and one, with scale one. -/
def identity : Result ExtendedPoint := do
  let z ← zero
  let o ← one
  return ⟨z, o, o, z⟩

/-- Extended coordinates of an affine pair, with scale one and the product as the fourth. -/
def makeAffinePoint (x y : BigInt) : Result ExtendedPoint := do
  let z ← one
  let t ← fieldMultiply x y
  return ⟨x, y, z, t⟩

/-- The complete addition. There is no case for equal or opposite points. -/
def pointAdd (lhs rhs : ExtendedPoint) : Result ExtendedPoint := do
  let y1MinusX1 ← fieldSubtract lhs.y lhs.x
  let y2MinusX2 ← fieldSubtract rhs.y rhs.x
  let y1PlusX1 ← fieldAdd lhs.y lhs.x
  let y2PlusX2 ← fieldAdd rhs.y rhs.x
  let d ← BigInt.fromBeBytes curveDBytes
  let twoD ← fieldAdd d d
  let twoZ1 ← fieldAdd lhs.z lhs.z
  let a ← fieldMultiply y1MinusX1 y2MinusX2
  let b ← fieldMultiply y1PlusX1 y2PlusX2
  let c0 ← fieldMultiply lhs.t rhs.t
  let d0 ← fieldMultiply twoZ1 rhs.z
  let c ← fieldMultiply c0 twoD
  let e ← fieldSubtract b a
  let f ← fieldSubtract d0 c
  let g ← fieldAdd d0 c
  let h ← fieldAdd b a
  let x3 ← fieldMultiply e f
  let y3 ← fieldMultiply g h
  let t3 ← fieldMultiply e h
  let z3 ← fieldMultiply f g
  return ⟨x3, y3, z3, t3⟩

/-- One round of the multiplication: the result so far, and the addend of the round. -/
def scalarRound (scalar : List UInt8) (bit : ℕ) (state : ExtendedPoint × ExtendedPoint) :
    Result (ExtendedPoint × ExtendedPoint) := do
  let result ← if scalarBit scalar bit then pointAdd state.1 state.2 else .ok state.1
  let doubled ← pointAdd state.2 state.2
  return (result, doubled)

/-- Double and add from the lowest bit, over all the bits of the scalar. -/
def scalarMultiply (scalar : List UInt8) (point : ExtendedPoint) : Result ExtendedPoint := do
  let start ← identity
  let (result, _) ← Loops.loopUpM (scalarRound scalar) (scalar.length * 8) (start, point)
  return result

/-- The comparison of two points whatever their scales are, by cross products of their coordinates.
-/
def pointsEqual (lhs rhs : ExtendedPoint) : Result Bool := do
  let leftX ← fieldMultiply lhs.x rhs.z
  let rightX ← fieldMultiply rhs.x lhs.z
  let leftY ← fieldMultiply lhs.y rhs.z
  let rightY ← fieldMultiply rhs.y lhs.z
  return decide (leftX.compare rightX = 0) && decide (leftY.compare rightY = 0)

/-! ## Decoding and encoding -/

/-- A root of `x2`: the power, or the power times a root of `-1`. The check after the correction
decides whether there is one. -/
def squareRoot (x2 : BigInt) : Result BigInt := do
  let p ← fieldModulus
  let exponent ← BigInt.fromBeBytes sqrtExponentBytes
  let x ← BigInt.modExp x2 exponent p
  -- The power squares to `x2` or to its negative, if there is a root; the negative is corrected
  -- below.
  let check ← fieldSquare x
  if check.compare x2 ≠ 0 then do
    let sqrtMinusOne ← BigInt.fromBeBytes sqrtMinusOneBytes
    let corrected ← fieldMultiply x sqrtMinusOne
    let check ← fieldSquare corrected
    require (decide (check.compare x2 = 0))
      (ed25519Error .invalidKey "Ed25519 point is not on the curve")
    return corrected
  else return x

/-- The root of the given parity: `x` or its negative. -/
def withParity (x : BigInt) (xOdd : Bool) : Result BigInt := do
  require (!(x.isZero && xOdd))
    (ed25519Error .invalidKey "Ed25519 point has invalid x parity")
  let p ← fieldModulus
  if isOdd x != xOdd then fieldSubtract p x else return x

/-- The point of 32 bytes: the second coordinate must be reduced, its equation must have a root, and
the top bit says which. -/
def decodePoint (encoded : List UInt8) : Result ExtendedPoint := do
  require (encoded.length == encodedPointSize)
    (ed25519Error .invalidKey "Ed25519 public key must be 32 bytes")
  let xOdd := encoded.getD 31 0 &&& 0x80 != 0
  let yBytes := encoded.set 31 (encoded.getD 31 0 &&& 0x7F)
  let y ← fromLeBytes yBytes
  let p ← fieldModulus
  require (decide (y.compare p < 0))
    (ed25519Error .invalidKey "Ed25519 point y-coordinate is not canonical")
  let y2 ← fieldSquare y
  let oneValue ← one
  let d ← BigInt.fromBeBytes curveDBytes
  let u ← fieldSubtract y2 oneValue
  let dy2 ← fieldMultiply d y2
  let v ← fieldAdd dy2 oneValue
  let vInverse ← fieldInverse v
  let x2 ← fieldMultiply u vInverse
  let x ← squareRoot x2
  let x ← withParity x xOdd
  makeAffinePoint x y

/-- The scalar of a seed: the low three bits and the top bit are cleared, the second highest is set.
-/
def clampScalar (scalar : List UInt8) : List UInt8 :=
  ((scalar.modify 0 (· &&& 248)).modify 31 (· &&& 63)).modify 31 (· ||| 64)

/-- The bytes of a point, after an inversion of the scale. -/
def encodePoint (point : ExtendedPoint) : Result ByteBuffer := do
  let zInverse ← fieldInverse point.z
  let x ← fieldMultiply point.x zInverse
  let y ← fieldMultiply point.y zInverse
  let encoded ← toFixedLeBytes y encodedPointSize
  return if isOdd x then encoded.modify 31 (· ||| 0x80) else encoded

/-! ## Signatures -/

/-- The digest of byte strings one after the other, in one context. -/
def sha512Spans (spans : List (List UInt8)) : Result ByteBuffer := do
  let context ← spans.foldlM Sha512Context.update {}
  let (digest, _) ← context.final
  return digest

/-- The digest of one byte string, and of two and three of them, in one computation. -/
def sha512 (input : List UInt8) : Result ByteBuffer :=
  sha512Spans [input]

def sha512Two (first second : List UInt8) : Result ByteBuffer :=
  sha512Spans [first, second]

def sha512Three (first second third : List UInt8) : Result ByteBuffer :=
  sha512Spans [first, second, third]

/-- Signing with a seed. The public key is computed on the way and is not an argument. -/
def signEd25519Seed (seed message : List UInt8) : Result ByteBuffer := do
  require (seed.length == encodedPointSize)
    (ed25519Error .invalidKey "Ed25519 private seed must be 32 bytes")
  let digest ← sha512 seed
  require (digest.length == 64)
    (ed25519Error .internalError "SHA-512 digest must be 64 bytes")
  -- One half of the digest is the scalar, the other is hashed with the message into the nonce.
  let scalarBytes := clampScalar (digest.take 32)
  let base ← decodePoint basePointBytes
  let publicPoint ← scalarMultiply scalarBytes base
  let publicKey ← encodePoint publicPoint
  let prefixBytes := (digest.drop 32).take 32
  let rDigest ← sha512Two prefixBytes message
  let r ← reduceModOrder rDigest
  let rBytes ← toFixedLeBytes r 32
  let rPoint ← scalarMultiply rBytes base
  let rEncoded ← encodePoint rPoint
  let kDigest ← sha512Three rEncoded publicKey message
  let k ← reduceModOrder kDigest
  -- The clamped scalar goes into the product as it is, and the product is reduced.
  let a ← fromLeBytes scalarBytes
  let kTimesA ← multiplyModOrder k a
  let s ← addModOrder r kTimesA
  let sBytes ← toFixedLeBytes s 32
  return rEncoded ++ sBytes

/-- The check of an imported public key: it must decode. -/
def validateEd25519PublicKey (publicKey : List UInt8) : Result Unit := do
  let _ ← decodePoint publicKey
  return ()

/-- Verification. A signature of the wrong length, with a scalar that is not canonical or with a
commitment that does not decode is invalid; a public key that does not decode is a failure. -/
def verifyEd25519 (publicKey signature message : List UInt8) : Result Bool := do
  require (publicKey.length == encodedPointSize)
    (ed25519Error .invalidKey "Ed25519 public key must be 32 bytes")
  -- A malformed signature is invalid, while a malformed key is an error.
  if signature.length ≠ signatureSize then return false
  else
    let sCanonical ← scalarIsCanonical ((signature.drop 32).take 32)
    if ¬sCanonical then return false
    else
      let publicPoint ← decodePoint publicKey
      match decodePoint (signature.take 32) with
      | .error _ => return false
      | .ok rPoint =>
          let digest ← sha512Three (signature.take 32) publicKey message
          let h ← reduceModOrder digest
          let hBytes ← toFixedLeBytes h 32
          let base ← decodePoint basePointBytes
          let left ← scalarMultiply ((signature.drop 32).take 32) base
          let hA ← scalarMultiply hBytes publicPoint
          let right ← pointAdd rPoint hA
          pointsEqual left right

/-! ## The operations on field elements -/

open Ed25519Curve

/-- The representation of a coordinate: its reduced integer, which is the only one below the
modulus. -/
def ofField (v : Coordinate) : BigInt :=
  BigInt.ofNat v.val

/-- The residue of an integer, reduced or not, as an element of the field. -/
def toField (x : BigInt) : Coordinate :=
  (x.toNat : Coordinate)

@[simp] lemma toNat_ofField (v : Coordinate) : (ofField v).toNat = v.val :=
  BigInt.toNat_ofNat _

@[simp] lemma toField_ofField (v : Coordinate) : toField (ofField v) = v := by
  rw [toField, toNat_ofField, ZMod.natCast_zmod_val]

lemma eq_ofField {x : BigInt} (h : x.toNat < p) : x = ofField (toField x) := by
  refine BigInt.ext_toNat ?_
  rw [toNat_ofField, toField, ZMod.val_cast_of_lt h]

lemma fromBeBytes_of_value {bytes : List UInt8} {k : ℕ} (h : beValue bytes = k) :
    BigInt.fromBeBytes bytes = .ok (BigInt.ofNat k) := by
  rw [BigInt.fromBeBytes_eq, h]

/-- The constants of the source are those of the curve, the encoded base point included. -/
lemma constant_values : beValue fieldModulusBytes = p ∧ beValue groupOrderBytes = order ∧
    beValue curveDBytes = d.val ∧ beValue sqrtMinusOneBytes = sqrtMinusOne.val ∧
    beValue sqrtExponentBytes = sqrtExponent ∧ beValue inverseExponentBytes = p - 2 ∧
    beValue [0] = (0 : Coordinate).val ∧ beValue [1] = (1 : Coordinate).val ∧
    basePointBytes = encoding B := by
  decide +kernel

lemma fieldModulus_eq : fieldModulus = .ok (BigInt.ofNat p) :=
  fromBeBytes_of_value constant_values.1

lemma groupOrder_eq : groupOrder = .ok (BigInt.ofNat order) :=
  fromBeBytes_of_value constant_values.2.1

lemma curveD_eq : BigInt.fromBeBytes curveDBytes = .ok (ofField d) :=
  fromBeBytes_of_value constant_values.2.2.1

lemma sqrtMinusOne_eq : BigInt.fromBeBytes sqrtMinusOneBytes = .ok (ofField sqrtMinusOne) :=
  fromBeBytes_of_value constant_values.2.2.2.1

lemma sqrtExponent_eq :
    BigInt.fromBeBytes sqrtExponentBytes = .ok (BigInt.ofNat sqrtExponent) :=
  fromBeBytes_of_value constant_values.2.2.2.2.1

lemma inverseExponent_eq : BigInt.fromBeBytes inverseExponentBytes = .ok (BigInt.ofNat (p - 2)) :=
  fromBeBytes_of_value constant_values.2.2.2.2.2.1

lemma zero_eq : zero = .ok (ofField 0) :=
  fromBeBytes_of_value constant_values.2.2.2.2.2.2.1

lemma one_eq : one = .ok (ofField 1) :=
  fromBeBytes_of_value constant_values.2.2.2.2.2.2.2.1

lemma basePointBytes_eq : basePointBytes = encoding B :=
  constant_values.2.2.2.2.2.2.2.2

lemma modulus_ne_zero : (BigInt.ofNat p).toNat ≠ 0 := by
  rw [BigInt.toNat_ofNat]
  exact prime_p.ne_zero

lemma order_ne_zero : (BigInt.ofNat order).toNat ≠ 0 := by
  rw [BigInt.toNat_ofNat]
  exact prime_order.ne_zero

lemma ofNat_mod_eq_ofField {k : ℕ} {v : Coordinate} (h : (k : Coordinate) = v) :
    BigInt.ofNat (k % p) = ofField v := by
  rw [ofField, ← h, ZMod.val_natCast]

/-- The field operations on any integers are those of the field on residues, and never fail. -/
@[simp] lemma fieldAdd_eq (x y : BigInt) :
    fieldAdd x y = .ok (ofField (toField x + toField y)) := by
  rw [fieldAdd, fieldModulus_eq, ok_bind, BigInt.modAdd_eq _ _ modulus_ne_zero,
    BigInt.toNat_ofNat, ofNat_mod_eq_ofField (Nat.cast_add _ _)]
  rfl

@[simp] lemma fieldSubtract_eq (x y : BigInt) :
    fieldSubtract x y = .ok (ofField (toField x - toField y)) := by
  have hcast : ((x.toNat % p + (p - y.toNat % p) : ℕ) : Coordinate) = toField x - toField y := by
    have hle := (Nat.mod_lt y.toNat prime_p.pos).le
    rw [Nat.cast_add, Nat.cast_sub hle, ZMod.natCast_mod, ZMod.natCast_mod, ZMod.natCast_self,
      zero_sub, ← sub_eq_add_neg]
    rfl
  rw [fieldSubtract, fieldModulus_eq, ok_bind, BigInt.modSubtract_eq _ _ modulus_ne_zero,
    BigInt.toNat_ofNat, ofNat_mod_eq_ofField hcast]

@[simp] lemma fieldMultiply_eq (x y : BigInt) :
    fieldMultiply x y = .ok (ofField (toField x * toField y)) := by
  rw [fieldMultiply, fieldModulus_eq, ok_bind, BigInt.modMultiply_eq _ _ modulus_ne_zero,
    BigInt.toNat_ofNat, ofNat_mod_eq_ofField (Nat.cast_mul _ _)]
  rfl

@[simp] lemma fieldInverse_eq (x : BigInt) :
    fieldInverse x = .ok (ofField (toField x)⁻¹) := by
  have hcast : ((x.toNat ^ (p - 2) : ℕ) : Coordinate) = (toField x)⁻¹ := by
    rw [Nat.cast_pow, ← inverse_eq_pow]
    rfl
  rw [fieldInverse, fieldModulus_eq, ok_bind, inverseExponent_eq, ok_bind,
    BigInt.modExp_eq _ _ modulus_ne_zero, BigInt.toNat_ofNat, BigInt.toNat_ofNat,
    ofNat_mod_eq_ofField hcast]

lemma compare_ofField (v w : Coordinate) : (ofField v).compare (ofField w) = 0 ↔ v = w := by
  rw [BigInt.compare_eq_zero_iff, toNat_ofField, toNat_ofField]
  exact (ZMod.val_injective p).eq_iff

lemma isZero_ofField (v : Coordinate) : (ofField v).isZero = decide (v = 0) := by
  rw [Bool.eq_iff_iff, BigInt.isZero_iff, toNat_ofField, ZMod.val_eq_zero, decide_eq_true_iff]

/-! ## Points in extended coordinates -/

/-- The representation of extended coordinates, each by its reduced integer. -/
def lift (E : Extended Coordinate) : ExtendedPoint :=
  ⟨ofField E.x, ofField E.y, ofField E.z, ofField E.t⟩

/-- The residues of the coordinates. The statements about points are about these. -/
def lower (point : ExtendedPoint) : Extended Coordinate :=
  ⟨toField point.x, toField point.y, toField point.z, toField point.t⟩

@[simp] lemma lower_lift (E : Extended Coordinate) : lower (lift E) = E := by
  simp [lower, lift]

/-- The representation invariant: reduced coordinates of a point of the curve. -/
structure ExtendedPoint.Valid (point : ExtendedPoint) : Prop where
  x_lt : point.x.toNat < p
  y_lt : point.y.toNat < p
  z_lt : point.z.toNat < p
  t_lt : point.t.toNat < p
  coordinates : (lower point).Valid d

lemma ExtendedPoint.Valid.eq_lift {point : ExtendedPoint} (h : point.Valid) :
    point = lift (lower point) := by
  obtain ⟨x, y, z, t⟩ := point
  rw [lift, lower, ← eq_ofField h.x_lt, ← eq_ofField h.y_lt, ← eq_ofField h.z_lt,
    ← eq_ofField h.t_lt]

lemma valid_lift {E : Extended Coordinate} {A : Ed25519Curve.Point} (h : E.Represents A) :
    (lift E).Valid where
  x_lt := (toNat_ofField E.x).trans_lt (ZMod.val_lt E.x)
  y_lt := (toNat_ofField E.y).trans_lt (ZMod.val_lt E.y)
  z_lt := (toNat_ofField E.z).trans_lt (ZMod.val_lt E.z)
  t_lt := (toNat_ofField E.t).trans_lt (ZMod.val_lt E.t)
  coordinates := by
    rw [lower_lift]
    exact (Extended.valid_iff_exists_represents E).mpr ⟨A, h⟩

lemma identity_eq : identity = .ok (lift Extended.identity) := by
  rw [identity, zero_eq, one_eq]
  rfl

/-- An affine pair is the representation of its extended coordinates. -/
lemma makeAffinePoint_ofField (x y : Coordinate) :
    makeAffinePoint (ofField x) (ofField y) = .ok (lift (Extended.ofAffine x y)) := by
  rw [makeAffinePoint, one_eq, ok_bind, fieldMultiply_eq, ok_bind, toField_ofField,
    toField_ofField]
  rfl

/-- Addition is that of `TwistedEdwards`, on any coordinates: nothing is assumed about the curve. -/
theorem pointAdd_eq (lhs rhs : ExtendedPoint) :
    pointAdd lhs rhs = .ok (lift ((lower lhs).add d (lower rhs))) := by
  unfold pointAdd
  simp only [fieldAdd_eq, fieldSubtract_eq, fieldMultiply_eq, curveD_eq, ok_bind, toField_ofField]
  rfl

/-- A bit of a scalar is one of its little-endian value, past the end as well. -/
lemma scalarBit_eq (scalar : List UInt8) (bit : ℕ) :
    scalarBit scalar bit = (leValue scalar).testBit bit := by
  rw [leValue_testBit, scalarBit, byte_bit _ (Nat.mod_lt bit (by norm_num))]
  by_cases h : bit / 8 < scalar.length
  · rw [decide_eq_true h, Bool.true_and]
  · rw [decide_eq_false h, Bool.false_and, List.getD_eq_default _ _ (not_lt.mp h)]
    simp

/-- A round of the code is a round of the multiplication. -/
lemma scalarRound_eq (scalar : List UInt8) (bit : ℕ) (E : Extended Coordinate)
    (addend : ExtendedPoint) :
    scalarRound scalar bit (lift E, addend) =
      .ok (lift (Extended.multiplyRound d (leValue scalar) bit (E, lower addend)).1,
        lift (Extended.multiplyRound d (leValue scalar) bit (E, lower addend)).2) := by
  rw [scalarRound, scalarBit_eq, Extended.multiplyRound]
  dsimp only
  cases (leValue scalar).testBit bit with
  | true => rw [if_pos rfl, if_pos rfl, pointAdd_eq, pointAdd_eq, ok_bind, ok_bind, lower_lift]; rfl
  | false => rw [if_neg Bool.false_ne_true, if_neg Bool.false_ne_true, pointAdd_eq, ok_bind]; rfl

/-- The multiplication never fails, on any coordinates and for scalars of any length. -/
theorem scalarMultiply_eq (scalar : List UInt8) (point : ExtendedPoint) :
    scalarMultiply scalar point =
      .ok (lift (Extended.multiply d (scalar.length * 8) (leValue scalar) (lower point))) := by
  have hrun : ∀ rounds, ∃ addend,
      Loops.loopUpM (scalarRound scalar) rounds (lift Extended.identity, point) =
        .ok (lift (Loops.loopUp (Extended.multiplyRound d (leValue scalar)) rounds
          (Extended.identity, lower point)).1, addend) ∧
      lower addend = (Loops.loopUp (Extended.multiplyRound d (leValue scalar)) rounds
        (Extended.identity, lower point)).2 := by
    intro rounds
    induction rounds with
    | zero => exact ⟨point, rfl, rfl⟩
    | succ rounds ih =>
        obtain ⟨addend, hloop, haddend⟩ := ih
        refine ⟨_, ?_, lower_lift _⟩
        rw [Loops.loopUpM, hloop, ok_bind, scalarRound_eq, haddend]
        rfl
  obtain ⟨addend, hloop, -⟩ := hrun (scalar.length * 8)
  rw [scalarMultiply, identity_eq, ok_bind, hloop]
  rfl

/-- The comparison decides the equality of the cross products, on any coordinates. -/
theorem pointsEqual_eq (lhs rhs : ExtendedPoint) :
    pointsEqual lhs rhs = .ok (decide ((lower lhs).x * (lower rhs).z =
        (lower rhs).x * (lower lhs).z ∧
      (lower lhs).y * (lower rhs).z = (lower rhs).y * (lower lhs).z)) := by
  simp only [pointsEqual, fieldMultiply_eq, ok_bind, compare_ofField, Bool.decide_and]
  rfl

/-! ## Bytes -/

lemma fromLeBytes_eq (bytes : List UInt8) :
    fromLeBytes bytes = .ok (BigInt.ofNat (leValue bytes)) := by
  rw [fromLeBytes, BigInt.fromBeBytes_eq, beValue_reverse]

lemma isOdd_eq (x : BigInt) : isOdd x = decide (x.toNat % 2 = 1) := by
  have hlast : ∃ bytes byte, x.toBeBytes = bytes ++ [byte] ∧ byte.toNat % 2 = x.toNat % 2 := by
    rw [BigInt.toBeBytes_eq, minBeBytes]
    by_cases hx : x.toNat = 0
    · exact ⟨[], 0, by rw [if_pos hx]; rfl, by rw [hx]; rfl⟩
    · rw [if_neg hx, byteLength_div _ hx, beBytes]
      refine ⟨_, _, rfl, ?_⟩
      rw [UInt8.toNat_ofNat']
      omega
  obtain ⟨bytes, byte, hbytes, hparity⟩ := hlast
  have hbit := byte_bit byte (show 0 < 8 by norm_num)
  rw [Nat.testBit_zero, hparity] at hbit
  rw [isOdd, hbytes, List.getLast?_append, ← hbit]
  rfl

/-- A number that fits is written in its little-endian bytes. -/
lemma toFixedLeBytes_eq {x : BigInt} {size : ℕ} (hsize : 0 < size) (h : x.toNat < 256 ^ size) :
    toFixedLeBytes x size = .ok (leBytes size x.toNat) := by
  have hlength : (minBeBytes x.toNat).length ≤ size := (length_minBeBytes_le_iff hsize).mpr h
  have hbytes : (minBeBytes x.toNat).reverse ++
      List.replicate (size - (minBeBytes x.toNat).length) 0 = leBytes size x.toNat := by
    rw [leBytes, ← replicate_append_minBeBytes hlength, List.reverse_append,
      List.reverse_replicate]
  rw [toFixedLeBytes, BigInt.toBeBytes_eq, if_neg (by omega),
    List.take_of_length_le (by rwa [List.length_reverse]), hbytes]

/-- The last byte of 32, apart from those in front of it. The top bit is in this byte. -/
lemma exists_last {bytes : List UInt8} (h : bytes.length = 32) :
    ∃ front last, bytes = front ++ [last] ∧ front.length = 31 := by
  have hne : bytes ≠ [] := List.ne_nil_of_length_eq_add_one h
  refine ⟨bytes.dropLast, bytes.getLast hne, (List.dropLast_append_getLast hne).symm, ?_⟩
  rw [List.length_dropLast, h]

lemma leValue_last (front : List UInt8) (last : UInt8) (h : front.length = 31) :
    leValue (front ++ [last]) = leValue front + 2 ^ 248 * last.toNat := by
  rw [leValue_append, h]
  norm_num

/-- Setting the top bit of 32 bytes adds `2 ^ 255`. -/
lemma leValue_setTop {bytes : List UInt8} (hlength : bytes.length = 32)
    (h : leValue bytes < 2 ^ 255) :
    leValue (bytes.modify 31 (· ||| 0x80)) = leValue bytes + 2 ^ 255 := by
  obtain ⟨front, last, rfl, hfront⟩ := exists_last hlength
  rw [leValue_last _ _ hfront] at h
  have hlast : last.toNat < 2 ^ 7 := by omega
  have hor : (last ||| 0x80).toNat = last.toNat + 2 ^ 7 := by
    have hadd := Nat.two_pow_add_eq_or_of_lt hlast 1
    rw [UInt8.toNat_or, Nat.or_comm]
    exact hadd.symm.trans (Nat.add_comm _ _)
  have hmodify : (front ++ [last]).modify 31 (· ||| 0x80) = front ++ [last ||| 0x80] := by
    rw [← hfront, List.modify_eq_take_cons_drop (by simp)]
    simp
  rw [hmodify, leValue_last _ _ hfront, leValue_last _ _ hfront, hor]
  omega

lemma leValue_clearTop {bytes : List UInt8} (hlength : bytes.length = 32) :
    leValue (bytes.set 31 (bytes.getD 31 0 &&& 0x7F)) = leValue bytes % 2 ^ 255 ∧
      (bytes.getD 31 0 &&& 0x80 != 0) = decide (leValue bytes / 2 ^ 255 = 1) := by
  obtain ⟨front, last, rfl, hfront⟩ := exists_last hlength
  have hvalue := leValue_lt front
  rw [hfront] at hvalue
  have hlast : last.toNat < 256 := last.toNat_lt
  have hget : (front ++ [last]).getD 31 0 = last := by
    rw [← hfront, List.getD_append_right _ _ _ _ le_rfl, Nat.sub_self]
    rfl
  have hset : (front ++ [last]).set 31 (last &&& 0x7F) = front ++ [last &&& 0x7F] := by
    rw [List.set_append_right _ _ hfront.le, hfront]
    rfl
  have hclear : (last &&& 0x7F).toNat = last.toNat % 2 ^ 7 := by
    rw [UInt8.toNat_and]
    exact Nat.and_two_pow_sub_one_eq_mod _ 7
  have htop : (last &&& 0x80).toNat = (last.toNat.testBit 7).toNat * 2 ^ 7 := by
    rw [UInt8.toNat_and]
    exact Nat.and_two_pow _ 7
  rw [hget, hset, leValue_last _ _ hfront, leValue_last _ _ hfront, hclear]
  constructor
  · omega
  · rw [Bool.eq_iff_iff, bne_iff_ne, Ne, ← UInt8.toNat_inj, htop,
      Nat.testBit_eq_decide_div_mod_eq, decide_eq_true_iff]
    by_cases h : last.toNat / 2 ^ 7 % 2 = 1
    · rw [decide_eq_true h]
      simp
      omega
    · rw [decide_eq_false h]
      simp
      omega

/-! ## Decoding and encoding points -/

/-- The root is found whenever there is one, and otherwise the error of the source is returned. -/
lemma squareRoot_spec (v : Coordinate) :
    (∃ x, squareRoot (ofField v) = .ok (ofField x) ∧ x * x = v) ∨
      (∀ s, s * s ≠ v) ∧ squareRoot (ofField v) =
        .error (ed25519Error .invalidKey "Ed25519 point is not on the curve") := by
  have hpower : BigInt.modExp (ofField v) (BigInt.ofNat sqrtExponent) (BigInt.ofNat p) =
      .ok (ofField (root v)) := by
    rw [BigInt.modExp_eq _ _ modulus_ne_zero, toNat_ofField, BigInt.toNat_ofNat,
      BigInt.toNat_ofNat, ← val_pow]
    rfl
  unfold squareRoot
  simp only [fieldModulus_eq, sqrtExponent_eq, sqrtMinusOne_eq, hpower, fieldSquare,
    fieldMultiply_eq, ok_bind, toField_ofField, ne_eq, compare_ofField, ite_not]
  by_cases hroot : root v * root v = v
  · rw [if_pos hroot]
    exact Or.inl ⟨root v, rfl, hroot⟩
  · rw [if_neg hroot]
    by_cases hcorrected : root v * sqrtMinusOne * (root v * sqrtMinusOne) = v
    · rw [decide_eq_true hcorrected]
      exact Or.inl ⟨_, rfl, hcorrected⟩
    · rw [decide_eq_false hcorrected]
      refine Or.inr ⟨fun s hs => ?_, rfl⟩
      rcases root_of_square hs with h | h
      · exact hroot h
      · exact hcorrected h

/-- The root of the given parity, or the error for a zero that should be odd. -/
lemma withParity_ofField (x : Coordinate) (xOdd : Bool) :
    withParity (ofField x) xOdd =
      if x = 0 ∧ xOdd = true then
        .error (ed25519Error .invalidKey "Ed25519 point has invalid x parity")
      else .ok (ofField (if decide (x.val % 2 = 1) = xOdd then x else -x)) := by
  have hnegated : toField (BigInt.ofNat p) - x = -x := by
    rw [toField, BigInt.toNat_ofNat, ZMod.natCast_self, zero_sub]
  unfold withParity
  simp only [fieldModulus_eq, fieldSubtract_eq, isZero_ofField, isOdd_eq, toNat_ofField,
    toField_ofField, hnegated, ok_bind]
  by_cases hzero : x = 0 ∧ xOdd = true
  · rw [if_pos hzero, hzero.2, decide_eq_true hzero.1]
    rfl
  · have hflag : (decide (x = 0) && xOdd) = false := by
      rw [← Bool.not_eq_true, Bool.and_eq_true, decide_eq_true_iff]
      exact hzero
    rw [if_neg hzero, hflag, Bool.not_false, require_true, ok_bind]
    by_cases hparity : decide (x.val % 2 = 1) = xOdd
    · rw [if_pos hparity, hparity, bne_self_eq_false, if_neg Bool.false_ne_true]
      rfl
    · rw [if_neg hparity, if_pos (bne_iff_ne.mpr hparity)]

/-- Of the two roots the one of the given parity is taken, if there is one. -/
lemma withParity_eq_ok_iff (x : Coordinate) (xOdd : Bool) (r : BigInt) :
    withParity (ofField x) xOdd = .ok r ↔
      ∃ x' : Coordinate, r = ofField x' ∧ x' * x' = x * x ∧ decide (x'.val % 2 = 1) = xOdd := by
  rw [withParity_ofField]
  -- Zero is its own negative: it has one parity, and the source refuses the other.
  by_cases hzero : x = 0
  · subst hzero
    have hval : decide ((0 : Coordinate).val % 2 = 1) = false := by
      rw [ZMod.val_zero]
      rfl
    cases xOdd with
    | true =>
        rw [if_pos ⟨rfl, rfl⟩]
        refine iff_of_false nofun ?_
        rintro ⟨x', -, hx', hparity⟩
        rw [mul_zero, mul_self_eq_zero] at hx'
        rw [hx', hval] at hparity
        exact Bool.false_ne_true hparity
    | false =>
        rw [if_neg (fun h => Bool.false_ne_true h.2), if_pos hval]
        constructor
        · intro h
          exact ⟨0, (Except.ok.inj h).symm, rfl, hval⟩
        · rintro ⟨x', rfl, hx', -⟩
          rw [mul_zero, mul_self_eq_zero] at hx'
          rw [hx']
  -- Elsewhere a root and its negative have different parities, and the sign chooses between them.
  · have hneg : decide ((-x).val % 2 = 1) = !decide (x.val % 2 = 1) := by
      rw [parity_neg hzero, ← decide_not, decide_eq_decide]
      omega
    rw [if_neg (fun h => hzero h.1)]
    constructor
    · intro h
      refine ⟨_, (Except.ok.inj h).symm, ?_, ?_⟩
      · split <;> ring
      · split
        · next hparity => exact hparity
        · next hparity =>
            rw [hneg]
            exact Bool.not_eq.mpr hparity
    · rintro ⟨x', rfl, hx', hparity⟩
      rcases mul_self_eq_mul_self_iff.mp hx' with h | h
      · rw [← h, if_pos hparity]
      · rw [if_neg, h]
        intro hx
        rw [h, hneg, hx] at hparity
        exact Bool.not_ne_self xOdd hparity

lemma length_eq_encodedPointSize {encoded : List UInt8} (hlength : encoded.length = 32) :
    (encoded.length == encodedPointSize) = true :=
  beq_iff_eq.mpr hlength

/-- The decoding of 32 bytes with a reduced second coordinate. -/
lemma decodePoint_reduced {encoded : List UInt8} (hlength : encoded.length = 32)
    (hlt : leValue encoded % 2 ^ 255 < p) {y : Coordinate}
    (hy : leValue encoded % 2 ^ 255 = y.val) :
    decodePoint encoded =
      squareRoot (ofField ((y * y - 1) * (d * (y * y) + 1)⁻¹)) >>= fun x =>
        withParity x (decide (leValue encoded / 2 ^ 255 = 1)) >>= fun x =>
          makeAffinePoint x (ofField y) := by
  obtain ⟨hvalue, htop⟩ := leValue_clearTop hlength
  have hcanonical : decide ((BigInt.ofNat (leValue encoded % 2 ^ 255)).compare
      (BigInt.ofNat p) < 0) = true := by
    rw [decide_eq_true_iff, BigInt.compare_neg_iff, BigInt.toNat_ofNat, BigInt.toNat_ofNat]
    exact hlt
  unfold decodePoint
  rw [length_eq_encodedPointSize hlength, require_true, ok_bind]
  dsimp only
  rw [fromLeBytes_eq, hvalue, htop, ok_bind, fieldModulus_eq, ok_bind, hcanonical, require_true,
    ok_bind, hy]
  have hof : BigInt.ofNat y.val = ofField y := rfl
  rw [hof]
  simp only [fieldSquare, fieldMultiply_eq, fieldSubtract_eq, fieldAdd_eq, fieldInverse_eq, one_eq,
    curveD_eq, ok_bind, toField_ofField]

lemma decodePoint_of_le {encoded : List UInt8} (hlength : encoded.length = 32)
    (hle : p ≤ leValue encoded % 2 ^ 255) :
    decodePoint encoded =
      .error (ed25519Error .invalidKey "Ed25519 point y-coordinate is not canonical") := by
  have hcanonical : decide ((BigInt.ofNat (leValue encoded % 2 ^ 255)).compare
      (BigInt.ofNat p) < 0) = false := by
    rw [decide_eq_false_iff_not, BigInt.compare_neg_iff, BigInt.toNat_ofNat, BigInt.toNat_ofNat]
    exact not_lt.mpr hle
  unfold decodePoint
  rw [length_eq_encodedPointSize hlength, require_true, ok_bind]
  dsimp only
  rw [fromLeBytes_eq, (leValue_clearTop hlength).1, ok_bind, fieldModulus_eq, ok_bind, hcanonical]
  rfl

lemma decodePoint_of_length {encoded : List UInt8} (h : encoded.length ≠ 32) :
    decodePoint encoded =
      .error (ed25519Error .invalidKey "Ed25519 public key must be 32 bytes") := by
  have hsize : (encoded.length == encodedPointSize) = false := by
    rw [beq_eq_false_iff_ne]
    exact h
  unfold decodePoint
  rw [hsize]
  rfl

/-- Exactly the encodings of points are decoded, each as the point it encodes. -/
theorem decodePoint_eq_ok_iff (encoded : List UInt8) (point : ExtendedPoint) :
    decodePoint encoded = .ok point ↔
      ∃ A, encoded = encoding A ∧ point = lift (Extended.ofAffine A.x A.y) := by
  constructor
  · intro h
    by_cases hlength : encoded.length = 32
    · by_cases hlt : leValue encoded % 2 ^ 255 < p
      · have hy := (ZMod.val_cast_of_lt hlt).symm
        set y : Coordinate := ((leValue encoded % 2 ^ 255 : ℕ) : Coordinate)
        rw [decodePoint_reduced hlength hlt hy] at h
        rcases squareRoot_spec ((y * y - 1) * (d * (y * y) + 1)⁻¹) with ⟨x, hx, hsquare⟩ | hnone
        · rw [hx, ok_bind, Loops.bind_eq_ok] at h
          obtain ⟨r, hr, hpoint⟩ := h
          obtain ⟨x', rfl, hsquare', hparity⟩ := (withParity_eq_ok_iff _ _ _).mp hr
          rw [makeAffinePoint_ofField] at hpoint
          refine ⟨⟨x', y, (onCurve_iff x' y).mpr (hsquare'.trans hsquare)⟩, ?_,
            (Except.ok.inj hpoint).symm⟩
          refine eq_encoding_iff.mpr ⟨hlength, hy, ?_⟩
          have hbound := leValue_lt encoded
          rw [hlength] at hbound
          rw [decide_eq_decide] at hparity
          dsimp only
          omega
        · rw [hnone.2] at h
          cases h
      · rw [decodePoint_of_le hlength (not_lt.mp hlt)] at h
        cases h
    · rw [decodePoint_of_length hlength] at h
      cases h
  · rintro ⟨A, hA, rfl⟩
    obtain ⟨hlength, hy, hx⟩ := eq_encoding_iff.mp hA
    have hlt : leValue encoded % 2 ^ 255 < p := by
      rw [hy]
      exact ZMod.val_lt A.y
    have hcurve := (onCurve_iff A.x A.y).mp A.onCurve
    rw [decodePoint_reduced hlength hlt hy]
    rcases squareRoot_spec ((A.y * A.y - 1) * (d * (A.y * A.y) + 1)⁻¹) with ⟨x, hroot, hsquare⟩ |
      hnone
    · have hparity : withParity (ofField x) (decide (leValue encoded / 2 ^ 255 = 1)) =
          .ok (ofField A.x) := by
        refine (withParity_eq_ok_iff _ _ _).mpr ⟨A.x, rfl, hcurve.trans hsquare.symm, ?_⟩
        rw [hx]
      rw [hroot, ok_bind, hparity, ok_bind, makeAffinePoint_ofField]
    · exact absurd hcurve (hnone.1 A.x)

/-- The encoding of a point is decoded to that point, with scale one. -/
@[simp] theorem decodePoint_encoding (A : Ed25519Curve.Point) :
    decodePoint (encoding A) = .ok (lift (Extended.ofAffine A.x A.y)) :=
  (decodePoint_eq_ok_iff _ _).mpr ⟨A, rfl, rfl⟩

/-- The encoding of any coordinates of a point, which need not be reduced. -/
theorem encodePoint_eq {point : ExtendedPoint} {A : Ed25519Curve.Point}
    (hz : toField point.z ≠ 0) (hx : toField point.x = A.x * toField point.z)
    (hy : toField point.y = A.y * toField point.z) :
    encodePoint point = .ok (encoding A) := by
  have hlt : (ofField A.y).toNat < 256 ^ encodedPointSize := by
    rw [toNat_ofField]
    exact (val_lt_two_pow A.y).trans (by decide)
  have hfixed := toFixedLeBytes_eq (show 0 < encodedPointSize by decide) hlt
  rw [toNat_ofField] at hfixed
  unfold encodePoint
  simp only [fieldInverse_eq, fieldMultiply_eq, ok_bind, toField_ofField, hx, hy,
    mul_inv_cancel_right₀ hz, hfixed, isOdd_eq, toNat_ofField]
  have hlength : (leBytes encodedPointSize A.y.val).length = 32 := length_leBytes _ _
  have hvalue : leValue (leBytes encodedPointSize A.y.val) = A.y.val :=
    leValue_leBytes (by rwa [toNat_ofField] at hlt)
  have htop := leValue_setTop hlength (by
    rw [hvalue]
    exact val_lt_two_pow A.y)
  have hbound := val_lt_two_pow A.y
  refine congrArg Except.ok (eq_encoding_iff.mpr ?_)
  by_cases hodd : A.x.val % 2 = 1
  · rw [decide_eq_true hodd, if_pos rfl, List.length_modify, htop, hvalue]
    exact ⟨hlength, by omega, by omega⟩
  · rw [decide_eq_false hodd, if_neg Bool.false_ne_true, hvalue]
    exact ⟨hlength, by omega, by omega⟩

/-- Whatever coordinates represent a point, its encoding is that of the point. -/
lemma encodePoint_lift {E : Extended Coordinate} {A : Ed25519Curve.Point} (h : E.Represents A) :
    encodePoint (lift E) = .ok (encoding A) := by
  refine encodePoint_eq ?_ ?_ ?_
  · exact (toField_ofField E.z).symm ▸ h.z_ne_zero
  · simp only [lift, toField_ofField, h.x_eq]
  · simp only [lift, toField_ofField, h.y_eq]

/-- The public keys that are accepted are the encodings of points. -/
theorem validateEd25519PublicKey_eq_ok_iff (publicKey : List UInt8) :
    validateEd25519PublicKey publicKey = .ok () ↔ ∃ A, publicKey = encoding A := by
  have hvalidate : validateEd25519PublicKey publicKey = .ok () ↔
      ∃ point, decodePoint publicKey = .ok point := by
    unfold validateEd25519PublicKey
    cases decodePoint publicKey with
    | error e => exact iff_of_false nofun nofun
    | ok point => exact iff_of_true rfl ⟨point, rfl⟩
  rw [hvalidate]
  constructor
  · rintro ⟨point, h⟩
    obtain ⟨A, hA, -⟩ := (decodePoint_eq_ok_iff _ _).mp h
    exact ⟨A, hA⟩
  · rintro ⟨A, rfl⟩
    exact ⟨_, decodePoint_encoding A⟩

/-! ## Digests and scalars -/

lemma sha512Spans_eq (spans : List (List UInt8)) :
    sha512Spans spans = .ok (sha512Digest spans.flatten) := by
  have hfold : ∀ (spans : List (List UInt8)) (context : Sha512Context) (message : List UInt8),
      context.After message → ∃ next,
        spans.foldlM Sha512Context.update context = .ok next ∧
          next.After (message ++ spans.flatten) := by
    intro spans
    induction spans with
    | nil =>
        intro context message h
        refine ⟨context, rfl, ?_⟩
        rwa [List.flatten_nil, List.append_nil]
    | cons span spans ih =>
        intro context message h
        obtain ⟨next, hnext, hafter⟩ := h.update span
        obtain ⟨last, hlast, hdone⟩ := ih next _ hafter
        refine ⟨last, ?_, ?_⟩
        · rw [List.foldlM_cons, hnext, ok_bind, hlast]
        · rwa [List.flatten_cons, ← List.append_assoc]
  obtain ⟨next, hnext, hafter⟩ := hfold spans {} [] Sha512Context.after_nil
  obtain ⟨closed, hclosed, -⟩ := hafter.final
  rw [sha512Spans, hnext, ok_bind, hclosed, List.nil_append]
  rfl

lemma sha512_eq (input : List UInt8) : sha512 input = .ok (sha512Digest input) := by
  rw [sha512, sha512Spans_eq, List.flatten_singleton]

lemma sha512Two_eq (first second : List UInt8) :
    sha512Two first second = .ok (sha512Digest (first ++ second)) := by
  rw [sha512Two, sha512Spans_eq, List.flatten_cons, List.flatten_singleton]

lemma sha512Three_eq (first second third : List UInt8) :
    sha512Three first second third = .ok (sha512Digest (first ++ second ++ third)) := by
  rw [sha512Three, sha512Spans_eq, List.flatten_cons, List.flatten_cons, List.flatten_singleton,
    List.append_assoc]

/-- A digest is reduced modulo the order, whatever its length. -/
lemma reduceModOrder_eq (bytes : List UInt8) :
    reduceModOrder bytes = .ok (BigInt.ofNat (leValue bytes % order)) := by
  rw [reduceModOrder, fromLeBytes_eq, ok_bind, groupOrder_eq, ok_bind, zero_eq, ok_bind,
    BigInt.modAdd_eq _ _ order_ne_zero, toNat_ofField, BigInt.toNat_ofNat, BigInt.toNat_ofNat,
    ZMod.val_zero, add_zero]

lemma multiplyModOrder_ofNat (m n : ℕ) :
    multiplyModOrder (BigInt.ofNat m) (BigInt.ofNat n) = .ok (BigInt.ofNat (m * n % order)) := by
  rw [multiplyModOrder, groupOrder_eq, ok_bind, BigInt.modMultiply_eq _ _ order_ne_zero,
    BigInt.toNat_ofNat, BigInt.toNat_ofNat, BigInt.toNat_ofNat]

lemma addModOrder_ofNat (m n : ℕ) :
    addModOrder (BigInt.ofNat m) (BigInt.ofNat n) = .ok (BigInt.ofNat ((m + n) % order)) := by
  rw [addModOrder, groupOrder_eq, ok_bind, BigInt.modAdd_eq _ _ order_ne_zero,
    BigInt.toNat_ofNat, BigInt.toNat_ofNat, BigInt.toNat_ofNat]

/-- The check of a scalar decides whether its value is below the order. -/
lemma scalarIsCanonical_eq (bytes : List UInt8) :
    scalarIsCanonical bytes = .ok (decide (leValue bytes < order)) := by
  rw [scalarIsCanonical, fromLeBytes_eq, ok_bind, groupOrder_eq, ok_bind]
  simp only [BigInt.compare_neg_iff, BigInt.toNat_ofNat]
  rfl

lemma toFixedLeBytes_scalar {k : ℕ} (h : k < order) :
    toFixedLeBytes (BigInt.ofNat k) 32 = .ok (leBytes 32 k) ∧ leValue (leBytes 32 k) = k := by
  have hlt : k < 256 ^ 32 := (h.trans order_lt).trans (by norm_num)
  constructor
  · rw [toFixedLeBytes_eq (by norm_num), BigInt.toNat_ofNat]
    rwa [BigInt.toNat_ofNat]
  · exact leValue_leBytes hlt

/-- The multiplication of a decoded point represents the multiple by the value of the scalar. -/
lemma scalarMultiply_represents (scalar : List UInt8) {E : Extended Coordinate}
    {A : Ed25519Curve.Point} (h : E.Represents A) :
    ∃ E' : Extended Coordinate, scalarMultiply scalar (lift E) = .ok (lift E') ∧
      E'.Represents (leValue scalar • A) := by
  have hlt : leValue scalar < 2 ^ (scalar.length * 8) := by
    have hbound := leValue_lt scalar
    rwa [show (256 : ℕ) = 2 ^ 8 by norm_num, ← pow_mul, mul_comm] at hbound
  refine ⟨_, scalarMultiply_eq scalar (lift E), ?_⟩
  rw [lower_lift]
  exact Extended.represents_multiply h hlt

/-! ## Signatures -/

/-- The secret scalar of a seed: the low half of its digest, after clamping. -/
def secretScalar (seed : List UInt8) : ℕ :=
  leValue (clampScalar ((sha512Digest seed).take 32))

/-- The nonce of a message: the digest of the second half of the seed's digest and the message. -/
def nonce (seed message : List UInt8) : ℕ :=
  leValue (sha512Digest (((sha512Digest seed).drop 32).take 32 ++ message)) % order

/-- What a signature with the commitment `R` has to answer. It binds the public key and the message.
-/
def challenge (R A : Ed25519Curve.Point) (message : List UInt8) : ℕ :=
  leValue (sha512Digest (encoding R ++ encoding A ++ message)) % order

/-- What signing writes: the encoding of a commitment and the scalar that answers its challenge. It
never fails on a seed of 32 bytes. -/
theorem signEd25519Seed_eq {seed : List UInt8} (hseed : seed.length = 32)
    (message : List UInt8) :
    let a := secretScalar seed
    let r := nonce seed message
    let k := challenge (r • B) (a • B) message
    signEd25519Seed seed message =
      .ok (encoding (r • B) ++ leBytes 32 ((r + k * a % order) % order)) := by
  intro a r k
  have hsize : (seed.length == encodedPointSize) = true := by
    rw [hseed]
    rfl
  have hdigest : ((sha512Digest seed).length == 64) = true := by
    rw [length_sha512Digest]
    rfl
  have hr : r < order := Nat.mod_lt _ prime_order.pos
  have hs : (r + k * a % order) % order < order := Nat.mod_lt _ prime_order.pos
  have hbase : (Extended.ofAffine B.x B.y).Represents B := Extended.Represents.affine B
  obtain ⟨publicPoint, hpublic, hA⟩ :=
    scalarMultiply_represents (clampScalar ((sha512Digest seed).take 32)) hbase
  obtain ⟨noncePoint, hnonce, hR⟩ := scalarMultiply_represents (leBytes 32 r) hbase
  rw [(toFixedLeBytes_scalar hr).2] at hR
  have hk : reduceModOrder (sha512Digest (encoding (r • B) ++ encoding (a • B) ++ message)) =
      .ok (BigInt.ofNat k) := reduceModOrder_eq _
  have hr' : reduceModOrder
      (sha512Digest (((sha512Digest seed).drop 32).take 32 ++ message)) =
        .ok (BigInt.ofNat r) := reduceModOrder_eq _
  rw [signEd25519Seed, hsize, require_true, ok_bind, sha512_eq, ok_bind, hdigest, require_true,
    ok_bind]
  dsimp only
  rw [basePointBytes_eq, decodePoint_encoding, ok_bind, hpublic, ok_bind, encodePoint_lift hA,
    ok_bind, sha512Two_eq, ok_bind, hr', ok_bind, (toFixedLeBytes_scalar hr).1, ok_bind, hnonce,
    ok_bind, encodePoint_lift hR, ok_bind, sha512Three_eq, ok_bind, fromLeBytes_eq]
  rw [show leValue (clampScalar ((sha512Digest seed).take 32)) = a from rfl, hk, ok_bind, ok_bind,
    multiplyModOrder_ofNat, ok_bind, addModOrder_ofNat, ok_bind, (toFixedLeBytes_scalar hs).1,
    ok_bind]
  rfl

/-- A signature over a message: the encoding of a commitment and a canonical scalar that answers its
challenge. The equation has no cofactor, as in the source. -/
def Verifies (A : Ed25519Curve.Point) (signature message : List UInt8) : Prop :=
  ∃ (R : Ed25519Curve.Point) (S : ℕ), S < order ∧ signature = encoding R ++ leBytes 32 S ∧
    S • B = R + challenge R A message • A

/-- The comparison at the end of the verification decides equality in the group. -/
lemma pointsEqual_represents {E E' : Extended Coordinate} {P Q : Ed25519Curve.Point}
    (hP : E.Represents P) (hQ : E'.Represents Q) :
    ∃ flag, pointsEqual (lift E) (lift E') = .ok flag ∧ (flag = true ↔ P = Q) := by
  refine ⟨_, pointsEqual_eq _ _, ?_⟩
  rw [decide_eq_true_iff, lower_lift, lower_lift]
  exact hP.eq_iff hQ

lemma verifies_iff {A : Ed25519Curve.Point} {signature message : List UInt8}
    (hlength : signature.length = 64) :
    Verifies A signature message ↔ leValue ((signature.drop 32).take 32) < order ∧
      ∃ R, signature.take 32 = encoding R ∧
        leValue ((signature.drop 32).take 32) • B = R + challenge R A message • A := by
  have htail : (signature.drop 32).take 32 = signature.drop 32 :=
    List.take_of_length_le (by rw [List.length_drop, hlength])
  have htailLength : (signature.drop 32).length = 32 := by rw [List.length_drop, hlength]
  rw [htail]
  constructor
  · rintro ⟨R, S, hS, hsignature, hequation⟩
    rw [hsignature, List.take_left' (length_encoding R), List.drop_left' (length_encoding R),
      (toFixedLeBytes_scalar hS).2]
    exact ⟨hS, R, rfl, hequation⟩
  · rintro ⟨hS, R, hR, hequation⟩
    refine ⟨R, _, hS, ?_, hequation⟩
    rw [← hR, ← eq_leBytes htailLength rfl, List.take_append_drop]

/-- The verification never fails on a public key that decodes, and accepts exactly the
signatures. -/
theorem verifyEd25519_eq (A : Ed25519Curve.Point) (signature message : List UInt8) :
    ∃ valid, verifyEd25519 (encoding A) signature message = .ok valid ∧
      (valid = true ↔ Verifies A signature message) := by
  have hsize : ((encoding A).length == encodedPointSize) = true := by
    rw [length_encoding]
    rfl
  rw [verifyEd25519, hsize, require_true, ok_bind]
  by_cases hlength : signature.length = 64
  · rw [if_neg (show ¬signature.length ≠ signatureSize from not_not.mpr hlength),
      scalarIsCanonical_eq, ok_bind, verifies_iff hlength]
    by_cases hS : leValue ((signature.drop 32).take 32) < order
    · rw [decide_eq_true hS, if_neg (not_not.mpr rfl), decodePoint_encoding, ok_bind]
      -- A commitment that is no encoding makes the signature invalid, not the call an error.
      cases hdecode : decodePoint (signature.take 32) with
      | error e =>
          refine ⟨false, rfl, iff_of_false Bool.false_ne_true ?_⟩
          rintro ⟨-, R, hR, -⟩
          rw [hR, decodePoint_encoding] at hdecode
          cases hdecode
      | ok rPoint =>
          obtain ⟨R, hR, rfl⟩ := (decodePoint_eq_ok_iff _ _).mp hdecode
          have hchallenge : reduceModOrder
              (sha512Digest (encoding R ++ encoding A ++ message)) =
                .ok (BigInt.ofNat (challenge R A message)) := reduceModOrder_eq _
          have hlt : challenge R A message < order := Nat.mod_lt _ prime_order.pos
          -- Both sides are computed in extended coordinates, and compared as the points they
          -- represent.
          obtain ⟨left, hleft, hleftRep⟩ := scalarMultiply_represents
            ((signature.drop 32).take 32) (Extended.Represents.affine B)
          obtain ⟨hA, hhA, hhARep⟩ := scalarMultiply_represents
            (leBytes 32 (challenge R A message)) (Extended.Represents.affine A)
          rw [(toFixedLeBytes_scalar hlt).2] at hhARep
          have hsum := (Extended.Represents.affine R).add hhARep
          obtain ⟨flag, hflag, hiff⟩ := pointsEqual_represents hleftRep hsum
          refine ⟨flag, ?_, hiff.trans ?_⟩
          · dsimp only
            rw [hR, sha512Three_eq, ok_bind, hchallenge, ok_bind, (toFixedLeBytes_scalar hlt).1,
              ok_bind, basePointBytes_eq, decodePoint_encoding, ok_bind, hleft, ok_bind, hhA,
              ok_bind, pointAdd_eq, ok_bind, lower_lift, lower_lift, hflag]
          · constructor
            · intro h
              exact ⟨hS, R, hR, h⟩
            · rintro ⟨-, R', hR', h⟩
              rw [encoding_injective (hR.symm.trans hR')]
              exact h
    · rw [decide_eq_false hS, if_pos Bool.false_ne_true]
      exact ⟨false, rfl, iff_of_false Bool.false_ne_true fun h => hS h.1⟩
  · rw [if_pos (show signature.length ≠ signatureSize from hlength)]
    refine ⟨false, rfl, iff_of_false Bool.false_ne_true ?_⟩
    rintro ⟨R, S, -, hsignature, -⟩
    refine hlength ?_
    rw [hsignature, List.length_append, length_encoding, length_leBytes]

end Ed25519

end CryptoCore
