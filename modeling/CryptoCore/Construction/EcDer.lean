import CryptoCore.Construction.DerReader
import CryptoCore.Construction.P256Fixed

/-!
# The EC parsers and the signature writer

The SubjectPublicKeyInfo, SEC1 and PKCS#8 containers of P-256 keys, and the pair of integers of a
signature with its writer, after `ec_der.cpp`.

As for the RSA keys, each container has a definition that writes it (`spkiPublicKey`,
`sec1PrivateKey`, `pkcs8PrivateKey`, `signatureDer`), and a theorem says that the parser accepts
exactly that: `parseP256PublicKey_eq_ok_iff`, `parseSec1P256PrivateKey_eq_ok_iff`,
`parsePkcs8P256PrivateKey_eq_ok_iff`, `parseEcdsaSignature_eq_ok_iff`. A SEC1 key has two optional
elements, the curve and the public key; the second is accepted only if it is the public key of the
scalar, so that `sec1PrivateKey` takes a flag for each and computes the public key itself, in the
group of `Construction/P256Curve.lean`.

The writer of the source keeps the lengths it writes in machine words and has no bound of its own.
`encodeEcdsaSignatureDer_eq` says what it writes for integers whose encoding is below
`Der.maxLength`, and `eq_signatureDer_of_encode` that a written encoding whose own length is below
that bound is the encoding of the two numbers. `Properties/EcDer.lean` states the round trip, and
`Construction/Ecdsa.lean` signs and verifies through these functions.
-/

namespace CryptoCore

open ByteStrings

/-- The coordinates of a public key, 32 bytes each once it has been parsed. -/
structure EcPublicKeyMaterial where
  x : ByteBuffer
  y : ByteBuffer
  deriving DecidableEq

/-- The scalar of a private key, as its 32 bytes. Whatever else the container said is not kept. -/
structure EcPrivateKeyMaterial where
  privateScalar : ByteBuffer
  deriving DecidableEq

/-- The two integers of a signature, in their shortest form. -/
structure EcdsaSignatureMaterial where
  r : ByteBuffer
  s : ByteBuffer
  deriving DecidableEq

namespace EcDer

/-- The tags of the containers, the two context tags of the optional elements included. -/
def derSequence : UInt8 := 0x30
def derInteger : UInt8 := 0x02
def derBitString : UInt8 := 0x03
def derOctetString : UInt8 := 0x04
def derOid : UInt8 := 0x06
def derContext0 : UInt8 := 0xA0
def derContext1 : UInt8 := 0xA1

/-- The object identifier of an elliptic-curve key; the next one names the curve. -/
def idEcPublicKeyOid : List UInt8 :=
  [0x2A, 0x86, 0x48, 0xCE, 0x3D, 0x02, 0x01]

def prime256v1Oid : List UInt8 :=
  [0x2A, 0x86, 0x48, 0xCE, 0x3D, 0x03, 0x01, 0x07]

/-- The reader of this file: a length octet that would be shifted out is refused. -/
def dialect : DerDialect where
  category := "ec_der"
  shiftIn length octet :=
    if length > (0xFFFFFFFFFFFFFFFF : UInt64) >>> 8 then
      .error (makeError .invalidKey "ec_der" "DER length is too large")
    else .ok ((length <<< 8) ||| octet.toUInt64)

def derError (message : String) : Error :=
  dialect.error message

/-! ## Elements -/

/-- The algorithm identifier of a P-256 key. The named curve is required, other parameters are
refused. -/
def readP256AlgorithmIdentifier (reader : DerReader) : Result DerReader := do
  let (sequence, reader) ← reader.read dialect derSequence
  let algorithm := DerReader.ofData sequence
  let (algorithmOid, algorithm) ← algorithm.read dialect derOid
  require (algorithmOid == idEcPublicKeyOid)
    (derError "algorithm identifier is not id-ecPublicKey")
  let (curveOid, algorithm) ← algorithm.read dialect derOid
  require (curveOid == prime256v1Oid) (derError "EC public key curve is not prime256v1")
  require algorithm.empty (derError "trailing data in EC algorithm identifier")
  return reader

def readInteger (reader : DerReader) : Result (ByteBuffer × DerReader) :=
  reader.readInteger dialect

def readOctetString (reader : DerReader) : Result (ByteBuffer × DerReader) :=
  reader.read dialect derOctetString

/-- The optional curve of a SEC1 key. If the tag is there the element must name P-256. -/
def readOptionalP256Parameters (reader : DerReader) : Result DerReader :=
  if reader.nextTag ≠ derContext0 then .ok reader
  else do
    let (parameters, reader) ← reader.read dialect derContext0
    let explicitParameters := DerReader.ofData parameters
    let (curveOid, explicitParameters) ← explicitParameters.read dialect derOid
    require (curveOid == prime256v1Oid) (derError "EC private key curve is not prime256v1")
    require explicitParameters.empty (derError "trailing data in EC private key parameters")
    return reader

/-- An uncompressed point in a bit string: no unused bits, the format byte four, two coordinates,
and the checks of `pointFromCoordinates`. -/
def readUncompressedP256Point (point : List UInt8) : Result P256Point := do
  require (!(point.length != 66 || point.getD 0 0 != 0 || point.getD 1 0 != 0x04))
    (derError "invalid P-256 public key point")
  P256Fixed.pointFromCoordinates ((point.drop 2).take 32) ((point.drop 34).take 32)

/-- The optional public key of a SEC1 key, which must be the multiple of the base point by the
scalar. -/
def readOptionalP256PublicKey (reader : DerReader) (privateScalar : List UInt8) :
    Result DerReader :=
  if reader.nextTag ≠ derContext1 then .ok reader
  else do
    let (publicKey, reader) ← reader.read dialect derContext1
    let explicitPublicKey := DerReader.ofData publicKey
    let (bitString, explicitPublicKey) ← explicitPublicKey.read dialect derBitString
    let point ← readUncompressedP256Point bitString
    -- A stored public key is not trusted, but compared with the one of the scalar.
    let expected ← P256Fixed.basePointMultiply privateScalar
    require (!(expected.infinity || point.x != expected.x || point.y != expected.y))
      (derError "EC private key public key does not match private scalar")
    require explicitPublicKey.empty (derError "trailing data in EC private key public key")
    return reader

/-! ## Containers -/

/-- A SEC1 private key: version one, a scalar of 32 bytes in range, and the two optional elements.
Inside PKCS#8 the curve may be left out, since the algorithm identifier names it. -/
def parseSec1P256PrivateKey (der : List UInt8) (requireParameters : Bool) :
    Result EcPrivateKeyMaterial := do
  let (sequence, reader) ← (DerReader.ofData der).read dialect derSequence
  require reader.empty (derError "trailing data after EC private key")
  let privateKey := DerReader.ofData sequence
  let (version, privateKey) ← readInteger privateKey
  require (version == [0x01]) (derError "unsupported EC private key version")
  let (scalar, privateKey) ← readOctetString privateKey
  require (scalar.length == 32) (derError "invalid P-256 private scalar size")
  let scalarValid ← P256Fixed.scalarIsValidNonzero scalar
  require scalarValid (derError "invalid P-256 private scalar")
  -- Whether the parameters are there is read off the next tag, before they are skipped.
  let hasParameters := privateKey.nextTag == derContext0
  let privateKey ← readOptionalP256Parameters privateKey
  require (!(requireParameters && !hasParameters)) (derError "missing EC private key parameters")
  let privateKey ← readOptionalP256PublicKey privateKey scalar
  require privateKey.empty (derError "trailing data in EC private key")
  return ⟨scalar⟩

/-- A public key under its algorithm identifier: the point has to be uncompressed and on the curve.
-/
def parseP256PublicKey (der : List UInt8) : Result EcPublicKeyMaterial := do
  let (sequence, reader) ← (DerReader.ofData der).read dialect derSequence
  require reader.empty (derError "trailing data after SubjectPublicKeyInfo")
  let spki := DerReader.ofData sequence
  let spki ← readP256AlgorithmIdentifier spki
  let (bitString, spki) ← spki.read dialect derBitString
  let point ← readUncompressedP256Point bitString
  require spki.empty (derError "trailing data in SubjectPublicKeyInfo")
  return ⟨point.x, point.y⟩

/-- The two integers of a signature. Their range is not checked here, but when the signature is
verified. -/
def parseEcdsaSignature (der : List UInt8) : Result EcdsaSignatureMaterial := do
  let (sequence, reader) ← (DerReader.ofData der).read dialect derSequence
  require reader.empty (derError "trailing data after ECDSA signature")
  let signature := DerReader.ofData sequence
  let (r, signature) ← readInteger signature
  let (s, signature) ← readInteger signature
  require signature.empty (derError "trailing data in ECDSA signature")
  return ⟨r, s⟩

/-- A private key under its algorithm identifier: version zero, and a SEC1 key in the octet string.
-/
def parsePkcs8P256PrivateKey (der : List UInt8) : Result EcPrivateKeyMaterial := do
  let (sequence, reader) ← (DerReader.ofData der).read dialect derSequence
  require reader.empty (derError "trailing data after PrivateKeyInfo")
  let pkcs8 := DerReader.ofData sequence
  let (version, pkcs8) ← readInteger pkcs8
  require (version == [0x00]) (derError "unsupported PrivateKeyInfo version")
  let pkcs8 ← readP256AlgorithmIdentifier pkcs8
  let (privateKey, pkcs8) ← readOctetString pkcs8
  require pkcs8.empty (derError "trailing data in PrivateKeyInfo")
  parseSec1P256PrivateKey privateKey false

/-! ## The signature writer -/

/-- The loop that fills the array of length octets from its end. -/
def lengthOctets (length : ℕ) : List UInt8 :=
  if length ≠ 0 then lengthOctets (length >>> 8) ++ [UInt8.ofNat length] else []
decreasing_by
  rw [Nat.shiftRight_eq_div_pow]
  omega

/-- A length in its shortest form, behind what has been written. -/
def writeDerLength (output : List UInt8) (length : ℕ) : List UInt8 :=
  if length < 128 then output ++ [UInt8.ofNat length]
  else
    let encoded := lengthOctets length
    output ++ [0x80 ||| UInt8.ofNat encoded.length] ++ encoded

/-- A tag, a length and the content behind what was written before. -/
def writeDerTlv (output : List UInt8) (tag : UInt8) (content : List UInt8) : List UInt8 :=
  writeDerLength (output ++ [tag]) content.length ++ content

/-- The content of an INTEGER: leading zeros are dropped, and one is put back where the sign bit
would be set. The empty string is written as zero. -/
def encodedIntegerContent (value : List UInt8) : List UInt8 :=
  let value := value.dropWhile (· == 0)
  if value.isEmpty then [0]
  else (if value.headD 0 &&& 0x80 ≠ 0 then [0] else []) ++ value

end EcDer

open EcDer

def parseP256PublicKeyDer (der : List UInt8) : Result EcPublicKeyMaterial :=
  parseP256PublicKey der

/-- A private key of either container; a bare SEC1 key must name its curve. -/
def parseP256PrivateKeyDer (der : List UInt8) : Result EcPrivateKeyMaterial :=
  match parseSec1P256PrivateKey der true with
  | .ok key => .ok key
  | .error _ => parsePkcs8P256PrivateKey der

def parseP256Pkcs8PrivateKeyDer (der : List UInt8) : Result EcPrivateKeyMaterial :=
  parsePkcs8P256PrivateKey der

def parseP256Sec1PrivateKeyDer (der : List UInt8) : Result EcPrivateKeyMaterial :=
  parseSec1P256PrivateKey der true

def parseEcdsaSignatureDer (der : List UInt8) : Result EcdsaSignatureMaterial :=
  parseEcdsaSignature der

/-- The writer of signatures. It takes any byte strings as numbers and never fails. -/
def encodeEcdsaSignatureDer (r s : List UInt8) : Result ByteBuffer :=
  let body := writeDerTlv (writeDerTlv [] derInteger (encodedIntegerContent r)) derInteger
    (encodedIntegerContent s)
  .ok (writeDerTlv [] derSequence body)

/-! ## What the readers accept -/

namespace EcDer

/-- The refusal of a length that does not fit never meets one that does. -/
lemma dialect_exact : dialect.Exact := by
  intro length octet h
  have hfit : ¬ length > (0xFFFFFFFFFFFFFFFF : UInt64) >>> 8 := by
    rw [gt_iff_lt, UInt64.lt_iff_toNat_lt,
      show ((0xFFFFFFFFFFFFFFFF : UInt64) >>> 8).toNat = 2 ^ 56 - 1 by decide]
    omega
  exact ⟨_, if_neg hfit, shiftLeft_or_octet length octet h⟩

/-- The algorithm identifier of a P-256 key, the only one that is accepted. -/
def algorithmIdentifier : List UInt8 :=
  Der.tlv derSequence (Der.tlv derOid idEcPublicKeyOid ++ Der.tlv derOid prime256v1Oid)

/-- The explicit curve of a private key, under its context tag. -/
def explicitParameters : List UInt8 :=
  Der.tlv derContext0 (Der.tlv derOid prime256v1Oid)

/-- The content of the BIT STRING of an uncompressed point: no unused bits, the format, the
coordinates. -/
def pointBits (x y : List UInt8) : List UInt8 :=
  [0x00, 0x04] ++ x ++ y

/-- The explicit public key of a private key, the bits of a point under its context tag. -/
def explicitPublicKey (key : EcPublicKeyMaterial) : List UInt8 :=
  Der.tlv derContext1 (Der.tlv derBitString (pointBits key.x key.y))

variable {r r' : DerReader} {bs : List UInt8}

lemma readP256AlgorithmIdentifier_ok (h : readP256AlgorithmIdentifier r = .ok r') :
    r.rest = algorithmIdentifier ++ r'.rest := by
  obtain ⟨⟨sequence, r₁⟩, hsequence, h⟩ := Loops.bind_eq_ok.mp h
  obtain ⟨⟨algorithmOid, a₁⟩, halgorithm, h⟩ := Loops.bind_eq_ok.mp h
  obtain ⟨_, hec, h⟩ := Loops.bind_eq_ok.mp h
  obtain ⟨⟨curveOid, a₂⟩, hcurve, h⟩ := Loops.bind_eq_ok.mp h
  obtain ⟨_, hprime, h⟩ := Loops.bind_eq_ok.mp h
  obtain ⟨_, hempty, h⟩ := Loops.bind_eq_ok.mp h
  cases h
  rw [require_eq_ok, beq_iff_eq] at hec hprime
  rw [require_eq_ok] at hempty
  subst hec hprime
  have halgorithm' := (DerReader.read_ok dialect_exact halgorithm).2
  have hcurve' := (DerReader.read_ok dialect_exact hcurve).2
  rw [hcurve', (DerReader.empty_iff a₂).mp hempty, List.append_nil, DerReader.rest_ofData]
    at halgorithm'
  rw [(DerReader.read_ok dialect_exact hsequence).2, algorithmIdentifier, halgorithm']

lemma readP256AlgorithmIdentifier_of_rest (h : r.rest = algorithmIdentifier ++ bs) :
    ∃ r', readP256AlgorithmIdentifier r = .ok r' ∧ r'.rest = bs := by
  obtain ⟨r', hsequence, hrest⟩ := DerReader.read_of_rest dialect_exact (by decide) h
  obtain ⟨a₁, halgorithm, ha₁⟩ := DerReader.read_of_rest dialect_exact (by decide)
    (DerReader.rest_ofData (Der.tlv derOid idEcPublicKeyOid ++ Der.tlv derOid prime256v1Oid))
  obtain ⟨a₂, hcurve, hempty⟩ := DerReader.read_last dialect_exact (by decide) ha₁
  refine ⟨r', ?_, hrest⟩
  simp only [readP256AlgorithmIdentifier, hsequence, ok_bind, halgorithm, hcurve, hempty,
    beq_self_eq_true, require_true]
  rfl

/-- The curve is read when its tag stands next, and nothing otherwise. -/
lemma readOptionalP256Parameters_ok (h : readOptionalP256Parameters r = .ok r') :
    r.rest = (if r.nextTag = derContext0 then explicitParameters else []) ++ r'.rest := by
  unfold readOptionalP256Parameters at h
  split at h
  next htag =>
    cases h
    rw [if_neg htag, List.nil_append]
  next htag =>
    rw [not_not] at htag
    obtain ⟨⟨parameters, r₁⟩, hparameters, h⟩ := Loops.bind_eq_ok.mp h
    obtain ⟨⟨curveOid, a₁⟩, hcurve, h⟩ := Loops.bind_eq_ok.mp h
    obtain ⟨_, hprime, h⟩ := Loops.bind_eq_ok.mp h
    obtain ⟨_, hempty, h⟩ := Loops.bind_eq_ok.mp h
    cases h
    rw [require_eq_ok, beq_iff_eq] at hprime
    rw [require_eq_ok] at hempty
    subst hprime
    rw [if_pos htag, (DerReader.read_ok dialect_exact hparameters).2, explicitParameters,
      (DerReader.read_whole_ok dialect_exact hcurve hempty).2]

/-- A curve that is there is read, and one that is not there is not missed, as long as what follows
does not begin with its tag. -/
lemma readOptionalP256Parameters_of_rest {present : Bool}
    (h : r.rest = (if present then explicitParameters else []) ++ bs)
    (htail : bs.headD 0 ≠ derContext0) :
    (r.nextTag == derContext0) = present ∧
      ∃ r', readOptionalP256Parameters r = .ok r' ∧ r'.rest = bs := by
  cases present with
  | false =>
      rw [if_neg Bool.false_ne_true, List.nil_append] at h
      have htag : r.nextTag ≠ derContext0 := by rwa [DerReader.nextTag, h]
      exact ⟨by simpa using htag, r, by rw [readOptionalP256Parameters, if_pos htag], h⟩
  | true =>
      rw [if_pos rfl] at h
      have htag : r.nextTag = derContext0 := by
        rw [DerReader.nextTag, h]
        rfl
      obtain ⟨r', hparameters, hrest⟩ := DerReader.read_of_rest dialect_exact (by decide) h
      obtain ⟨a₁, hcurve, hempty⟩ := DerReader.read_last dialect_exact (by decide)
        (DerReader.rest_ofData (Der.tlv derOid prime256v1Oid))
      refine ⟨by simpa using htag, r', ?_, hrest⟩
      rw [readOptionalP256Parameters, if_neg (not_not.mpr htag), hparameters, ok_bind]
      simp only [hcurve, ok_bind, hempty, beq_self_eq_true, require_true]
      rfl

section Points

open P256Curve ShortWeierstrass

lemma length_pointBits {x y : List UInt8} (hx : x.length = 32) (hy : y.length = 32) :
    (pointBits x y).length = 66 := by
  simp [pointBits, hx, hy]

lemma take_pointBits {x : List UInt8} (y : List UInt8) (hx : x.length = 32) :
    ((pointBits x y).drop 2).take 32 = x := by
  rw [pointBits, List.append_assoc]
  exact List.take_left' hx

lemma drop_pointBits {x y : List UInt8} (hx : x.length = 32) (hy : y.length = 32) :
    ((pointBits x y).drop 34).take 32 = y := by
  rw [pointBits, List.drop_left' (by simp [hx]), List.take_of_length_le hy.le]

/-- The accepted points are the finite points of the curve, in their uncompressed encoding. -/
theorem readUncompressedP256Point_eq_ok_iff {bits : List UInt8} {point : P256Point} :
    readUncompressedP256Point bits = .ok point ↔
      ∃ x y : Coordinate, OnCurve a b x y ∧
        bits = pointBits (coordinateBytes x) (coordinateBytes y) ∧
        point = ⟨coordinateBytes x, coordinateBytes y, false⟩ := by
  constructor
  · intro h
    obtain ⟨_, hform, h⟩ := Loops.bind_eq_ok.mp h
    -- The coordinates were accepted, so they are those of a finite point of the curve.
    rw [← toOption_eq_some, P256Fixed.pointFromCoordinates_toOption, Option.map_eq_some_iff] at h
    obtain ⟨P, hP, rfl⟩ := h
    obtain ⟨x, y, hat, hxy⟩ := exists_isAt_of_decodePoint hP rfl
    refine ⟨x, y, hat.onCurve, ?_, encodePoint_of_isAt hat⟩
    rw [P256Point.mk.injEq] at hxy
    simp only [require_eq_ok, Bool.not_eq_true', Bool.or_eq_false_iff, bne_eq_false_iff_eq] at hform
    obtain ⟨⟨hlen, hzero⟩, hfour⟩ := hform
    -- Two octets stand before the coordinates: the unused bits of the string and the form of the
    -- point.
    obtain _ | ⟨b₀, _ | ⟨b₁, coordinates⟩⟩ := bits
    · simp at hlen
    · simp at hlen
    · simp only [List.getD_cons_zero, List.getD_cons_succ] at hzero hfour
      simp only [List.length_cons] at hlen
      simp only [List.drop_succ_cons, List.drop_zero] at hxy
      rw [pointBits, ← hxy.1, ← hxy.2.1, hzero, hfour,
        List.take_of_length_le (l := coordinates.drop 32) (by rw [List.length_drop]; omega),
        List.append_assoc, List.take_append_drop]
      rfl
  · rintro ⟨x, y, hcurve, rfl, rfl⟩
    have hpoint : (P256Fixed.pointFromCoordinates (coordinateBytes x) (coordinateBytes y)) =
        .ok ⟨coordinateBytes x, coordinateBytes y, false⟩ := by
      rw [← toOption_eq_some, P256Fixed.pointFromCoordinates_toOption,
        decodePoint_of_isAt (isAt_pointAt hcurve), Option.map_some,
        encodePoint_of_isAt (isAt_pointAt hcurve)]
    have hlen := length_pointBits (length_coordinateBytes x) (length_coordinateBytes y)
    rw [readUncompressedP256Point, hlen, take_pointBits _ (length_coordinateBytes x),
      drop_pointBits (length_coordinateBytes x) (length_coordinateBytes y), hpoint]
    rfl

/-- The coordinates of a multiple of the base point: the public key of a scalar. -/
noncomputable def publicKeyOf (d : ℕ) : EcPublicKeyMaterial :=
  ⟨(encodePoint (d • G)).x, (encodePoint (d • G)).y⟩

/-- The public key is read when its tag stands next, and nothing otherwise. If it is read, it is
that of the scalar. -/
lemma readOptionalP256PublicKey_ok {scalar : List UInt8}
    (h : readOptionalP256PublicKey r scalar = .ok r') :
    r.rest = (if r.nextTag = derContext1 then explicitPublicKey (publicKeyOf (beValue scalar))
      else []) ++ r'.rest := by
  unfold readOptionalP256PublicKey at h
  split at h
  next htag =>
    cases h
    rw [if_neg htag, List.nil_append]
  next htag =>
    rw [not_not] at htag
    obtain ⟨⟨publicKey, r₁⟩, hpublicKey, h⟩ := Loops.bind_eq_ok.mp h
    obtain ⟨⟨bits, a₁⟩, hbits, h⟩ := Loops.bind_eq_ok.mp h
    obtain ⟨point, hpoint, h⟩ := Loops.bind_eq_ok.mp h
    obtain ⟨expected, hexpected, h⟩ := Loops.bind_eq_ok.mp h
    obtain ⟨_, hmatch, h⟩ := Loops.bind_eq_ok.mp h
    obtain ⟨_, hempty, h⟩ := Loops.bind_eq_ok.mp h
    cases h
    rw [P256Fixed.basePointMultiply_eq, Except.ok.injEq] at hexpected
    simp only [require_eq_ok, Bool.not_eq_true', Bool.or_eq_false_iff, bne_eq_false_iff_eq,
      ← hexpected] at hmatch
    rw [require_eq_ok] at hempty
    obtain ⟨x, y, -, hform, hxy⟩ := readUncompressedP256Point_eq_ok_iff.mp hpoint
    obtain ⟨⟨-, hx⟩, hy⟩ := hmatch
    rw [hxy] at hx hy
    rw [if_pos htag, (DerReader.read_ok dialect_exact hpublicKey).2, explicitPublicKey,
      (DerReader.read_whole_ok dialect_exact hbits hempty).2, hform, publicKeyOf, ← hx, ← hy]

/-- A multiple that does not vanish has coordinates of 32 bytes. -/
lemma publicKeyOf_eq {d : ℕ} (h : d • G ≠ 0) :
    ∃ x y : Coordinate, OnCurve a b x y ∧
      encodePoint (d • G) = ⟨coordinateBytes x, coordinateBytes y, false⟩ ∧
      publicKeyOf d = ⟨coordinateBytes x, coordinateBytes y⟩ := by
  rw [publicKeyOf]
  obtain ⟨x, y, hat⟩ := exists_isAt_of_ne_zero h
  rw [encodePoint_of_isAt hat]
  exact ⟨x, y, hat.onCurve, rfl, rfl⟩

/-- The optional public key is short, so that no length in a private key comes near the bound of the
reader. -/
lemma length_explicitPublicKey_le {d : ℕ} (hne : d • G ≠ 0) :
    (explicitPublicKey (publicKeyOf d)).length ≤ 86 := by
  obtain ⟨x, y, -, -, hkey⟩ := publicKeyOf_eq hne
  have hlen := length_pointBits (length_coordinateBytes x) (length_coordinateBytes y)
  have hinner := Der.length_tlv_le derBitString (by rw [hlen]; decide)
  have houter := Der.length_tlv_le derContext1 (lt_of_le_of_lt hinner (by rw [hlen]; decide))
  rw [hkey]
  exact houter.trans (by omega)

/-- The public key of the scalar is read if it is there, and not missed if it is not. -/
lemma readOptionalP256PublicKey_of_rest {scalar : List UInt8} {present : Bool}
    (hne : beValue scalar • G ≠ 0)
    (h : r.rest = (if present then explicitPublicKey (publicKeyOf (beValue scalar)) else []) ++ bs)
    (htail : bs.headD 0 ≠ derContext1) :
    ∃ r', readOptionalP256PublicKey r scalar = .ok r' ∧ r'.rest = bs := by
  cases present with
  | false =>
      rw [if_neg Bool.false_ne_true, List.nil_append] at h
      have htag : r.nextTag ≠ derContext1 := by rwa [DerReader.nextTag, h]
      exact ⟨r, by rw [readOptionalP256PublicKey, if_pos htag], h⟩
  | true =>
      rw [if_pos rfl] at h
      have htag : r.nextTag = derContext1 := by
        rw [DerReader.nextTag, h]
        rfl
      have hkeyLength := length_explicitPublicKey_le hne
      obtain ⟨x, y, hcurve, hencode, hkey⟩ := publicKeyOf_eq hne
      have hlen := length_pointBits (length_coordinateBytes x) (length_coordinateBytes y)
      rw [hkey, explicitPublicKey] at h hkeyLength
      have hsmall : (Der.tlv derBitString
          (pointBits (coordinateBytes x) (coordinateBytes y))).length < Der.maxLength :=
        (Der.length_le_length_tlv derContext1 _).trans (lt_of_le_of_lt hkeyLength (by decide))
      obtain ⟨r', hpublicKey, hrest⟩ := DerReader.read_of_rest dialect_exact hsmall h
      obtain ⟨a₁, hread, hempty⟩ := DerReader.read_last dialect_exact (by rw [hlen]; decide)
        (DerReader.rest_ofData (Der.tlv derBitString _))
      have hpoint := readUncompressedP256Point_eq_ok_iff.mpr ⟨x, y, hcurve, rfl, rfl⟩
      refine ⟨r', ?_, hrest⟩
      rw [readOptionalP256PublicKey, if_neg (not_not.mpr htag), hpublicKey, ok_bind]
      simp only [hread, ok_bind, hpoint, P256Fixed.basePointMultiply_eq, hencode, hempty,
        bne_self_eq_false, Bool.or_self, Bool.not_false, require_true]
      rfl

/-! ## Containers and their parsers -/

/-- The scalars that the parsers accept: 32 bytes, above zero and below the order. -/
structure ValidPrivateScalar (scalar : List UInt8) : Prop where
  length : scalar.length = 32
  pos : 0 < beValue scalar
  lt : beValue scalar < n

/-- A valid scalar has a finite public key, since the base point has order `n`. -/
lemma ValidPrivateScalar.nsmul_ne_zero {scalar : List UInt8} (h : ValidPrivateScalar scalar) :
    beValue scalar • G ≠ 0 := by
  rw [Ne, nsmul_G_eq_zero_iff]
  exact Nat.not_dvd_of_pos_of_lt h.pos h.lt

/-- A SEC1 private key, with its optional elements. It is noncomputable because the public key is a
point of the group. -/
noncomputable def sec1PrivateKey (scalar : List UInt8) (parameters publicKey : Bool) : List UInt8 :=
  Der.tlv derSequence (Der.tlv derInteger [0x01] ++ (Der.tlv derOctetString scalar ++
    ((if parameters then explicitParameters else []) ++
      (if publicKey then explicitPublicKey (publicKeyOf (beValue scalar)) else []))))

/-- A PKCS#8 private key around a SEC1 one, which stands in an octet string. -/
def pkcs8PrivateKey (privateKey : List UInt8) : List UInt8 :=
  Der.tlv derSequence (Der.tlv derInteger [0x00] ++
    (algorithmIdentifier ++ Der.tlv derOctetString privateKey))

/-- The SubjectPublicKeyInfo of a point: the algorithm identifier with the curve, and the bits of
the point. -/
def spkiPublicKey (key : EcPublicKeyMaterial) : List UInt8 :=
  Der.tlv derSequence (algorithmIdentifier ++ Der.tlv derBitString (pointBits key.x key.y))

lemma version_forms {version : UInt8} (h : version = 0 ∨ version = 1) :
    minBeBytes version.toNat = [version] ∧ Der.integerContent version.toNat = [version] := by
  rcases h with rfl | rfl <;> decide

/-- A version that was accepted took its INTEGER off the input. -/
lemma readInteger_version_ok {version : UInt8} (hv : version = 0 ∨ version = 1)
    (h : readInteger r = .ok ([version], r')) :
    r.rest = Der.tlv derInteger [version] ++ r'.rest := by
  have hread := (DerReader.readInteger_ok dialect_exact h).2.2
  rwa [beValue_singleton, (version_forms hv).2] at hread

lemma readInteger_version_of_rest {version : UInt8} (hv : version = 0 ∨ version = 1)
    (h : r.rest = Der.tlv derInteger [version] ++ bs) :
    ∃ r', readInteger r = .ok ([version], r') ∧ r'.rest = bs := by
  obtain ⟨hmin, hcontent⟩ := version_forms hv
  have hlen : (Der.integerContent version.toNat).length < Der.maxLength := by
    rw [hcontent, List.length_singleton]
    decide
  obtain ⟨r', hread, hrest⟩ :=
    DerReader.readInteger_of_rest dialect_exact hlen (by rw [hcontent]; exact h)
  rw [hmin] at hread
  exact ⟨r', hread, hrest⟩

/-- The elements of a SEC1 private key are short: every length in it has one or two octets. -/
lemma length_sec1PrivateKey_le {scalar : List UInt8} (h : ValidPrivateScalar scalar)
    (parameters publicKey : Bool) :
    (sec1PrivateKey scalar parameters publicKey).length ≤ 200 := by
  have hscalar := Der.length_tlv_le derOctetString (by rw [h.length]; decide)
  rw [h.length] at hscalar
  have hparameters : (if parameters = true then explicitParameters else []).length ≤ 12 := by
    split <;> decide
  have hpublicKey : (if publicKey = true then explicitPublicKey (publicKeyOf (beValue scalar))
      else []).length ≤ 86 := by
    split
    · exact length_explicitPublicKey_le h.nsmul_ne_zero
    · exact Nat.zero_le _
  have hversion : (Der.tlv derInteger [0x01]).length = 3 := by decide
  rw [sec1PrivateKey]
  refine (Der.length_tlv_le _ ?_).trans ?_ <;>
    simp only [List.length_append, hversion]
  · refine lt_of_le_of_lt (b := 200) (by omega) (by decide)
  · omega

/-- The parser of SEC1 keys accepts exactly the encodings of valid scalars, in each of the forms
that the optional elements leave. -/
theorem parseSec1P256PrivateKey_eq_ok_iff {der : List UInt8} {requireParameters : Bool}
    {key : EcPrivateKeyMaterial} :
    parseSec1P256PrivateKey der requireParameters = .ok key ↔
      ValidPrivateScalar key.privateScalar ∧ ∃ parameters publicKey : Bool,
        (requireParameters = true → parameters = true) ∧
        der = sec1PrivateKey key.privateScalar parameters publicKey := by
  constructor
  · intro h
    obtain ⟨⟨sequence, r₁⟩, hsequence, h⟩ := Loops.bind_eq_ok.mp h
    obtain ⟨_, hend, h⟩ := Loops.bind_eq_ok.mp h
    obtain ⟨⟨version, k₁⟩, hversion, h⟩ := Loops.bind_eq_ok.mp h
    obtain ⟨_, hone, h⟩ := Loops.bind_eq_ok.mp h
    obtain ⟨⟨scalar, k₂⟩, hscalar, h⟩ := Loops.bind_eq_ok.mp h
    obtain ⟨_, hsize, h⟩ := Loops.bind_eq_ok.mp h
    obtain ⟨valid, hvalid, h⟩ := Loops.bind_eq_ok.mp h
    obtain ⟨_, htrue, h⟩ := Loops.bind_eq_ok.mp h
    obtain ⟨k₃, hparameters, h⟩ := Loops.bind_eq_ok.mp h
    obtain ⟨_, hrequired, h⟩ := Loops.bind_eq_ok.mp h
    obtain ⟨k₄, hpublicKey, h⟩ := Loops.bind_eq_ok.mp h
    obtain ⟨_, hempty, h⟩ := Loops.bind_eq_ok.mp h
    cases h
    -- The guards that passed are facts about the values; the optional fields are described by the
    -- tags that stood next.
    rw [require_eq_ok] at hend hsize htrue hrequired hempty
    rw [require_eq_ok, beq_iff_eq] at hone
    subst hone htrue
    rw [P256Fixed.scalarIsValidNonzero_eq, Except.ok.injEq, decide_eq_true_iff] at hvalid
    refine ⟨⟨by simpa using hsize, hvalid.1, hvalid.2⟩, k₂.nextTag == derContext0,
      k₃.nextTag == derContext1, ?_, ?_⟩
    · rintro rfl
      simpa using hrequired
    · have hcontent := readInteger_version_ok (Or.inr rfl) hversion
      rw [DerReader.rest_ofData, (DerReader.read_ok dialect_exact hscalar).2,
        readOptionalP256Parameters_ok hparameters, readOptionalP256PublicKey_ok hpublicKey,
        (DerReader.empty_iff k₄).mp hempty, List.append_nil] at hcontent
      rw [(DerReader.read_whole_ok dialect_exact hsequence hend).2, hcontent, sec1PrivateKey]
      simp only [beq_iff_eq]
  · rintro ⟨hkey, parameters, publicKey, hrequired, rfl⟩
    have hlength := length_sec1PrivateKey_le hkey parameters publicKey
    have hcontent := (Der.length_le_length_tlv _ _).trans_le hlength
    obtain ⟨r₁, hsequence, hend⟩ := DerReader.read_last dialect_exact
      (hcontent.trans (by decide)) (DerReader.rest_ofData (sec1PrivateKey _ parameters publicKey))
    obtain ⟨k₁, hversion, hk₁⟩ := readInteger_version_of_rest (Or.inr rfl)
      (DerReader.rest_ofData (Der.tlv derInteger [0x01] ++
        (Der.tlv derOctetString key.privateScalar ++
          ((if parameters then explicitParameters else []) ++
            (if publicKey then explicitPublicKey (publicKeyOf (beValue key.privateScalar))
              else [])))))
    obtain ⟨k₂, hscalar, hk₂⟩ := DerReader.read_of_rest dialect_exact
      (by rw [hkey.length]; decide) hk₁
    -- The reader of the parameters looks at the next tag, so what follows absent parameters must
    -- not carry their tag.
    have htail : (if publicKey = true then
        explicitPublicKey (publicKeyOf (beValue key.privateScalar)) else []).headD 0 ≠
          derContext0 := by
      cases publicKey with
      | false => exact show (0 : UInt8) ≠ derContext0 by decide
      | true => exact show derContext1 ≠ derContext0 by decide
    obtain ⟨htag, k₃, hparameters, hk₃⟩ := readOptionalP256Parameters_of_rest hk₂ htail
    obtain ⟨k₄, hpublicKey, hk₄⟩ := readOptionalP256PublicKey_of_rest hkey.nsmul_ne_zero
      (hk₃.trans (List.append_nil _).symm) (by decide)
    have hvalid : decide (0 < beValue key.privateScalar ∧ beValue key.privateScalar < n) = true :=
      decide_eq_true ⟨hkey.pos, hkey.lt⟩
    have hneeded : (!(requireParameters && !parameters)) = true := by
      cases requireParameters with
      | false => rfl
      | true => rw [hrequired rfl]; rfl
    rw [parseSec1P256PrivateKey, hsequence]
    simp only [ok_bind, hend, hversion, readOctetString, hscalar, hkey.length,
      P256Fixed.scalarIsValidNonzero_eq, hvalid, htag, hparameters, hneeded, hpublicKey,
      (DerReader.empty_iff k₄).mpr hk₄, beq_self_eq_true, require_true]
    rfl

lemma length_pkcs8Content_lt {privateKey : List UInt8} (h : privateKey.length ≤ 200) :
    (Der.tlv derInteger [0x00] ++ (algorithmIdentifier ++
      Der.tlv derOctetString privateKey)).length < Der.maxLength := by
  have hversion : (Der.tlv derInteger [0x00]).length = 3 := by decide
  have halgorithm : algorithmIdentifier.length = 21 := by decide
  have helement := Der.length_tlv_le derOctetString (lt_of_le_of_lt h (by decide))
  simp only [List.length_append, hversion, halgorithm]
  exact lt_of_le_of_lt (by omega : _ ≤ 300) (by decide)

/-- The parser of PKCS#8 keys accepts exactly the SEC1 encodings under an algorithm identifier. -/
theorem parsePkcs8P256PrivateKey_eq_ok_iff {der : List UInt8} {key : EcPrivateKeyMaterial} :
    parsePkcs8P256PrivateKey der = .ok key ↔
      ValidPrivateScalar key.privateScalar ∧ ∃ parameters publicKey : Bool,
        der = pkcs8PrivateKey (sec1PrivateKey key.privateScalar parameters publicKey) := by
  constructor
  · intro h
    obtain ⟨⟨sequence, r₁⟩, hsequence, h⟩ := Loops.bind_eq_ok.mp h
    obtain ⟨_, hend, h⟩ := Loops.bind_eq_ok.mp h
    obtain ⟨⟨version, k₁⟩, hversion, h⟩ := Loops.bind_eq_ok.mp h
    obtain ⟨_, hzero, h⟩ := Loops.bind_eq_ok.mp h
    obtain ⟨k₂, halgorithm, h⟩ := Loops.bind_eq_ok.mp h
    obtain ⟨⟨privateKey, k₃⟩, hprivateKey, h⟩ := Loops.bind_eq_ok.mp h
    obtain ⟨_, hempty, h⟩ := Loops.bind_eq_ok.mp h
    rw [require_eq_ok] at hend hempty
    rw [require_eq_ok, beq_iff_eq] at hzero
    rw [hzero] at hversion
    obtain ⟨hkey, parameters, publicKey, -, hsec1⟩ := parseSec1P256PrivateKey_eq_ok_iff.mp h
    have hcontent := readInteger_version_ok (Or.inl rfl) hversion
    rw [DerReader.rest_ofData, readP256AlgorithmIdentifier_ok halgorithm,
      (DerReader.read_ok dialect_exact hprivateKey).2, (DerReader.empty_iff k₃).mp hempty,
      List.append_nil] at hcontent
    refine ⟨hkey, parameters, publicKey, ?_⟩
    rw [(DerReader.read_whole_ok dialect_exact hsequence hend).2, hcontent, pkcs8PrivateKey, hsec1]
  · rintro ⟨hkey, parameters, publicKey, rfl⟩
    set privateKey := sec1PrivateKey key.privateScalar parameters publicKey with hprivateKey
    have hlength : privateKey.length ≤ 200 := length_sec1PrivateKey_le hkey parameters publicKey
    have hsmall : privateKey.length < Der.maxLength := lt_of_le_of_lt hlength (by decide)
    have hcontent := length_pkcs8Content_lt hlength
    obtain ⟨r₁, hsequence, hend⟩ := DerReader.read_last dialect_exact hcontent
      (DerReader.rest_ofData (pkcs8PrivateKey privateKey))
    obtain ⟨k₁, hversion, hk₁⟩ := readInteger_version_of_rest (Or.inl rfl)
      (DerReader.rest_ofData (Der.tlv derInteger [0x00] ++
        (algorithmIdentifier ++ Der.tlv derOctetString privateKey)))
    obtain ⟨k₂, halgorithm, hk₂⟩ := readP256AlgorithmIdentifier_of_rest hk₁
    obtain ⟨k₃, hread, hempty⟩ := DerReader.read_last dialect_exact hsmall hk₂
    have hsec1 := parseSec1P256PrivateKey_eq_ok_iff.mpr
      ⟨hkey, parameters, publicKey, fun h => absurd h Bool.false_ne_true, hprivateKey⟩
    rw [parsePkcs8P256PrivateKey, hsequence]
    simp only [ok_bind, hend, hversion, halgorithm, readOctetString, hread, hempty, hsec1,
      beq_self_eq_true, require_true]

/-- The coordinates of a finite point of the curve, on 32 bytes each. -/
structure ValidPublicPoint (key : EcPublicKeyMaterial) : Prop where
  length_x : key.x.length = 32
  length_y : key.y.length = 32
  lt_x : beValue key.x < p
  lt_y : beValue key.y < p
  onCurve : OnCurve a b (beValue key.x : Coordinate) (beValue key.y : Coordinate)

/-- A public key is valid exactly when its coordinates are those of a finite point. -/
lemma validPublicPoint_iff {key : EcPublicKeyMaterial} :
    ValidPublicPoint key ↔ ∃ x y : Coordinate, OnCurve a b x y ∧
      key = ⟨coordinateBytes x, coordinateBytes y⟩ := by
  constructor
  · intro h
    have hx : coordinateOf key.x = some (beValue key.x : Coordinate) :=
      if_pos ⟨h.length_x, h.lt_x⟩
    have hy : coordinateOf key.y = some (beValue key.y : Coordinate) :=
      if_pos ⟨h.length_y, h.lt_y⟩
    rw [coordinateOf_eq_some] at hx hy
    refine ⟨_, _, h.onCurve, ?_⟩
    rw [← hx, ← hy]
  · rintro ⟨x, y, hcurve, rfl⟩
    refine ⟨length_coordinateBytes x, length_coordinateBytes y, ?_, ?_, ?_⟩ <;>
      simp only [beValue_coordinateBytes]
    · exact ZMod.val_lt x
    · exact ZMod.val_lt y
    · rwa [ZMod.natCast_zmod_val, ZMod.natCast_zmod_val]

lemma length_spkiContent_lt {key : EcPublicKeyMaterial} (h : ValidPublicPoint key) :
    (algorithmIdentifier ++ Der.tlv derBitString (pointBits key.x key.y)).length <
      Der.maxLength := by
  have hlen := length_pointBits h.length_x h.length_y
  have halgorithm : algorithmIdentifier.length = 21 := by decide
  have helement : (Der.tlv derBitString (pointBits key.x key.y)).length ≤ 76 := by
    exact (Der.length_tlv_le derBitString (by rw [hlen]; decide)).trans (by omega)
  rw [List.length_append, halgorithm]
  exact lt_of_le_of_lt (by omega : _ ≤ 300) (by decide)

/-- The parser of public keys accepts exactly the encodings of finite points of the curve. -/
theorem parseP256PublicKey_eq_ok_iff {der : List UInt8} {key : EcPublicKeyMaterial} :
    parseP256PublicKey der = .ok key ↔ ValidPublicPoint key ∧ der = spkiPublicKey key := by
  constructor
  · intro h
    obtain ⟨⟨sequence, r₁⟩, hsequence, h⟩ := Loops.bind_eq_ok.mp h
    obtain ⟨_, hend, h⟩ := Loops.bind_eq_ok.mp h
    obtain ⟨k₁, halgorithm, h⟩ := Loops.bind_eq_ok.mp h
    obtain ⟨⟨bits, k₂⟩, hbits, h⟩ := Loops.bind_eq_ok.mp h
    obtain ⟨point, hpoint, h⟩ := Loops.bind_eq_ok.mp h
    obtain ⟨_, hempty, h⟩ := Loops.bind_eq_ok.mp h
    cases h
    rw [require_eq_ok] at hend hempty
    obtain ⟨x, y, hcurve, hform, rfl⟩ := readUncompressedP256Point_eq_ok_iff.mp hpoint
    have hcontent := readP256AlgorithmIdentifier_ok halgorithm
    rw [DerReader.rest_ofData, (DerReader.read_ok dialect_exact hbits).2,
      (DerReader.empty_iff k₂).mp hempty, List.append_nil, hform] at hcontent
    refine ⟨validPublicPoint_iff.mpr ⟨x, y, hcurve, rfl⟩, ?_⟩
    rw [(DerReader.read_whole_ok dialect_exact hsequence hend).2, hcontent, spkiPublicKey]
  · rintro ⟨hkey, rfl⟩
    obtain ⟨x, y, hcurve, rfl⟩ := validPublicPoint_iff.mp hkey
    have hlen := length_pointBits (length_coordinateBytes x) (length_coordinateBytes y)
    have hsmall : (pointBits (coordinateBytes x) (coordinateBytes y)).length < Der.maxLength := by
      rw [hlen]
      decide
    have hcontent := length_spkiContent_lt hkey
    obtain ⟨r₁, hsequence, hend⟩ := DerReader.read_last dialect_exact hcontent
      (DerReader.rest_ofData (spkiPublicKey ⟨coordinateBytes x, coordinateBytes y⟩))
    obtain ⟨k₁, halgorithm, hk₁⟩ := readP256AlgorithmIdentifier_of_rest
      (DerReader.rest_ofData (algorithmIdentifier ++ Der.tlv derBitString
        (pointBits (coordinateBytes x) (coordinateBytes y))))
    obtain ⟨k₂, hbits, hempty⟩ := DerReader.read_last dialect_exact hsmall hk₁
    have hpoint := readUncompressedP256Point_eq_ok_iff.mpr ⟨x, y, hcurve, rfl, rfl⟩
    rw [parseP256PublicKey, hsequence]
    simp only [ok_bind, hend, halgorithm, hbits, hpoint, hempty, require_true]
    rfl

/-- A SEC1 private key with its curve is read by the parser of both containers. -/
lemma parseP256PrivateKeyDer_sec1 {scalar : List UInt8} (h : ValidPrivateScalar scalar)
    (publicKey : Bool) :
    parseP256PrivateKeyDer (sec1PrivateKey scalar true publicKey) = .ok ⟨scalar⟩ := by
  have hsec1 : parseSec1P256PrivateKey (sec1PrivateKey scalar true publicKey) true =
      .ok ⟨scalar⟩ :=
    parseSec1P256PrivateKey_eq_ok_iff.mpr ⟨h, true, publicKey, fun _ => rfl, rfl⟩
  rw [parseP256PrivateKeyDer, hsec1]

lemma validPrivateScalar_of_parse {der : List UInt8} {key : EcPrivateKeyMaterial}
    (h : parseP256PrivateKeyDer der = .ok key) : ValidPrivateScalar key.privateScalar := by
  unfold parseP256PrivateKeyDer at h
  split at h
  next hsec1 =>
    cases h
    exact (parseSec1P256PrivateKey_eq_ok_iff.mp hsec1).1
  next => exact (parsePkcs8P256PrivateKey_eq_ok_iff.mp h).1

end Points

/-! ## Signatures -/

/-- The two integers of a signature, one after the other, as numbers. -/
def signatureBody (r s : ℕ) : List UInt8 :=
  Der.tlv derInteger (Der.integerContent r) ++ Der.tlv derInteger (Der.integerContent s)

/-- The encoding of a signature. Every proof about signatures speaks of this one. -/
def signatureDer (r s : ℕ) : List UInt8 :=
  Der.tlv derSequence (signatureBody r s)

/-- A bound on the body bounds the content of each integer. -/
lemma length_contents_lt {r s : ℕ} (h : (signatureBody r s).length < Der.maxLength) :
    (Der.integerContent r).length < Der.maxLength ∧
      (Der.integerContent s).length < Der.maxLength := by
  have hr := Der.length_le_length_tlv derInteger (Der.integerContent r)
  have hs := Der.length_le_length_tlv derInteger (Der.integerContent s)
  rw [signatureBody, List.length_append] at h
  exact ⟨hr.trans (by omega), hs.trans (by omega)⟩

/-- The integers of an order of 32 bytes are short, so that signatures never meet the bound of the
reader. -/
lemma length_signatureBody_lt {r s : ℕ} (hr : r < 2 ^ 256) (hs : s < 2 ^ 256) :
    (signatureBody r s).length < Der.maxLength := by
  have hcontent : ∀ k : ℕ, k < 2 ^ 256 →
      (Der.tlv derInteger (Der.integerContent k)).length ≤ 43 := by
    intro k hk
    have hmin : (minBeBytes k).length ≤ 32 := (length_minBeBytes_le_iff (by norm_num)).mpr hk
    have hint : (Der.integerContent k).length ≤ 33 := by
      rw [Der.integerContent]
      split
      · rw [List.length_cons]
        omega
      · omega
    have := Der.length_tlv_le derInteger (lt_of_le_of_lt hint (by decide))
    omega
  rw [signatureBody, List.length_append]
  have := hcontent r hr
  have := hcontent s hs
  exact lt_of_le_of_lt (by omega : _ ≤ 86) (by decide)

/-- A signature is read from its encoding and from nothing else, and its integers come back in their
shortest form. -/
theorem parseEcdsaSignature_eq_ok_iff {der : List UInt8} {signature : EcdsaSignatureMaterial} :
    parseEcdsaSignature der = .ok signature ↔
      ∃ r s : ℕ, signature = ⟨minBeBytes r, minBeBytes s⟩ ∧
        (signatureBody r s).length < Der.maxLength ∧ der = signatureDer r s := by
  constructor
  · intro h
    obtain ⟨⟨sequence, r₁⟩, hsequence, h⟩ := Loops.bind_eq_ok.mp h
    obtain ⟨_, hend, h⟩ := Loops.bind_eq_ok.mp h
    obtain ⟨⟨r, k₁⟩, hr, h⟩ := Loops.bind_eq_ok.mp h
    obtain ⟨⟨s, k₂⟩, hs, h⟩ := Loops.bind_eq_ok.mp h
    obtain ⟨_, hempty, h⟩ := Loops.bind_eq_ok.mp h
    cases h
    rw [require_eq_ok] at hend hempty
    obtain ⟨hrmin, -, hbody⟩ := DerReader.readInteger_ok dialect_exact hr
    obtain ⟨hsmin, -, hsrest⟩ := DerReader.readInteger_ok dialect_exact hs
    rw [DerReader.rest_ofData, hsrest, (DerReader.empty_iff k₂).mp hempty,
      List.append_nil] at hbody
    obtain ⟨hlen, hder⟩ := DerReader.read_whole_ok dialect_exact hsequence hend
    rw [hbody] at hlen hder
    exact ⟨beValue r, beValue s, by rw [← hrmin, ← hsmin], hlen, hder⟩
  · rintro ⟨r, s, rfl, hbody, rfl⟩
    obtain ⟨hrlen, hslen⟩ := length_contents_lt hbody
    obtain ⟨r₁, hsequence, hend⟩ := DerReader.read_last dialect_exact hbody
      (DerReader.rest_ofData (signatureDer r s))
    obtain ⟨k₁, hr, hk₁⟩ := DerReader.readInteger_of_rest dialect_exact hrlen
      (DerReader.rest_ofData (signatureBody r s))
    obtain ⟨k₂, hs, hk₂⟩ := DerReader.readInteger_of_rest dialect_exact hslen
      (hk₁.trans (List.append_nil _).symm)
    have hempty := (DerReader.empty_iff k₂).mpr hk₂
    rw [parseEcdsaSignature, hsequence]
    simp only [ok_bind, hend, readInteger, hr, hs, hempty, require_true]
    rfl

/-! ### The writer -/

/-- The loop writes the digits of the length in base 256. -/
lemma lengthOctets_eq (length : ℕ) : lengthOctets length = beBytes (byteLength length) length := by
  induction length using lengthOctets.induct with
  | case1 length hne ih =>
      rw [lengthOctets, if_pos hne, ih, byteLength_div length hne, Nat.shiftRight_eq_div_pow]
      rfl
  | case2 length hzero =>
      rw [not_not] at hzero
      subst hzero
      rw [lengthOctets]
      rfl

/-- Setting the high bit of a small number adds 128. -/
lemma or_high_bit {k : ℕ} (h : k < 128) :
    (0x80 : UInt8) ||| UInt8.ofNat k = UInt8.ofNat (0x80 + k) := by
  have hor := Nat.two_pow_add_eq_or_of_lt (show k < 2 ^ 7 from h) 1
  rw [← UInt8.toNat_inj, UInt8.toNat_or, UInt8.toNat_ofNat', UInt8.toNat_ofNat',
    Nat.mod_eq_of_lt (by omega), Nat.mod_eq_of_lt (by omega)]
  exact hor.symm

/-- The writer appends a canonical encoding, for contents below the bound. -/
lemma writeDerTlv_eq {content : List UInt8} (h : content.length < Der.maxLength)
    (output : List UInt8) (tag : UInt8) :
    writeDerTlv output tag content = output ++ Der.tlv tag content := by
  have hcount := Der.byteLength_le_eight h
  have hlength : writeDerLength (output ++ [tag]) content.length =
      output ++ [tag] ++ Der.lengthBytes content.length := by
    unfold writeDerLength Der.lengthBytes
    split
    · rfl
    next hlarge =>
      dsimp only
      rw [lengthOctets_eq, length_beBytes, or_high_bit (by omega),
        Der.minBeBytes_of_ne_zero (by omega), List.append_assoc]
      rfl
  rw [writeDerTlv, hlength, Der.tlv]
  simp

/-- The content depends on the number alone, not on the leading zeros of the bytes. -/
lemma encodedIntegerContent_eq (value : List UInt8) :
    encodedIntegerContent value = Der.integerContent (beValue value) := by
  unfold encodedIntegerContent
  dsimp only
  by_cases hzero : beValue value = 0
  · rw [(beValue_eq_zero_iff value).mp hzero, hzero]
    decide
  · rw [dropWhile_zero_eq_minBeBytes hzero, Der.integerContent]
    have hne : (minBeBytes (beValue value)).isEmpty = false := by
      rw [List.isEmpty_eq_false_iff]
      exact Der.minBeBytes_ne_nil _
    rw [hne, if_neg Bool.false_ne_true]
    split <;> rfl

lemma writeBody_eq {r s : ℕ} (hr : (Der.integerContent r).length < Der.maxLength)
    (hs : (Der.integerContent s).length < Der.maxLength) :
    writeDerTlv (writeDerTlv [] derInteger (Der.integerContent r)) derInteger
      (Der.integerContent s) = signatureBody r s := by
  rw [writeDerTlv_eq hr, writeDerTlv_eq hs]
  rfl

/-- The writer encodes the two numbers, for bodies below the bound. -/
theorem encodeEcdsaSignatureDer_eq {r s : List UInt8}
    (h : (signatureBody (beValue r) (beValue s)).length < Der.maxLength) :
    encodeEcdsaSignatureDer r s = .ok (signatureDer (beValue r) (beValue s)) := by
  obtain ⟨hrlen, hslen⟩ := length_contents_lt h
  rw [encodeEcdsaSignatureDer, encodedIntegerContent_eq, encodedIntegerContent_eq,
    writeBody_eq hrlen hslen]
  exact congrArg Except.ok (writeDerTlv_eq h [] derSequence)

/-- Writing an element makes the output longer than its content. -/
lemma length_lt_length_writeDerTlv (output : List UInt8) (tag : UInt8) (content : List UInt8) :
    content.length + output.length < (writeDerTlv output tag content).length := by
  rw [writeDerTlv, writeDerLength]
  split <;> simp only [List.length_append, List.length_singleton] <;> omega

/-- An encoding whose length the machine can hold is that of its numbers: the lengths inside it are
smaller still. -/
theorem eq_signatureDer_of_encode {r s der : List UInt8}
    (h : encodeEcdsaSignatureDer r s = .ok der) (hder : der.length < Der.maxLength) :
    (signatureBody (beValue r) (beValue s)).length < Der.maxLength ∧
      der = signatureDer (beValue r) (beValue s) := by
  rw [encodeEcdsaSignatureDer, encodedIntegerContent_eq, encodedIntegerContent_eq,
    Except.ok.injEq] at h
  have houter := length_lt_length_writeDerTlv [] derSequence
    (writeDerTlv (writeDerTlv [] derInteger (Der.integerContent (beValue r))) derInteger
      (Der.integerContent (beValue s)))
  have hinner := length_lt_length_writeDerTlv
    (writeDerTlv [] derInteger (Der.integerContent (beValue r))) derInteger
    (Der.integerContent (beValue s))
  have hfirst := length_lt_length_writeDerTlv [] derInteger (Der.integerContent (beValue r))
  rw [h] at houter
  have hbody := writeBody_eq (r := beValue r) (s := beValue s) (by omega) (by omega)
  rw [hbody] at h houter
  have hlen : (signatureBody (beValue r) (beValue s)).length < Der.maxLength := by omega
  exact ⟨hlen, h.symm.trans (writeDerTlv_eq hlen [] derSequence)⟩

end EcDer

end CryptoCore
