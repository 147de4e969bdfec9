import CryptoCore.Construction.BigInt
import CryptoCore.Construction.DerReader

/-!
# The RSA key parsers

The PKCS#1, SubjectPublicKeyInfo and PKCS#8 containers of `rsa_der.cpp`, and the arithmetic the
private key has to satisfy. The parsers are translated field by field, with the text of each error,
since callers see it.

Each container has a definition that writes it (`pkcs1PublicKey`, `spkiPublicKey`,
`pkcs1PrivateKey`, `pkcs8PrivateKey`). The library has no writer for keys: these definitions are the
specification, and the theorems `parsePkcs1PublicKey_eq_ok_iff` and its three siblings say that a
parser accepts exactly what they write, for keys whose fields satisfy the checks and whose content
has a length the machine can hold. The reader's lemmas are used in pairs, one for each direction:
`…_ok` peels an element off what was accepted, `…_of_rest` reads an element that is there.

`ValidPrivateKey` is the arithmetic of a private key on the numbers the fields stand for, and
`parseRsaPrivateKeyDer_valid` says that every parsed private key satisfies it. Nothing is said about
primality: the source does not test it, and the theorems about private operations name it where they
need it. `Construction/Rsa.lean` starts from these keys.
-/

namespace CryptoCore

open ByteStrings

/-- The two numbers of a public key, each in its shortest form. -/
structure RsaPublicKeyMaterial where
  modulus : ByteBuffer
  publicExponent : ByteBuffer
  deriving DecidableEq

/-- The eight numbers of a private key, in the order of the container. -/
structure RsaPrivateKeyMaterial where
  modulus : ByteBuffer
  publicExponent : ByteBuffer
  privateExponent : ByteBuffer
  prime1 : ByteBuffer
  prime2 : ByteBuffer
  exponent1 : ByteBuffer
  exponent2 : ByteBuffer
  coefficient : ByteBuffer
  deriving DecidableEq

namespace RsaDer

/-- The tags and the object identifier that the containers use. -/
def derSequence : UInt8 := 0x30
def derBitString : UInt8 := 0x03
def derOctetString : UInt8 := 0x04
def derNull : UInt8 := 0x05
def derOid : UInt8 := 0x06
def derInteger : UInt8 := 0x02

def rsaEncryptionOid : List UInt8 :=
  [0x2A, 0x86, 0x48, 0x86, 0xF7, 0x0D, 0x01, 0x01, 0x01]

/-- The reader of this file: the shift of a length octet wraps. It is never reached with a length
that does not fit. -/
def dialect : DerDialect where
  category := "rsa_der"
  shiftIn length octet := .ok ((length <<< 8) ||| octet.toUInt64)

def derError (message : String) : Error :=
  dialect.error message

/-! ## Integers -/

/-- An INTEGER that is not negative. Zero passes here and is refused by the callers that need more.
-/
def readPositiveInteger (reader : DerReader) : Result (ByteBuffer × DerReader) :=
  reader.readInteger dialect

def isZero (bytes : List UInt8) : Bool :=
  bytes.all (· == 0)

def isOne (bytes : List UInt8) : Bool :=
  bytes.length == 1 && bytes.headD 0 == 1

/-- The parity, read off the last byte. An empty byte string is not odd. -/
def isOdd (bytes : List UInt8) : Bool :=
  !bytes.isEmpty && bytes.getLastD 0 &&& 1 != 0

/-- An INTEGER above zero; the name is the text of the error. -/
def readNonZeroInteger (name : String) (reader : DerReader) : Result (ByteBuffer × DerReader) := do
  let (value, reader) ← readPositiveInteger reader
  require (!isZero value) (derError name)
  return (value, reader)

/-- An odd INTEGER above one: moduli, exponents and primes are read this way. -/
def readOddGreaterThanOneInteger (name : String) (reader : DerReader) :
    Result (ByteBuffer × DerReader) := do
  let (value, reader) ← readNonZeroInteger name reader
  require (!(isOne value || !isOdd value)) (derError name)
  return (value, reader)

/-! ## The arithmetic of a private key -/

def readBigint (value : ByteBuffer) : Result BigInt :=
  BigInt.fromBeBytes value

/-- The comparison of two numbers, with the text of the relation that it checks. -/
def requireEqual (lhs rhs : BigInt) (message : String) : Result Unit :=
  require (lhs.compare rhs == 0) (derError message)

/-- A remainder, computed as a modular sum with the number of the empty byte string. -/
def reduce (value modulus : BigInt) : Result BigInt := do
  let zero ← BigInt.fromBeBytes []
  BigInt.modAdd value zero modulus

/-- The relations between the fields of a private key: the product of the primes, both reduced
exponents, their products with the public exponent, and the coefficient. The primes are not tested.
-/
def validatePrivateKeyMath (modulus publicExponent privateExponent prime1 prime2 exponent1
    exponent2 coefficient : ByteBuffer) : Result Unit := do
  let integerError := derError "invalid RSA private key integer"
  let n ← orError (readBigint modulus) integerError
  let e ← orError (readBigint publicExponent) integerError
  let d ← orError (readBigint privateExponent) integerError
  let p ← orError (readBigint prime1) integerError
  let q ← orError (readBigint prime2) integerError
  let dp ← orError (readBigint exponent1) integerError
  let dq ← orError (readBigint exponent2) integerError
  let qi ← orError (readBigint coefficient) integerError
  let one ← orError (BigInt.fromBeBytes [1]) integerError
  let product := BigInt.multiply p q
  requireEqual product n "RSA modulus must equal p*q"
  let modulusError := derError "invalid RSA CRT modulus"
  let pMinusOne ← orError (BigInt.modSubtract p one p) modulusError
  let qMinusOne ← orError (BigInt.modSubtract q one q) modulusError
  let exponentError := derError "invalid RSA CRT exponent"
  let dModP ← orError (reduce d pMinusOne) exponentError
  let dModQ ← orError (reduce d qMinusOne) exponentError
  requireEqual dModP dp "RSA exponent1 must equal d mod (p-1)"
  requireEqual dModQ dq "RSA exponent2 must equal d mod (q-1)"
  let relationError := derError "invalid RSA CRT relation"
  let edp ← orError (BigInt.modMultiply e dp pMinusOne) relationError
  let edq ← orError (BigInt.modMultiply e dq qMinusOne) relationError
  let qiq ← orError (BigInt.modMultiply q qi p) relationError
  requireEqual edp one "RSA exponent1 is not inverse of public exponent mod (p-1)"
  requireEqual edq one "RSA exponent2 is not inverse of public exponent mod (q-1)"
  requireEqual qiq one "RSA coefficient must equal q^-1 mod p"

/-! ## Containers -/

/-- The version of a private key container, which must be the single byte zero. -/
def readVersionZero (reader : DerReader) : Result DerReader := do
  let (content, reader) ← reader.read dialect derInteger
  require (!(content.length != 1 || content.headD 0 != 0))
    (derError "unsupported RSA key version")
  return reader

/-- The algorithm identifier, with the NULL parameters that RSA prescribes. -/
def readRsaAlgorithmIdentifier (reader : DerReader) : Result DerReader := do
  let (sequence, reader) ← reader.read dialect derSequence
  let algorithm := DerReader.ofData sequence
  let (oid, algorithm) ← algorithm.read dialect derOid
  require (oid == rsaEncryptionOid) (derError "algorithm identifier is not rsaEncryption")
  let (nullValue, algorithm) ← algorithm.read dialect derNull
  require (!(!nullValue.isEmpty || !algorithm.empty))
    (derError "invalid rsaEncryption parameters")
  return reader

/-- The bare public key, a sequence of two numbers, both of them odd and above one. -/
def parsePkcs1PublicKey (der : List UInt8) : Result RsaPublicKeyMaterial := do
  let (sequence, reader) ← (DerReader.ofData der).read dialect derSequence
  require reader.empty (derError "trailing data after RSA public key")
  let key := DerReader.ofData sequence
  let (modulus, key) ← readOddGreaterThanOneInteger
    "RSA modulus must be odd and greater than one" key
  let (publicExponent, key) ← readOddGreaterThanOneInteger
    "RSA public exponent must be odd and greater than one" key
  require key.empty (derError "trailing data in RSA public key")
  return { modulus, publicExponent }

/-- The public key under its algorithm identifier. The bit string must have no unused bits. -/
def parseSpkiPublicKey (der : List UInt8) : Result RsaPublicKeyMaterial := do
  let (sequence, reader) ← (DerReader.ofData der).read dialect derSequence
  require reader.empty (derError "trailing data after SubjectPublicKeyInfo")
  let spki := DerReader.ofData sequence
  let spki ← readRsaAlgorithmIdentifier spki
  let (bitString, spki) ← spki.read dialect derBitString
  require (!(bitString.isEmpty || bitString.headD 0 != 0))
    (derError "invalid RSA public key bit string")
  require spki.empty (derError "trailing data in SubjectPublicKeyInfo")
  parsePkcs1PublicKey (bitString.drop 1)

/-- The bare private key: version zero, the eight numbers, and the relations between them. -/
def parsePkcs1PrivateKey (der : List UInt8) : Result RsaPrivateKeyMaterial := do
  let (sequence, reader) ← (DerReader.ofData der).read dialect derSequence
  require reader.empty (derError "trailing data after RSA private key")
  let key := DerReader.ofData sequence
  let key ← readVersionZero key
  let (modulus, key) ← readOddGreaterThanOneInteger
    "RSA modulus must be odd and greater than one" key
  let (publicExponent, key) ← readOddGreaterThanOneInteger
    "RSA public exponent must be odd and greater than one" key
  let (privateExponent, key) ← readNonZeroInteger "RSA private exponent must be non-zero" key
  let (prime1, key) ← readOddGreaterThanOneInteger
    "RSA prime1 must be odd and greater than one" key
  let (prime2, key) ← readOddGreaterThanOneInteger
    "RSA prime2 must be odd and greater than one" key
  let (exponent1, key) ← readNonZeroInteger "RSA exponent1 must be non-zero" key
  let (exponent2, key) ← readNonZeroInteger "RSA exponent2 must be non-zero" key
  let (coefficient, key) ← readNonZeroInteger "RSA coefficient must be non-zero" key
  require key.empty (derError "trailing data in RSA private key")
  validatePrivateKeyMath modulus publicExponent privateExponent prime1 prime2 exponent1 exponent2
    coefficient
  return {
    modulus, publicExponent, privateExponent, prime1, prime2, exponent1, exponent2, coefficient }

/-- The private key under its algorithm identifier, in an octet string. -/
def parsePkcs8PrivateKey (der : List UInt8) : Result RsaPrivateKeyMaterial := do
  let (sequence, reader) ← (DerReader.ofData der).read dialect derSequence
  require reader.empty (derError "trailing data after PrivateKeyInfo")
  let privateKeyInfo := DerReader.ofData sequence
  let privateKeyInfo ← readVersionZero privateKeyInfo
  let privateKeyInfo ← readRsaAlgorithmIdentifier privateKeyInfo
  let (privateKey, privateKeyInfo) ← privateKeyInfo.read dialect derOctetString
  require privateKeyInfo.empty (derError "trailing data in PrivateKeyInfo")
  parsePkcs1PrivateKey privateKey

end RsaDer

open RsaDer

/-- A public key of either container. The error that is reported is that of the second attempt. -/
def parseRsaPublicKeyDer (der : List UInt8) : Result RsaPublicKeyMaterial :=
  match parsePkcs1PublicKey der with
  | .ok key => .ok key
  | .error _ => parseSpkiPublicKey der

def parseRsaSpkiPublicKeyDer (der : List UInt8) : Result RsaPublicKeyMaterial :=
  parseSpkiPublicKey der

def parseRsaPkcs1PublicKeyDer (der : List UInt8) : Result RsaPublicKeyMaterial :=
  parsePkcs1PublicKey der

/-- A private key of either container, tried in the order of the source. -/
def parseRsaPrivateKeyDer (der : List UInt8) : Result RsaPrivateKeyMaterial :=
  match parsePkcs1PrivateKey der with
  | .ok key => .ok key
  | .error _ => parsePkcs8PrivateKey der

def parseRsaPkcs8PrivateKeyDer (der : List UInt8) : Result RsaPrivateKeyMaterial :=
  parsePkcs8PrivateKey der

def parseRsaPkcs1PrivateKeyDer (der : List UInt8) : Result RsaPrivateKeyMaterial :=
  parsePkcs1PrivateKey der

/-! ## What the parsers accept -/

namespace RsaDer

/-- The wrapping shift loses nothing as long as the length fits. -/
lemma dialect_exact : dialect.Exact := fun length octet h =>
  ⟨_, rfl, shiftLeft_or_octet length octet h⟩

/-- A field that holds the shortest encoding of an odd number above one. -/
structure OddField (bytes : ByteBuffer) : Prop where
  minimal : bytes = minBeBytes (beValue bytes)
  length_lt : bytes.length < Der.maxLength
  odd : beValue bytes % 2 = 1
  one_lt : 1 < beValue bytes

/-- A field that holds the shortest encoding of a positive number. -/
structure PositiveField (bytes : ByteBuffer) : Prop where
  minimal : bytes = minBeBytes (beValue bytes)
  length_lt : bytes.length < Der.maxLength
  pos : 0 < beValue bytes

/-- A byte string of zeros is one that stands for zero. -/
lemma isZero_iff (bytes : List UInt8) : isZero bytes = true ↔ beValue bytes = 0 := by
  rw [beValue_eq_zero_iff, isZero, List.all_eq_true, List.dropWhile_eq_nil_iff]

/-- The INTEGER of a number, as the containers hold it. -/
def integerElement (value : ByteBuffer) : List UInt8 :=
  Der.tlv derInteger (Der.integerContent (beValue value))

/-- The INTEGERs of several numbers, one behind the other as they stand in a sequence. -/
def integerElements : List ByteBuffer → List UInt8
  | [] => []
  | value :: values => integerElement value ++ integerElements values

/-- Each content is shorter than the elements that hold it, so that one bound on the container
bounds all of them. -/
lemma length_lt_integerElements {value : ByteBuffer} {values : List ByteBuffer}
    (h : value ∈ values) :
    (Der.integerContent (beValue value)).length < (integerElements values).length := by
  induction values with
  | nil => cases h
  | cons v values ih =>
      rw [integerElements, List.length_append]
      rcases List.mem_cons.mp h with rfl | hmem
      · have := Der.length_le_length_tlv derInteger (Der.integerContent (beValue value))
        rw [integerElement]
        omega
      · have := ih hmem
        omega

variable {name : String} {r r' : DerReader} {value : ByteBuffer} {bs : List UInt8}

lemma readNonZeroInteger_ok (h : readNonZeroInteger name r = .ok (value, r')) :
    PositiveField value ∧ r.rest = integerElement value ++ r'.rest := by
  obtain ⟨⟨v, r₁⟩, hread, h⟩ := Loops.bind_eq_ok.mp h
  obtain ⟨_, hzero, h⟩ := Loops.bind_eq_ok.mp h
  cases h
  rw [require_eq_ok, Bool.not_eq_true', ← Bool.not_eq_true, isZero_iff] at hzero
  obtain ⟨hminimal, hlength, hrest⟩ := DerReader.readInteger_ok dialect_exact hread
  refine ⟨⟨hminimal, ?_, Nat.pos_of_ne_zero hzero⟩, hrest⟩
  calc value.length = (minBeBytes (beValue value)).length := congrArg List.length hminimal
    _ ≤ (Der.integerContent (beValue value)).length := Der.length_minBeBytes_le _
    _ < Der.maxLength := hlength

lemma readNonZeroInteger_of_rest (name : String) (hvalue : PositiveField value)
    (hlength : (Der.integerContent (beValue value)).length < Der.maxLength)
    (h : r.rest = integerElement value ++ bs) :
    ∃ r', readNonZeroInteger name r = .ok (value, r') ∧ r'.rest = bs := by
  obtain ⟨r', hread, hrest⟩ := DerReader.readInteger_of_rest dialect_exact hlength h
  rw [← hvalue.minimal] at hread
  have hzero : (!isZero value) = true := by
    rw [Bool.not_eq_true', ← Bool.not_eq_true, isZero_iff]
    exact hvalue.pos.ne'
  refine ⟨r', ?_, hrest⟩
  rw [readNonZeroInteger, readPositiveInteger, hread]
  simp only [ok_bind, hzero, require_true]
  rfl

lemma isOdd_iff (bytes : List UInt8) : isOdd bytes = true ↔ beValue bytes % 2 = 1 := by
  rcases List.eq_nil_or_concat' bytes with rfl | ⟨bs, b, rfl⟩
  · decide
  · have hand : (b &&& 1).toNat = b.toNat % 2 := by simp [UInt8.toNat_and]
    have hodd : (b &&& 1 != 0) = true ↔ b.toNat % 2 = 1 := by
      rw [bne_iff_ne, Ne, ← UInt8.toNat_inj, hand, UInt8.toNat_zero]
      omega
    rw [isOdd, beValue_concat]
    simp only [List.getLastD_concat, Bool.and_eq_true, hodd]
    simp
    omega

lemma OddField.positiveField (h : OddField value) : PositiveField value :=
  ⟨h.minimal, h.length_lt, Nat.lt_of_succ_lt h.one_lt⟩

/-- What the read accepts is a field with an odd number above one. -/
lemma readOddGreaterThanOneInteger_ok
    (h : readOddGreaterThanOneInteger name r = .ok (value, r')) :
    OddField value ∧ r.rest = integerElement value ++ r'.rest := by
  obtain ⟨⟨v, r₁⟩, hread, h⟩ := Loops.bind_eq_ok.mp h
  obtain ⟨_, hodd, h⟩ := Loops.bind_eq_ok.mp h
  cases h
  obtain ⟨hpos, hrest⟩ := readNonZeroInteger_ok hread
  rw [require_eq_ok, Bool.not_eq_true', Bool.or_eq_false_iff, Bool.not_eq_false', isOdd_iff] at hodd
  refine ⟨⟨hpos.minimal, hpos.length_lt, hodd.2, ?_⟩, hrest⟩
  by_contra hle
  have hone : beValue value = 1 := by
    have := hpos.pos
    omega
  have hmin := hpos.minimal
  rw [hone] at hmin
  rw [hmin] at hodd
  exact absurd hodd.1 (by decide)

lemma readOddGreaterThanOneInteger_of_rest (name : String) (hvalue : OddField value)
    (hlength : (Der.integerContent (beValue value)).length < Der.maxLength)
    (h : r.rest = integerElement value ++ bs) :
    ∃ r', readOddGreaterThanOneInteger name r = .ok (value, r') ∧ r'.rest = bs := by
  obtain ⟨r', hread, hrest⟩ :=
    readNonZeroInteger_of_rest name hvalue.positiveField hlength h
  have hone : isOne value = false := by
    rw [← Bool.not_eq_true, isOne, Bool.and_eq_true, beq_iff_eq, beq_iff_eq]
    rintro ⟨hlen, hhead⟩
    obtain ⟨b, rfl⟩ := List.length_eq_one_iff.mp hlen
    rw [List.headD_cons] at hhead
    subst hhead
    exact absurd hvalue.one_lt (by decide)
  have hodd : (!(isOne value || !isOdd value)) = true := by
    rw [hone, (isOdd_iff value).mpr hvalue.odd]
    rfl
  refine ⟨r', ?_, hrest⟩
  rw [readOddGreaterThanOneInteger, hread]
  simp only [ok_bind, hodd, require_true]
  rfl

/-- A comparison that passes is an equation of numbers, and the computation continues. -/
lemma requireEqual_bind_eq_ok {α : Type} {x y : BigInt} {message : String}
    {k : Unit → Result α} {a : α} :
    (requireEqual x y message >>= k) = .ok a ↔ x.toNat = y.toNat ∧ k () = .ok a := by
  rw [requireEqual, require_bind_eq_ok, beq_iff_eq, BigInt.compare_eq_zero_iff]

lemma requireEqual_eq_ok {x y : BigInt} {message : String} {u : Unit} :
    requireEqual x y message = .ok u ↔ x.toNat = y.toNat := by
  rw [requireEqual, require_eq_ok, beq_iff_eq, BigInt.compare_eq_zero_iff]

/-- The arithmetic of a private key, on the numbers its fields stand for. It is what the private
operations rely on, together with the primality of the factors. -/
structure ValidPrivateKey (key : RsaPrivateKeyMaterial) : Prop where
  modulus : OddField key.modulus
  publicExponent : OddField key.publicExponent
  privateExponent : PositiveField key.privateExponent
  prime1 : OddField key.prime1
  prime2 : OddField key.prime2
  exponent1 : PositiveField key.exponent1
  exponent2 : PositiveField key.exponent2
  coefficient : PositiveField key.coefficient
  product : beValue key.prime1 * beValue key.prime2 = beValue key.modulus
  exponent1_eq : beValue key.privateExponent % (beValue key.prime1 - 1) = beValue key.exponent1
  exponent2_eq : beValue key.privateExponent % (beValue key.prime2 - 1) = beValue key.exponent2
  inverse1 : beValue key.publicExponent * beValue key.exponent1 % (beValue key.prime1 - 1) = 1
  inverse2 : beValue key.publicExponent * beValue key.exponent2 % (beValue key.prime2 - 1) = 1
  coefficient_eq : beValue key.prime2 * beValue key.coefficient % beValue key.prime1 = 1

/-- No step of the arithmetic fails on primes above one: six comparisons are left. -/
lemma validatePrivateKeyMath_eq (n e d : ByteBuffer) {p q : ByteBuffer} (dp dq qi : ByteBuffer)
    (hp : 1 < beValue p) (hq : 1 < beValue q) :
    validatePrivateKeyMath n e d p q dp dq qi = (do
      requireEqual (BigInt.multiply (BigInt.ofNat (beValue p)) (BigInt.ofNat (beValue q)))
        (BigInt.ofNat (beValue n)) "RSA modulus must equal p*q"
      requireEqual (BigInt.ofNat (beValue d % (beValue p - 1))) (BigInt.ofNat (beValue dp))
        "RSA exponent1 must equal d mod (p-1)"
      requireEqual (BigInt.ofNat (beValue d % (beValue q - 1))) (BigInt.ofNat (beValue dq))
        "RSA exponent2 must equal d mod (q-1)"
      requireEqual (BigInt.ofNat (beValue e * beValue dp % (beValue p - 1))) (BigInt.ofNat 1)
        "RSA exponent1 is not inverse of public exponent mod (p-1)"
      requireEqual (BigInt.ofNat (beValue e * beValue dq % (beValue q - 1))) (BigInt.ofNat 1)
        "RSA exponent2 is not inverse of public exponent mod (q-1)"
      requireEqual (BigInt.ofNat (beValue q * beValue qi % beValue p)) (BigInt.ofNat 1)
        "RSA coefficient must equal q^-1 mod p") := by
  have hminus : ∀ {m : BigInt}, 1 < m.toNat →
      BigInt.modSubtract m (BigInt.ofNat 1) m = .ok (BigInt.ofNat (m.toNat - 1)) := by
    intro m hm
    rw [BigInt.modSubtract_eq _ _ (by omega), BigInt.toNat_ofNat, Nat.mod_self, zero_add,
      Nat.mod_eq_of_lt hm, Nat.mod_eq_of_lt (by omega)]
  -- The source reduces by adding zero, so both helpers are one modular operation.
  have hreduce : ∀ {x m : BigInt}, m.toNat ≠ 0 →
      reduce x m = .ok (BigInt.ofNat (x.toNat % m.toNat)) := by
    intro x m hm
    rw [reduce, BigInt.fromBeBytes_eq, ok_bind, BigInt.modAdd_eq _ _ hm, BigInt.toNat_ofNat,
      beValue_nil, add_zero]
  have hpb : (BigInt.ofNat (beValue p - 1)).toNat ≠ 0 := by rw [BigInt.toNat_ofNat]; omega
  have hqb : (BigInt.ofNat (beValue q - 1)).toNat ≠ 0 := by rw [BigInt.toNat_ofNat]; omega
  have hpm : 1 < (BigInt.ofNat (beValue p)).toNat := by rwa [BigInt.toNat_ofNat]
  have hqm : 1 < (BigInt.ofNat (beValue q)).toNat := by rwa [BigInt.toNat_ofNat]
  simp only [validatePrivateKeyMath, readBigint, BigInt.fromBeBytes_eq, orError_ok, ok_bind,
    beValue_singleton, UInt8.toNat_one, hminus hpm, hminus hqm, BigInt.toNat_ofNat, hreduce hpb,
    hreduce hqb, BigInt.modMultiply_eq _ _ hpb, BigInt.modMultiply_eq _ _ hqb,
    BigInt.modMultiply_eq _ _ (Nat.ne_of_gt (Nat.lt_of_succ_lt hpm))]

/-- The math check passes exactly when the numbers satisfy the relations. -/
lemma validatePrivateKeyMath_eq_ok_iff {n e d p q dp dq qi : ByteBuffer} {u : Unit}
    (hp : 1 < beValue p) (hq : 1 < beValue q) :
    validatePrivateKeyMath n e d p q dp dq qi = .ok u ↔
      beValue p * beValue q = beValue n ∧
      beValue d % (beValue p - 1) = beValue dp ∧ beValue d % (beValue q - 1) = beValue dq ∧
      beValue e * beValue dp % (beValue p - 1) = 1 ∧
      beValue e * beValue dq % (beValue q - 1) = 1 ∧
      beValue q * beValue qi % beValue p = 1 := by
  rw [validatePrivateKeyMath_eq n e d dp dq qi hp hq]
  simp only [requireEqual_bind_eq_ok, requireEqual_eq_ok, BigInt.toNat_multiply,
    BigInt.toNat_ofNat]

/-! ### The containers -/

/-- The fields of a parsed public key: two odd numbers above one. -/
structure ValidPublicKey (key : RsaPublicKeyMaterial) : Prop where
  modulus : OddField key.modulus
  publicExponent : OddField key.publicExponent

/-- A PKCS#1 public key: the sequence of its modulus and its exponent. -/
def pkcs1PublicKey (key : RsaPublicKeyMaterial) : List UInt8 :=
  Der.tlv derSequence (integerElements [key.modulus, key.publicExponent])

/-- The algorithm identifier of an RSA key: its object identifier, and a null for the parameters. -/
def rsaAlgorithmIdentifier : List UInt8 :=
  Der.tlv derSequence (Der.tlv derOid rsaEncryptionOid ++ Der.tlv derNull [])

/-- The elements of a SubjectPublicKeyInfo around a PKCS#1 public key. -/
def spkiBody (key : RsaPublicKeyMaterial) : List UInt8 :=
  rsaAlgorithmIdentifier ++ Der.tlv derBitString (0x00 :: pkcs1PublicKey key)

/-- The SubjectPublicKeyInfo of a public key, whose bits are the PKCS#1 encoding. -/
def spkiPublicKey (key : RsaPublicKeyMaterial) : List UInt8 :=
  Der.tlv derSequence (spkiBody key)

/-- The integers of a private key, in the order of the container. -/
def privateKeyFields (key : RsaPrivateKeyMaterial) : List ByteBuffer :=
  [key.modulus, key.publicExponent, key.privateExponent, key.prime1, key.prime2, key.exponent1,
    key.exponent2, key.coefficient]

/-- A PKCS#1 private key: a version of zero, and its eight numbers. -/
def pkcs1PrivateKey (key : RsaPrivateKeyMaterial) : List UInt8 :=
  Der.tlv derSequence (Der.tlv derInteger [0x00] ++ integerElements (privateKeyFields key))

/-- The elements of a PKCS#8 private key around a PKCS#1 one. -/
def pkcs8Body (key : RsaPrivateKeyMaterial) : List UInt8 :=
  Der.tlv derInteger [0x00] ++
    (rsaAlgorithmIdentifier ++ Der.tlv derOctetString (pkcs1PrivateKey key))

/-- The PKCS#8 encoding of a private key, which holds the PKCS#1 encoding in an octet string. -/
def pkcs8PrivateKey (key : RsaPrivateKeyMaterial) : List UInt8 :=
  Der.tlv derSequence (pkcs8Body key)

/-- An accepted version takes the INTEGER zero off the input. -/
lemma readVersionZero_ok (h : readVersionZero r = .ok r') :
    r.rest = Der.tlv derInteger [0x00] ++ r'.rest := by
  obtain ⟨⟨content, r₁⟩, hread, h⟩ := Loops.bind_eq_ok.mp h
  obtain ⟨hzero, h⟩ := require_bind_eq_ok.mp h
  cases h
  simp only [Bool.not_eq_true', Bool.or_eq_false_iff, bne_eq_false_iff_eq] at hzero
  obtain ⟨b, rfl⟩ := List.length_eq_one_iff.mp hzero.1
  rw [(DerReader.read_ok dialect_exact hread).2, show b = 0 from hzero.2]

lemma readVersionZero_of_rest (h : r.rest = Der.tlv derInteger [0x00] ++ bs) :
    ∃ r', readVersionZero r = .ok r' ∧ r'.rest = bs := by
  obtain ⟨r', hread, hrest⟩ := DerReader.read_of_rest dialect_exact (by decide) h
  refine ⟨r', ?_, hrest⟩
  rw [readVersionZero, hread]
  rfl

/-- An accepted algorithm identifier is the canonical one, byte by byte. -/
lemma readRsaAlgorithmIdentifier_ok (h : readRsaAlgorithmIdentifier r = .ok r') :
    r.rest = rsaAlgorithmIdentifier ++ r'.rest := by
  obtain ⟨⟨sequence, r₁⟩, hsequence, h⟩ := Loops.bind_eq_ok.mp h
  obtain ⟨⟨oid, a₁⟩, hread, h⟩ := Loops.bind_eq_ok.mp h
  obtain ⟨hoid, h⟩ := require_bind_eq_ok.mp h
  obtain ⟨⟨nullValue, a₂⟩, hnull, h⟩ := Loops.bind_eq_ok.mp h
  obtain ⟨hparameters, h⟩ := require_bind_eq_ok.mp h
  cases h
  rw [beq_iff_eq] at hoid
  simp only [Bool.not_eq_true', Bool.or_eq_false_iff, Bool.not_eq_false', List.isEmpty_iff]
    at hparameters
  have halgorithm := (DerReader.read_ok dialect_exact hread).2
  rw [DerReader.rest_ofData, (DerReader.read_ok dialect_exact hnull).2,
    (DerReader.empty_iff a₂).mp hparameters.2, List.append_nil, hoid, hparameters.1] at halgorithm
  rw [(DerReader.read_ok dialect_exact hsequence).2, halgorithm, rsaAlgorithmIdentifier]

lemma readRsaAlgorithmIdentifier_of_rest (h : r.rest = rsaAlgorithmIdentifier ++ bs) :
    ∃ r', readRsaAlgorithmIdentifier r = .ok r' ∧ r'.rest = bs := by
  obtain ⟨r', hsequence, hrest⟩ := DerReader.read_of_rest dialect_exact (by decide) h
  obtain ⟨a₁, hoid, ha₁⟩ := DerReader.read_of_rest dialect_exact (by decide)
    (DerReader.rest_ofData (Der.tlv derOid rsaEncryptionOid ++ Der.tlv derNull []))
  obtain ⟨a₂, hnull, hempty⟩ := DerReader.read_last dialect_exact (by decide) ha₁
  refine ⟨r', ?_, hrest⟩
  simp only [readRsaAlgorithmIdentifier, hsequence, ok_bind, hoid, hnull, hempty,
    beq_self_eq_true, require_true]
  rfl

/-- The parser of bare public keys accepts exactly the encodings of valid keys, and returns the key
that was encoded. -/
theorem parsePkcs1PublicKey_eq_ok_iff {der : List UInt8} {key : RsaPublicKeyMaterial} :
    parsePkcs1PublicKey der = .ok key ↔ ValidPublicKey key ∧
      (integerElements [key.modulus, key.publicExponent]).length < Der.maxLength ∧
      der = pkcs1PublicKey key := by
  constructor
  · intro h
    obtain ⟨⟨sequence, r₁⟩, hsequence, h⟩ := Loops.bind_eq_ok.mp h
    obtain ⟨hend, h⟩ := require_bind_eq_ok.mp h
    obtain ⟨⟨modulus, k₁⟩, hn, h⟩ := Loops.bind_eq_ok.mp h
    obtain ⟨⟨publicExponent, k₂⟩, he, h⟩ := Loops.bind_eq_ok.mp h
    obtain ⟨hempty, h⟩ := require_bind_eq_ok.mp h
    cases h
    obtain ⟨hnfield, hbody⟩ := readOddGreaterThanOneInteger_ok hn
    obtain ⟨hefield, herest⟩ := readOddGreaterThanOneInteger_ok he
    rw [DerReader.rest_ofData, herest, (DerReader.empty_iff k₂).mp hempty] at hbody
    obtain ⟨hlen, hder⟩ := DerReader.read_whole_ok dialect_exact hsequence hend
    rw [hbody] at hlen hder
    exact ⟨⟨hnfield, hefield⟩, hlen, hder⟩
  · rintro ⟨⟨hn, he⟩, hlen, rfl⟩
    have hcontent : ∀ value ∈ [key.modulus, key.publicExponent],
        (Der.integerContent (beValue value)).length < Der.maxLength :=
      fun value hmem => (length_lt_integerElements hmem).trans hlen
    obtain ⟨r₁, hsequence, hend⟩ := DerReader.read_last dialect_exact hlen
      (DerReader.rest_ofData (pkcs1PublicKey key))
    obtain ⟨k₁, hreadn, hk₁⟩ := readOddGreaterThanOneInteger_of_rest
      "RSA modulus must be odd and greater than one" hn (hcontent _ (by simp))
      (DerReader.rest_ofData (integerElements [key.modulus, key.publicExponent]))
    obtain ⟨k₂, hreade, hk₂⟩ := readOddGreaterThanOneInteger_of_rest
      "RSA public exponent must be odd and greater than one" he (hcontent _ (by simp)) hk₁
    have hempty := (DerReader.empty_iff k₂).mpr hk₂
    rw [parsePkcs1PublicKey, hsequence]
    simp only [ok_bind, hend, hreadn, hreade, hempty, require_true]
    rfl

/-- The same for public keys under an algorithm identifier, whose body must have a length below `2 ^
64`. -/
theorem parseSpkiPublicKey_eq_ok_iff {der : List UInt8} {key : RsaPublicKeyMaterial} :
    parseSpkiPublicKey der = .ok key ↔ ValidPublicKey key ∧
      (spkiBody key).length < Der.maxLength ∧ der = spkiPublicKey key := by
  constructor
  · intro h
    obtain ⟨⟨sequence, r₁⟩, hsequence, h⟩ := Loops.bind_eq_ok.mp h
    obtain ⟨hend, h⟩ := require_bind_eq_ok.mp h
    obtain ⟨k₁, halgorithm, h⟩ := Loops.bind_eq_ok.mp h
    obtain ⟨⟨bits, k₂⟩, hbits, h⟩ := Loops.bind_eq_ok.mp h
    obtain ⟨hform, h⟩ := require_bind_eq_ok.mp h
    obtain ⟨hempty, h⟩ := require_bind_eq_ok.mp h
    obtain ⟨hkey, -, hpkcs1⟩ := parsePkcs1PublicKey_eq_ok_iff.mp h
    have hbody := readRsaAlgorithmIdentifier_ok halgorithm
    rw [DerReader.rest_ofData, (DerReader.read_ok dialect_exact hbits).2,
      (DerReader.empty_iff k₂).mp hempty, List.append_nil] at hbody
    obtain _ | ⟨b, bits⟩ := bits
    · exact absurd hform (by decide)
    · simp only [List.isEmpty_cons, List.headD_cons, Bool.false_or, Bool.not_eq_true',
        bne_eq_false_iff_eq] at hform
      rw [List.drop_one, List.tail_cons] at hpkcs1
      obtain ⟨hlen, hder⟩ := DerReader.read_whole_ok dialect_exact hsequence hend
      rw [hbody, hform, hpkcs1] at hlen hder
      exact ⟨hkey, hlen, hder⟩
  · rintro ⟨hkey, hcontent, rfl⟩
    have hbits : (0x00 :: pkcs1PublicKey key).length < Der.maxLength := by
      have hinner := Der.length_le_length_tlv derBitString (0x00 :: pkcs1PublicKey key)
      have htotal := hcontent
      rw [spkiBody, List.length_append] at htotal
      omega
    have hbody := (Der.length_le_length_tlv derSequence
      (integerElements [key.modulus, key.publicExponent])).trans
        ((Nat.lt_succ_self (pkcs1PublicKey key).length).trans hbits)
    obtain ⟨r₁, hsequence, hend⟩ := DerReader.read_last dialect_exact hcontent
      (DerReader.rest_ofData (spkiPublicKey key))
    obtain ⟨k₁, halgorithm, hk₁⟩ := readRsaAlgorithmIdentifier_of_rest
      (DerReader.rest_ofData (spkiBody key))
    obtain ⟨k₂, hread, hempty⟩ := DerReader.read_last dialect_exact hbits hk₁
    have hpkcs1 := parsePkcs1PublicKey_eq_ok_iff.mpr ⟨hkey, hbody, rfl⟩
    rw [parseSpkiPublicKey, hsequence]
    simp only [ok_bind, hend, halgorithm, hread, hempty, require_true, List.isEmpty_cons,
      List.headD_cons, bne_self_eq_false, Bool.or_self, Bool.not_false, List.drop_one,
      List.tail_cons, hpkcs1]

/-- The parser of bare private keys accepts exactly the encodings of keys whose numbers satisfy the
arithmetic. -/
theorem parsePkcs1PrivateKey_eq_ok_iff {der : List UInt8} {key : RsaPrivateKeyMaterial} :
    parsePkcs1PrivateKey der = .ok key ↔ ValidPrivateKey key ∧
      (Der.tlv derInteger [0x00] ++ integerElements (privateKeyFields key)).length <
        Der.maxLength ∧
      der = pkcs1PrivateKey key := by
  constructor
  · intro h
    obtain ⟨⟨sequence, r₁⟩, hsequence, h⟩ := Loops.bind_eq_ok.mp h
    obtain ⟨hend, h⟩ := require_bind_eq_ok.mp h
    obtain ⟨k₀, hversion, h⟩ := Loops.bind_eq_ok.mp h
    obtain ⟨⟨modulus, k₁⟩, hn, h⟩ := Loops.bind_eq_ok.mp h
    obtain ⟨⟨publicExponent, k₂⟩, he, h⟩ := Loops.bind_eq_ok.mp h
    obtain ⟨⟨privateExponent, k₃⟩, hd, h⟩ := Loops.bind_eq_ok.mp h
    obtain ⟨⟨prime1, k₄⟩, hp, h⟩ := Loops.bind_eq_ok.mp h
    obtain ⟨⟨prime2, k₅⟩, hq, h⟩ := Loops.bind_eq_ok.mp h
    obtain ⟨⟨exponent1, k₆⟩, hdp, h⟩ := Loops.bind_eq_ok.mp h
    obtain ⟨⟨exponent2, k₇⟩, hdq, h⟩ := Loops.bind_eq_ok.mp h
    obtain ⟨⟨coefficient, k₈⟩, hqi, h⟩ := Loops.bind_eq_ok.mp h
    obtain ⟨hempty, h⟩ := require_bind_eq_ok.mp h
    obtain ⟨_, hmath, h⟩ := Loops.bind_eq_ok.mp h
    cases h
    -- Each field that was read has the shape its reader checks, and what was left before it is its
    -- element followed by what is left after it.
    obtain ⟨hnfield, hnrest⟩ := readOddGreaterThanOneInteger_ok hn
    obtain ⟨hefield, herest⟩ := readOddGreaterThanOneInteger_ok he
    obtain ⟨hdfield, hdrest⟩ := readNonZeroInteger_ok hd
    obtain ⟨hpfield, hprest⟩ := readOddGreaterThanOneInteger_ok hp
    obtain ⟨hqfield, hqrest⟩ := readOddGreaterThanOneInteger_ok hq
    obtain ⟨hdpfield, hdprest⟩ := readNonZeroInteger_ok hdp
    obtain ⟨hdqfield, hdqrest⟩ := readNonZeroInteger_ok hdq
    obtain ⟨hqifield, hqirest⟩ := readNonZeroInteger_ok hqi
    obtain ⟨hproduct, h₁, h₂, hi₁, hi₂, hcoefficient⟩ :=
      (validatePrivateKeyMath_eq_ok_iff hpfield.one_lt hqfield.one_lt).mp hmath
    -- Read backwards, the elements are all of the sequence's content: the last reader left nothing.
    have hbody := readVersionZero_ok hversion
    rw [DerReader.rest_ofData, hnrest, herest, hdrest, hprest, hqrest, hdprest, hdqrest, hqirest,
      (DerReader.empty_iff k₈).mp hempty] at hbody
    obtain ⟨hlen, hder⟩ := DerReader.read_whole_ok dialect_exact hsequence hend
    rw [hbody] at hlen hder
    exact ⟨⟨hnfield, hefield, hdfield, hpfield, hqfield, hdpfield, hdqfield, hqifield, hproduct,
      h₁, h₂, hi₁, hi₂, hcoefficient⟩, hlen, hder⟩
  · rintro ⟨hkey, hlen, rfl⟩
    -- Every element is shorter than the body, so the bound on the body is enough for all of them.
    have hcontent : ∀ value ∈ privateKeyFields key,
        (Der.integerContent (beValue value)).length < Der.maxLength := by
      intro value hmem
      have := length_lt_integerElements hmem
      rw [List.length_append] at hlen
      omega
    obtain ⟨r₁, hsequence, hend⟩ := DerReader.read_last dialect_exact hlen
      (DerReader.rest_ofData (pkcs1PrivateKey key))
    obtain ⟨k₀, hversion, hk₀⟩ := readVersionZero_of_rest
      (DerReader.rest_ofData (Der.tlv derInteger [0x00] ++ integerElements (privateKeyFields key)))
    obtain ⟨k₁, hn, hk₁⟩ := readOddGreaterThanOneInteger_of_rest
      "RSA modulus must be odd and greater than one" hkey.modulus
      (hcontent _ (by simp [privateKeyFields])) hk₀
    obtain ⟨k₂, he, hk₂⟩ := readOddGreaterThanOneInteger_of_rest
      "RSA public exponent must be odd and greater than one" hkey.publicExponent
      (hcontent _ (by simp [privateKeyFields])) hk₁
    obtain ⟨k₃, hd, hk₃⟩ := readNonZeroInteger_of_rest
      "RSA private exponent must be non-zero" hkey.privateExponent
      (hcontent _ (by simp [privateKeyFields])) hk₂
    obtain ⟨k₄, hp, hk₄⟩ := readOddGreaterThanOneInteger_of_rest
      "RSA prime1 must be odd and greater than one" hkey.prime1
      (hcontent _ (by simp [privateKeyFields])) hk₃
    obtain ⟨k₅, hq, hk₅⟩ := readOddGreaterThanOneInteger_of_rest
      "RSA prime2 must be odd and greater than one" hkey.prime2
      (hcontent _ (by simp [privateKeyFields])) hk₄
    obtain ⟨k₆, hdp, hk₆⟩ := readNonZeroInteger_of_rest
      "RSA exponent1 must be non-zero" hkey.exponent1
      (hcontent _ (by simp [privateKeyFields])) hk₅
    obtain ⟨k₇, hdq, hk₇⟩ := readNonZeroInteger_of_rest
      "RSA exponent2 must be non-zero" hkey.exponent2
      (hcontent _ (by simp [privateKeyFields])) hk₆
    obtain ⟨k₈, hqi, hk₈⟩ := readNonZeroInteger_of_rest
      "RSA coefficient must be non-zero" hkey.coefficient
      (hcontent _ (by simp [privateKeyFields])) hk₇
    have hempty := (DerReader.empty_iff k₈).mpr hk₈
    have hmath : validatePrivateKeyMath key.modulus key.publicExponent key.privateExponent
        key.prime1 key.prime2 key.exponent1 key.exponent2 key.coefficient = .ok () :=
      (validatePrivateKeyMath_eq_ok_iff hkey.prime1.one_lt hkey.prime2.one_lt).mpr
        ⟨hkey.product, hkey.exponent1_eq, hkey.exponent2_eq, hkey.inverse1, hkey.inverse2,
          hkey.coefficient_eq⟩
    rw [parsePkcs1PrivateKey, hsequence]
    simp only [ok_bind, hend, hversion, hn, he, hd, hp, hq, hdp, hdq, hqi, hempty, hmath,
      require_true]
    rfl

/-- The same for private keys under an algorithm identifier, with the same bound on the body. -/
theorem parsePkcs8PrivateKey_eq_ok_iff {der : List UInt8} {key : RsaPrivateKeyMaterial} :
    parsePkcs8PrivateKey der = .ok key ↔ ValidPrivateKey key ∧
      (pkcs8Body key).length < Der.maxLength ∧ der = pkcs8PrivateKey key := by
  constructor
  · intro h
    obtain ⟨⟨sequence, r₁⟩, hsequence, h⟩ := Loops.bind_eq_ok.mp h
    obtain ⟨hend, h⟩ := require_bind_eq_ok.mp h
    obtain ⟨k₁, hversion, h⟩ := Loops.bind_eq_ok.mp h
    obtain ⟨k₂, halgorithm, h⟩ := Loops.bind_eq_ok.mp h
    obtain ⟨⟨privateKey, k₃⟩, hprivateKey, h⟩ := Loops.bind_eq_ok.mp h
    obtain ⟨hempty, h⟩ := require_bind_eq_ok.mp h
    obtain ⟨hkey, -, hpkcs1⟩ := parsePkcs1PrivateKey_eq_ok_iff.mp h
    have hbody := readVersionZero_ok hversion
    rw [DerReader.rest_ofData, readRsaAlgorithmIdentifier_ok halgorithm,
      (DerReader.read_ok dialect_exact hprivateKey).2, (DerReader.empty_iff k₃).mp hempty,
      List.append_nil] at hbody
    obtain ⟨hlen, hder⟩ := DerReader.read_whole_ok dialect_exact hsequence hend
    rw [hbody, hpkcs1] at hlen hder
    exact ⟨hkey, hlen, hder⟩
  · rintro ⟨hkey, hcontent, rfl⟩
    have hprivateKey : (pkcs1PrivateKey key).length < Der.maxLength := by
      have hinner := Der.length_le_length_tlv derOctetString (pkcs1PrivateKey key)
      have htotal := hcontent
      rw [pkcs8Body, List.length_append, List.length_append] at htotal
      omega
    have hbody := (Der.length_le_length_tlv derSequence (Der.tlv derInteger [0x00] ++
      integerElements (privateKeyFields key))).trans hprivateKey
    obtain ⟨r₁, hsequence, hend⟩ := DerReader.read_last dialect_exact hcontent
      (DerReader.rest_ofData (pkcs8PrivateKey key))
    obtain ⟨k₁, hversion, hk₁⟩ := readVersionZero_of_rest
      (DerReader.rest_ofData (pkcs8Body key))
    obtain ⟨k₂, halgorithm, hk₂⟩ := readRsaAlgorithmIdentifier_of_rest hk₁
    obtain ⟨k₃, hread, hempty⟩ := DerReader.read_last dialect_exact hprivateKey hk₂
    have hpkcs1 := parsePkcs1PrivateKey_eq_ok_iff.mpr ⟨hkey, hbody, rfl⟩
    rw [parsePkcs8PrivateKey, hsequence]
    simp only [ok_bind, hend, hversion, halgorithm, hread, hempty, require_true, hpkcs1]

/-- The PKCS#1 encoding of a private key is read back by the parser of both containers. -/
lemma parseRsaPrivateKeyDer_pkcs1 {key : RsaPrivateKeyMaterial} (hkey : ValidPrivateKey key)
    (hlength : (Der.tlv derInteger [0x00] ++ integerElements (privateKeyFields key)).length <
      Der.maxLength) :
    parseRsaPrivateKeyDer (pkcs1PrivateKey key) = .ok key := by
  rw [parseRsaPrivateKeyDer, parsePkcs1PrivateKey_eq_ok_iff.mpr ⟨hkey, hlength, rfl⟩]

/-- Every parsed private key satisfies the arithmetic, whichever container it came in. -/
theorem parseRsaPrivateKeyDer_valid {der : List UInt8} {key : RsaPrivateKeyMaterial}
    (h : parseRsaPrivateKeyDer der = .ok key) : ValidPrivateKey key := by
  unfold parseRsaPrivateKeyDer at h
  split at h
  next k hk =>
    cases h
    exact (parsePkcs1PrivateKey_eq_ok_iff.mp hk).1
  next => exact (parsePkcs8PrivateKey_eq_ok_iff.mp h).1

/-- Every parsed public key has an odd modulus and an odd exponent above one. -/
theorem parseRsaPublicKeyDer_valid {der : List UInt8} {key : RsaPublicKeyMaterial}
    (h : parseRsaPublicKeyDer der = .ok key) : ValidPublicKey key := by
  unfold parseRsaPublicKeyDer at h
  split at h
  next k hk =>
    cases h
    exact (parsePkcs1PublicKey_eq_ok_iff.mp hk).1
  next => exact (parseSpkiPublicKey_eq_ok_iff.mp h).1

end RsaDer

end CryptoCore
