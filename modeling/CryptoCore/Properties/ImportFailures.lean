import CryptoCore.Construction.Asymmetric

/-!
# Failures of an import

An import fails with one error code. The checks in front of the arithmetic leave it nothing to fail
on: the moduli are not zero, the coordinates have 32 bytes, and the multiples of the base point stay
on the curve.

`IsRefusal` is the property of all errors that are left: the code for an invalid key, and none of
the messages that the RSA parser has for a failure of its own arithmetic. `FailsOnly IsRefusal` is
shown for one function after the other, from the readers up to the imports, for every byte string.

Most functions only pass on the errors of those that they call and add one of their own, and their
proofs follow their statements. Where arithmetic is called, the result that it succeeds takes the
place of a list of its errors: the relations between the numbers of an RSA key are computed modulo
numbers above one, and the public point of a scalar is computed from bytes whose length has just
been checked.
-/

namespace CryptoCore

/-! ## The readers -/

namespace DerReader

/-- What a reader can complain about. Every error of a reader has one of these messages. -/
def complaints : List String :=
  ["missing DER length", "invalid DER long length", "DER length is not minimally encoded",
    "DER length uses overlong encoding", "unexpected DER tag", "DER length exceeds input",
    "DER integer is empty", "DER integer is negative", "DER integer is not minimally encoded"]

variable {dialect : DerDialect} {P : Error → Prop}
  (hcomplaint : ∀ message ∈ complaints, P (dialect.error message))
  (hshift : ∀ length octet, FailsOnly P (dialect.shiftIn length octet))
include hcomplaint hshift

lemma readOctets_failsOnly (n : ℕ) (length : UInt64) (reader : DerReader) :
    FailsOnly P (readOctets dialect n length reader) := by
  induction n generalizing length reader with
  | zero => exact .ok _
  | succ n ih =>
      rw [readOctets]
      split
      · exact .error (hcomplaint _ (by simp [complaints]))
      · exact .bind (hshift _ _) fun length _ => ih length _

lemma readLength_failsOnly (reader : DerReader) : FailsOnly P (readLength dialect reader) := by
  rw [readLength]
  split
  · exact .error (hcomplaint _ (by simp [complaints]))
  · dsimp only
    split
    · exact .ok _
    split
    · exact .error (hcomplaint _ (by simp [complaints]))
    split
    · exact .error (hcomplaint _ (by simp [complaints]))
    refine .bind (readOctets_failsOnly hcomplaint hshift _ _ _) fun _ _ => ?_
    exact .bind (.require (hcomplaint _ (by simp [complaints]))) fun _ _ => .ok _

lemma read_failsOnly (tag : UInt8) (reader : DerReader) :
    FailsOnly P (read dialect tag reader) := by
  rw [read]
  split
  · exact .error (hcomplaint _ (by simp [complaints]))
  split
  · exact .error (hcomplaint _ (by simp [complaints]))
  refine .bind (readLength_failsOnly hcomplaint hshift _) fun _ _ => ?_
  dsimp only
  split
  · exact .error (hcomplaint _ (by simp [complaints]))
  · exact .ok _

lemma readInteger_failsOnly (reader : DerReader) :
    FailsOnly P (readInteger dialect reader) :=
  .bind (read_failsOnly hcomplaint hshift _ _) fun _ _ =>
    .bind (.require (hcomplaint _ (by simp [complaints]))) fun _ _ =>
      .bind (.require (hcomplaint _ (by simp [complaints]))) fun _ _ =>
        .bind (.require (hcomplaint _ (by simp [complaints]))) fun _ _ => .ok _

end DerReader

/-! ## Refusals -/

/-- The errors that stand for a failure of the arithmetic itself, and not for a relation that is
violated. -/
def arithmeticFailures : List Error :=
  [RsaDer.derError "invalid RSA private key integer", RsaDer.derError "invalid RSA CRT modulus",
    RsaDer.derError "invalid RSA CRT exponent", RsaDer.derError "invalid RSA CRT relation"]

/-- An error about the key: its code, and that it does not stand for a failure of the arithmetic. -/
def IsRefusal (e : Error) : Prop :=
  e.code = .invalidKey ∧ e ∉ arithmeticFailures

instance (e : Error) : Decidable (IsRefusal e) := by
  unfold IsRefusal
  infer_instance

/-- Only the RSA parsers check relations. -/
lemma isRefusal_of_category {category : String} (hcategory : category ≠ "rsa_der")
    (message : String) : IsRefusal (makeError .invalidKey category message) := by
  refine ⟨rfl, fun hmem => ?_⟩
  simp only [arithmeticFailures, List.mem_cons, List.not_mem_nil, or_false] at hmem
  obtain h | h | h | h := hmem <;> exact hcategory (congrArg Error.category h)

/-! ## RSA keys -/

namespace RsaDer

lemma complaints_refuse : ∀ message ∈ DerReader.complaints, IsRefusal (dialect.error message) := by
  decide

lemma read_failsOnly (tag : UInt8) (reader : DerReader) :
    FailsOnly IsRefusal (reader.read dialect tag) :=
  DerReader.read_failsOnly complaints_refuse (fun _ _ => .ok _) tag reader

lemma readNonZeroInteger_failsOnly {name : String} (hname : IsRefusal (derError name))
    (reader : DerReader) : FailsOnly IsRefusal (readNonZeroInteger name reader) :=
  .bind (DerReader.readInteger_failsOnly complaints_refuse (fun _ _ => .ok _) reader) fun _ _ =>
    .bind (.require hname) fun _ _ => .ok _

lemma readOddGreaterThanOneInteger_failsOnly {name : String} (hname : IsRefusal (derError name))
    (reader : DerReader) : FailsOnly IsRefusal (readOddGreaterThanOneInteger name reader) :=
  .bind (readNonZeroInteger_failsOnly hname reader) fun _ _ =>
    .bind (.require hname) fun _ _ => .ok _

/-- Behind the checks of the fields only the six comparisons can fail, since both primes are above
one. -/
lemma validatePrivateKeyMath_failsOnly (n e d : ByteBuffer) {p q : ByteBuffer}
    (dp dq qi : ByteBuffer) (hp : 1 < ByteStrings.beValue p) (hq : 1 < ByteStrings.beValue q) :
    FailsOnly IsRefusal (validatePrivateKeyMath n e d p q dp dq qi) := by
  rw [validatePrivateKeyMath_eq n e d dp dq qi hp hq]
  refine .bind (.require (by decide)) fun _ _ => ?_
  refine .bind (.require (by decide)) fun _ _ => ?_
  refine .bind (.require (by decide)) fun _ _ => ?_
  refine .bind (.require (by decide)) fun _ _ => ?_
  exact .bind (.require (by decide)) fun _ _ => .require (by decide)

lemma readVersionZero_failsOnly (reader : DerReader) :
    FailsOnly IsRefusal (readVersionZero reader) :=
  .bind (read_failsOnly _ reader) fun _ _ => .bind (.require (by decide)) fun _ _ => .ok _

lemma readRsaAlgorithmIdentifier_failsOnly (reader : DerReader) :
    FailsOnly IsRefusal (readRsaAlgorithmIdentifier reader) := by
  refine .bind (read_failsOnly _ reader) fun _ _ => ?_
  refine .bind (read_failsOnly _ _) fun _ _ => ?_
  refine .bind (.require (by decide)) fun _ _ => ?_
  refine .bind (read_failsOnly _ _) fun _ _ => ?_
  exact .bind (.require (by decide)) fun _ _ => .ok _

lemma parsePkcs1PublicKey_failsOnly (der : List UInt8) :
    FailsOnly IsRefusal (parsePkcs1PublicKey der) := by
  refine .bind (read_failsOnly _ _) fun _ _ => ?_
  refine .bind (.require (by decide)) fun _ _ => ?_
  refine .bind (readOddGreaterThanOneInteger_failsOnly (by decide) _) fun _ _ => ?_
  refine .bind (readOddGreaterThanOneInteger_failsOnly (by decide) _) fun _ _ => ?_
  exact .bind (.require (by decide)) fun _ _ => .ok _

lemma parseSpkiPublicKey_failsOnly (der : List UInt8) :
    FailsOnly IsRefusal (parseSpkiPublicKey der) := by
  refine .bind (read_failsOnly _ _) fun _ _ => ?_
  refine .bind (.require (by decide)) fun _ _ => ?_
  refine .bind (readRsaAlgorithmIdentifier_failsOnly _) fun _ _ => ?_
  refine .bind (read_failsOnly _ _) fun _ _ => ?_
  refine .bind (.require (by decide)) fun _ _ => ?_
  exact .bind (.require (by decide)) fun _ _ => parsePkcs1PublicKey_failsOnly _

lemma parsePkcs1PrivateKey_failsOnly (der : List UInt8) :
    FailsOnly IsRefusal (parsePkcs1PrivateKey der) := by
  refine .bind (read_failsOnly _ _) fun _ _ => ?_
  refine .bind (.require (by decide)) fun _ _ => ?_
  refine .bind (readVersionZero_failsOnly _) fun _ _ => ?_
  refine .bind (readOddGreaterThanOneInteger_failsOnly (by decide) _) fun _ _ => ?_
  refine .bind (readOddGreaterThanOneInteger_failsOnly (by decide) _) fun _ _ => ?_
  refine .bind (readNonZeroInteger_failsOnly (by decide) _) fun _ _ => ?_
  refine .bind (readOddGreaterThanOneInteger_failsOnly (by decide) _) fun ⟨p, k₅⟩ hp => ?_
  refine .bind (readOddGreaterThanOneInteger_failsOnly (by decide) _) fun ⟨q, k₆⟩ hq => ?_
  refine .bind (readNonZeroInteger_failsOnly (by decide) _) fun _ _ => ?_
  refine .bind (readNonZeroInteger_failsOnly (by decide) _) fun _ _ => ?_
  refine .bind (readNonZeroInteger_failsOnly (by decide) _) fun _ _ => ?_
  refine .bind (.require (by decide)) fun _ _ => ?_
  exact .bind (validatePrivateKeyMath_failsOnly _ _ _ _ _ _
    (readOddGreaterThanOneInteger_ok hp).1.one_lt
    (readOddGreaterThanOneInteger_ok hq).1.one_lt) fun _ _ => .ok _

lemma parsePkcs8PrivateKey_failsOnly (der : List UInt8) :
    FailsOnly IsRefusal (parsePkcs8PrivateKey der) := by
  refine .bind (read_failsOnly _ _) fun _ _ => ?_
  refine .bind (.require (by decide)) fun _ _ => ?_
  refine .bind (readVersionZero_failsOnly _) fun _ _ => ?_
  refine .bind (readRsaAlgorithmIdentifier_failsOnly _) fun _ _ => ?_
  refine .bind (read_failsOnly _ _) fun _ _ => ?_
  exact .bind (.require (by decide)) fun _ _ => parsePkcs1PrivateKey_failsOnly _

end RsaDer

/-! ## P-256 keys -/

namespace P256Fixed

lemma fixedError_refuses (message : String) :
    IsRefusal (fixedError .invalidKey message) :=
  isRefusal_of_category (by decide) message

/-- The bytes of a point that reach the arithmetic are two coordinates of 32 bytes, which have a
fixed width of their own. -/
lemma coordinateFromBe_failsOnly {bytes : List UInt8} (h : bytes.length = 32) :
    FailsOnly IsRefusal (coordinateFromBe bytes) := by
  have hread : ∃ value, u256FromBe bytes = .ok value := by
    rw [u256FromBe_eq, if_pos]
    · exact ⟨_, rfl⟩
    · have hlt := ByteStrings.beValue_lt bytes
      rw [h] at hlt
      exact hlt.trans_le (by norm_num)
  rw [coordinateFromBe, h, beq_self_eq_true, require_true, ok_bind]
  exact .bind (.of_eq_ok hread) fun _ _ => .bind (.require (fixedError_refuses _)) fun _ _ => .ok _

lemma pointFromCoordinates_failsOnly {x y : List UInt8} (hx : x.length = 32)
    (hy : y.length = 32) : FailsOnly IsRefusal (pointFromCoordinates x y) := by
  have hload : FailsOnly IsRefusal (loadAffine ⟨x, y, false⟩) := by
    rw [loadAffine, if_neg Bool.false_ne_true]
    refine .bind (coordinateFromBe_failsOnly hx) fun _ _ => ?_
    exact .bind (coordinateFromBe_failsOnly hy) fun _ _ => .ok _
  refine .bind (.bind hload fun _ _ => ?_) fun _ _ => .ok _
  exact .bind (.require (fixedError_refuses _)) fun _ _ => .ok _

end P256Fixed

namespace EcDer

lemma derError_refuses (message : String) : IsRefusal (derError message) :=
  isRefusal_of_category (by decide) message

lemma shiftIn_failsOnly (length : UInt64) (octet : UInt8) :
    FailsOnly IsRefusal (dialect.shiftIn length octet) := by
  dsimp only [dialect]
  split
  · exact .error (derError_refuses _)
  · exact .ok _

lemma read_failsOnly (tag : UInt8) (reader : DerReader) :
    FailsOnly IsRefusal (reader.read dialect tag) :=
  DerReader.read_failsOnly (fun _ _ => derError_refuses _) shiftIn_failsOnly tag reader

lemma readInteger_failsOnly (reader : DerReader) : FailsOnly IsRefusal (readInteger reader) :=
  DerReader.readInteger_failsOnly (fun _ _ => derError_refuses _) shiftIn_failsOnly reader

lemma readP256AlgorithmIdentifier_failsOnly (reader : DerReader) :
    FailsOnly IsRefusal (readP256AlgorithmIdentifier reader) := by
  refine .bind (read_failsOnly _ _) fun _ _ => ?_
  refine .bind (read_failsOnly _ _) fun _ _ => ?_
  refine .bind (.require (derError_refuses _)) fun _ _ => ?_
  refine .bind (read_failsOnly _ _) fun _ _ => ?_
  refine .bind (.require (derError_refuses _)) fun _ _ => ?_
  exact .bind (.require (derError_refuses _)) fun _ _ => .ok _

lemma readOptionalP256Parameters_failsOnly (reader : DerReader) :
    FailsOnly IsRefusal (readOptionalP256Parameters reader) := by
  rw [readOptionalP256Parameters]
  split
  · exact .ok _
  refine .bind (read_failsOnly _ _) fun _ _ => ?_
  refine .bind (read_failsOnly _ _) fun _ _ => ?_
  refine .bind (.require (derError_refuses _)) fun _ _ => ?_
  exact .bind (.require (derError_refuses _)) fun _ _ => .ok _

lemma readUncompressedP256Point_failsOnly (point : List UInt8) :
    FailsOnly IsRefusal (readUncompressedP256Point point) := by
  refine .bind (.require (derError_refuses _)) fun _ hform => ?_
  simp only [require_eq_ok, Bool.not_eq_true', Bool.or_eq_false_iff, bne_eq_false_iff_eq] at hform
  have hlength := hform.1.1
  exact P256Fixed.pointFromCoordinates_failsOnly
    (by rw [List.length_take, List.length_drop]; omega)
    (by rw [List.length_take, List.length_drop]; omega)

lemma readOptionalP256PublicKey_failsOnly (reader : DerReader) (privateScalar : List UInt8) :
    FailsOnly IsRefusal (readOptionalP256PublicKey reader privateScalar) := by
  rw [readOptionalP256PublicKey]
  split
  · exact .ok _
  refine .bind (read_failsOnly _ _) fun _ _ => ?_
  refine .bind (read_failsOnly _ _) fun _ _ => ?_
  refine .bind (readUncompressedP256Point_failsOnly _) fun _ _ => ?_
  refine .bind (.of_eq_ok ⟨_, P256Fixed.basePointMultiply_eq _⟩) fun _ _ => ?_
  refine .bind (.require (derError_refuses _)) fun _ _ => ?_
  exact .bind (.require (derError_refuses _)) fun _ _ => .ok _

lemma parseSec1P256PrivateKey_failsOnly (der : List UInt8) (requireParameters : Bool) :
    FailsOnly IsRefusal (parseSec1P256PrivateKey der requireParameters) := by
  refine .bind (read_failsOnly _ _) fun _ _ => ?_
  refine .bind (.require (derError_refuses _)) fun _ _ => ?_
  refine .bind (readInteger_failsOnly _) fun _ _ => ?_
  refine .bind (.require (derError_refuses _)) fun _ _ => ?_
  refine .bind (read_failsOnly _ _) fun _ _ => ?_
  refine .bind (.require (derError_refuses _)) fun _ _ => ?_
  refine .bind (.of_eq_ok ⟨_, P256Fixed.scalarIsValidNonzero_eq _⟩) fun _ _ => ?_
  refine .bind (.require (derError_refuses _)) fun _ _ => ?_
  refine .bind (readOptionalP256Parameters_failsOnly _) fun _ _ => ?_
  refine .bind (.require (derError_refuses _)) fun _ _ => ?_
  refine .bind (readOptionalP256PublicKey_failsOnly _ _) fun _ _ => ?_
  exact .bind (.require (derError_refuses _)) fun _ _ => .ok _

lemma parsePkcs8P256PrivateKey_failsOnly (der : List UInt8) :
    FailsOnly IsRefusal (parsePkcs8P256PrivateKey der) := by
  refine .bind (read_failsOnly _ _) fun _ _ => ?_
  refine .bind (.require (derError_refuses _)) fun _ _ => ?_
  refine .bind (readInteger_failsOnly _) fun _ _ => ?_
  refine .bind (.require (derError_refuses _)) fun _ _ => ?_
  refine .bind (readP256AlgorithmIdentifier_failsOnly _) fun _ _ => ?_
  refine .bind (read_failsOnly _ _) fun _ _ => ?_
  exact .bind (.require (derError_refuses _)) fun _ _ => parseSec1P256PrivateKey_failsOnly _ _

lemma parseP256PublicKey_failsOnly (der : List UInt8) :
    FailsOnly IsRefusal (parseP256PublicKey der) := by
  refine .bind (read_failsOnly _ _) fun _ _ => ?_
  refine .bind (.require (derError_refuses _)) fun _ _ => ?_
  refine .bind (readP256AlgorithmIdentifier_failsOnly _) fun _ _ => ?_
  refine .bind (read_failsOnly _ _) fun _ _ => ?_
  refine .bind (readUncompressedP256Point_failsOnly _) fun _ _ => ?_
  exact .bind (.require (derError_refuses _)) fun _ _ => .ok _

end EcDer

/-! ## Ed25519 keys -/

namespace Ed25519

lemma ed25519Error_refuses (message : String) : IsRefusal (ed25519Error .invalidKey message) :=
  isRefusal_of_category (by decide) message

lemma squareRoot_failsOnly (x2 : BigInt) : FailsOnly IsRefusal (squareRoot x2) := by
  refine .bind (.of_eq_ok ⟨_, fieldModulus_eq⟩) fun _ hp => ?_
  cases hp.symm.trans fieldModulus_eq
  refine .bind (.of_eq_ok ⟨_, sqrtExponent_eq⟩) fun _ _ => ?_
  refine .bind (.of_eq_ok ⟨_, BigInt.modExp_eq _ _ modulus_ne_zero⟩) fun _ _ => ?_
  refine .bind (.of_eq_ok ⟨_, fieldMultiply_eq _ _⟩) fun _ _ => ?_
  split
  · refine .bind (.of_eq_ok ⟨_, sqrtMinusOne_eq⟩) fun _ _ => ?_
    refine .bind (.of_eq_ok ⟨_, fieldMultiply_eq _ _⟩) fun _ _ => ?_
    refine .bind (.of_eq_ok ⟨_, fieldMultiply_eq _ _⟩) fun _ _ => ?_
    exact .bind (.require (ed25519Error_refuses _)) fun _ _ => .ok _
  · exact .ok _

lemma withParity_failsOnly (x : BigInt) (xOdd : Bool) :
    FailsOnly IsRefusal (withParity x xOdd) := by
  refine .bind (.require (ed25519Error_refuses _)) fun _ _ => ?_
  refine .bind (.of_eq_ok ⟨_, fieldModulus_eq⟩) fun _ _ => ?_
  split
  · exact .of_eq_ok ⟨_, fieldSubtract_eq _ _⟩
  · exact .ok _

lemma decodePoint_failsOnly (encoded : List UInt8) :
    FailsOnly IsRefusal (decodePoint encoded) := by
  refine .bind (.require (ed25519Error_refuses _)) fun _ _ => ?_
  refine .bind (.of_eq_ok ⟨_, fromLeBytes_eq _⟩) fun _ _ => ?_
  refine .bind (.of_eq_ok ⟨_, fieldModulus_eq⟩) fun _ _ => ?_
  refine .bind (.require (ed25519Error_refuses _)) fun _ _ => ?_
  refine .bind (.of_eq_ok ⟨_, fieldMultiply_eq _ _⟩) fun _ _ => ?_
  refine .bind (.of_eq_ok ⟨_, one_eq⟩) fun _ _ => ?_
  refine .bind (.of_eq_ok ⟨_, curveD_eq⟩) fun _ _ => ?_
  refine .bind (.of_eq_ok ⟨_, fieldSubtract_eq _ _⟩) fun _ _ => ?_
  refine .bind (.of_eq_ok ⟨_, fieldMultiply_eq _ _⟩) fun _ _ => ?_
  refine .bind (.of_eq_ok ⟨_, fieldAdd_eq _ _⟩) fun _ _ => ?_
  refine .bind (.of_eq_ok ⟨_, fieldInverse_eq _⟩) fun _ _ => ?_
  refine .bind (.of_eq_ok ⟨_, fieldMultiply_eq _ _⟩) fun _ _ => ?_
  refine .bind (squareRoot_failsOnly _) fun _ _ => ?_
  refine .bind (withParity_failsOnly _ _) fun _ _ => ?_
  refine .bind (.of_eq_ok ⟨_, one_eq⟩) fun _ _ => ?_
  exact .bind (.of_eq_ok ⟨_, fieldMultiply_eq _ _⟩) fun _ _ => .ok _

lemma validateEd25519PublicKey_failsOnly (publicKey : List UInt8) :
    FailsOnly IsRefusal (validateEd25519PublicKey publicKey) :=
  .bind (decodePoint_failsOnly publicKey) fun _ _ => .ok _

end Ed25519

/-! ## Imports -/

/-- Every import of any bytes succeeds or refuses the key. No failure of the arithmetic underneath
shows: those of the RSA relations are not among the errors, and the scalars of P-256 keys never
make theirs fail. -/
theorem imports_refuse (bytes : List UInt8) (usages : UInt32) :
    FailsOnly IsRefusal (PublicKey.importSpkiDer .rsa bytes usages) ∧
      FailsOnly IsRefusal (PublicKey.importSpkiDer .ecdsaP256 bytes usages) ∧
      FailsOnly IsRefusal (PrivateKey.importPkcs8Der .rsa bytes usages) ∧
      FailsOnly IsRefusal (PrivateKey.importPkcs8Der .ecdsaP256 bytes usages) ∧
      FailsOnly IsRefusal (PublicKey.importRsaPkcs1Der bytes usages) ∧
      FailsOnly IsRefusal (PrivateKey.importRsaPkcs1Der bytes usages) ∧
      FailsOnly IsRefusal (PrivateKey.importSec1Der .ecdsaP256 bytes usages) ∧
      FailsOnly IsRefusal (PublicKey.importRawEd25519 bytes usages) ∧
      (∃ valid, P256Fixed.scalarIsValidNonzero bytes = .ok valid) ∧
      (∃ point, P256Fixed.basePointMultiply bytes = .ok point) := by
  refine ⟨?_, ?_, ?_, ?_, ?_, ?_, ?_, ?_, ?_, ?_⟩
  · exact .bind (RsaDer.parseSpkiPublicKey_failsOnly bytes) fun _ _ => .ok _
  · exact .bind (EcDer.parseP256PublicKey_failsOnly bytes) fun _ _ => .ok _
  · exact .bind (RsaDer.parsePkcs8PrivateKey_failsOnly bytes) fun _ _ => .ok _
  · exact .bind (EcDer.parsePkcs8P256PrivateKey_failsOnly bytes) fun _ _ => .ok _
  · exact .bind (RsaDer.parsePkcs1PublicKey_failsOnly bytes) fun _ _ => .ok _
  · exact .bind (RsaDer.parsePkcs1PrivateKey_failsOnly bytes) fun _ _ => .ok _
  · refine .bind (.require (isRefusal_of_category (by decide) _)) fun _ _ => ?_
    exact .bind (EcDer.parseSec1P256PrivateKey_failsOnly bytes true) fun _ _ => .ok _
  · exact .bind (Ed25519.validateEd25519PublicKey_failsOnly bytes) fun _ _ => .ok _
  · exact ⟨_, P256Fixed.scalarIsValidNonzero_eq bytes⟩
  · exact ⟨_, P256Fixed.basePointMultiply_eq bytes⟩

end CryptoCore
