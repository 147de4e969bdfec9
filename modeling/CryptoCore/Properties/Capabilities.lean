import CryptoCore.Construction.Provider
import CryptoCore.Properties.FixedIntegers
import CryptoCore.Properties.ImportFailures
import CryptoCore.Properties.Signing

/-!
# What the provider says and what it does

A call of an algorithm that the provider says it does not support ends with the error code for that,
and no other call does: whatever the keys, the parameters and the input are, the code behind the
choice of the algorithm complains about something else.

The second half is a statement about every error that any of the functions underneath can return.
`FailsOnly AboutCall` is that statement for one function, and the module goes through the layers
from the integers up to the calls of the provider. Where a result of the construction gives the
outcome in full, it is used: a function that is shown to succeed has no errors to look at. The
parsers only refuse keys, and a refusal has its own code.

Two assumptions stand in the theorem. The errors of the random number generator are its own, and are
assumed not to use the code for an algorithm that is not supported. And the parameters name hashes
that are supported, which is part of their type: the code has the same error for a hash that is none
of its values.
-/

namespace CryptoCore

open ByteStrings EmsaPss

/-- A complaint about something else than the algorithm, told by its code. -/
def AboutCall (e : Error) : Prop :=
  e.code ≠ .unsupportedAlgorithm

instance (e : Error) : Decidable (AboutCall e) := by
  unfold AboutCall
  infer_instance

lemma IsRefusal.aboutCall {e : Error} (h : IsRefusal e) : AboutCall e := by
  rw [AboutCall, h.1]
  decide

/-! ## Integers -/

namespace BigInt

lemma zeroModulusError_aboutCall : AboutCall zeroModulusError := by
  decide

lemma modAdd_failsOnly (lhs rhs modulus : BigInt) :
    FailsOnly AboutCall (modAdd lhs rhs modulus) := by
  rw [modAdd]
  split
  · exact .error zeroModulusError_aboutCall
  · exact .ok _

lemma modSubtract_failsOnly (lhs rhs modulus : BigInt) :
    FailsOnly AboutCall (modSubtract lhs rhs modulus) := by
  rw [modSubtract]
  split
  · exact .error zeroModulusError_aboutCall
  · dsimp only
    split
    · exact .ok _
    · exact .ok _

lemma modMultiply_failsOnly (lhs rhs modulus : BigInt) :
    FailsOnly AboutCall (modMultiply lhs rhs modulus) := by
  rw [modMultiply]
  split
  · exact .error zeroModulusError_aboutCall
  · exact .ok _

lemma modExp_failsOnly (base exponent modulus : BigInt) :
    FailsOnly AboutCall (modExp base exponent modulus) := by
  rw [modExp]
  split
  · exact .error zeroModulusError_aboutCall
  · exact .ok _

end BigInt

namespace RsaFixedBigInt

variable (a m : RsaFixedBigInt)

lemma requireMatchingWidths_failsOnly (b : RsaFixedBigInt) :
    FailsOnly AboutCall (requireMatchingWidths a b) :=
  .require (by decide)

lemma requireMontgomeryModulus_failsOnly :
    FailsOnly AboutCall (requireMontgomeryModulus m) :=
  .bind (.require (by decide)) fun _ _ => .require (by decide)

lemma requireReducedValue_failsOnly : FailsOnly AboutCall (requireReducedValue a m) := by
  refine .bind (requireMatchingWidths_failsOnly _ _) fun _ _ => ?_
  refine .bind (.bind (requireMatchingWidths_failsOnly _ _) fun _ _ => .ok _) fun _ _ => ?_
  exact .require (by decide)

lemma fromBeBytes_failsOnly (bytes : List UInt8) (width : ℕ) :
    FailsOnly AboutCall (fromBeBytes bytes width) := by
  rw [fromBeBytes]
  split
  · dsimp only
    split
    · exact .error (by decide)
    · exact .ok _
  · exact .error (by decide)

/-- Behind the check of the modulus the loop does not fail. -/
lemma fromBeBytesMod_failsOnly (bytes : List UInt8) :
    FailsOnly AboutCall (fromBeBytesMod bytes m) := by
  by_cases hm : MontgomeryModulus m
  · obtain ⟨x, hx, -⟩ := fromBeBytesMod_spec hm bytes
    exact .of_eq_ok ⟨x, hx⟩
  · refine .bind (requireMontgomeryModulus_failsOnly m) fun _ h => ?_
    exact absurd (requireMontgomeryModulus_eq_ok_iff.mp h) hm

/-- Behind the checks of the operands the ladder does not fail. -/
lemma montgomeryModExpSecret_failsOnly (exponent : List UInt8) (bits : ℕ) :
    FailsOnly AboutCall (montgomeryModExpSecret a exponent m bits) := by
  by_cases h : MontgomeryModulus m ∧ Reduced m a
  · obtain ⟨hm, ha⟩ := h
    obtain ⟨x, hx, -⟩ := montgomeryModExpSecret_spec hm ⟨ha.width_eq, rfl⟩ ha.lt exponent bits
    exact .of_eq_ok ⟨x, hx⟩
  · refine .bind (requireMatchingWidths_failsOnly a m) fun _ _ => ?_
    refine .bind (requireMontgomeryModulus_failsOnly m) fun _ hm => ?_
    refine .bind (requireReducedValue_failsOnly a m) fun _ ha => ?_
    exact absurd ⟨requireMontgomeryModulus_eq_ok_iff.mp hm,
      requireReducedValue_eq_ok_iff.mp ha⟩ h

end RsaFixedBigInt

/-! ## RSA -/

namespace Rsa

lemma leftPadToWidth_failsOnly (value : BigInt) (width : ℕ) :
    FailsOnly AboutCall (leftPadToWidth value width) := by
  rw [leftPadToWidth]
  split
  · exact .error (by decide)
  split
  · exact .ok _
  · exact .ok _

lemma rsaOperation_failsOnly (modulus exponent input : List UInt8) :
    FailsOnly AboutCall (rsaOperation modulus exponent input) := by
  refine .bind (.orError (by decide)) fun _ _ => ?_
  refine .bind (.orError (by decide)) fun _ _ => ?_
  refine .bind (.orError (by decide)) fun _ _ => ?_
  refine .bind (.require (by decide)) fun _ _ => ?_
  refine .bind (.require (by decide)) fun _ _ => ?_
  refine .bind (.require (by decide)) fun _ _ => ?_
  exact .bind (BigInt.modExp_failsOnly _ _ _) fun _ _ => leftPadToWidth_failsOnly _ _

lemma importNonZero_failsOnly (bytes : List UInt8) (name : String) :
    FailsOnly AboutCall (importNonZero bytes name) := by
  have hzero : AboutCall (rsaError .invalidKey name) :=
    fun h => ErrorCode.noConfusion h
  refine .bind (.orError (by decide)) fun _ _ => ?_
  exact .bind (.require hzero) fun _ _ => .ok _

lemma fixedModExpToBigint_failsOnly (base exponent modulus : List UInt8) (bits : ℕ) :
    FailsOnly AboutCall (fixedModExpToBigint base exponent modulus bits) := by
  refine .bind (.require (by decide)) fun _ _ => ?_
  refine .bind (RsaFixedBigInt.fromBeBytes_failsOnly _ _) fun _ _ => ?_
  refine .bind (RsaFixedBigInt.fromBeBytesMod_failsOnly _ _) fun _ _ => ?_
  refine .bind (RsaFixedBigInt.montgomeryModExpSecret_failsOnly _ _ _ _) fun _ _ => ?_
  refine .bind (.require (by decide)) fun _ _ => ?_
  exact .of_eq_ok ⟨_, BigInt.fromBeBytes_eq _⟩

lemma crtRecombine_failsOnly (m₁ m₂ p q c n : BigInt) (width : ℕ) :
    FailsOnly AboutCall (crtRecombine m₁ m₂ p q c n width) := by
  refine .bind (BigInt.modSubtract_failsOnly _ _ _) fun _ _ => ?_
  refine .bind (BigInt.modMultiply_failsOnly _ _ _) fun _ _ => ?_
  refine .bind (BigInt.modMultiply_failsOnly _ _ _) fun _ _ => ?_
  refine .bind (BigInt.modAdd_failsOnly _ _ _) fun _ _ => ?_
  exact leftPadToWidth_failsOnly _ _

lemma rsaPrivateCrtBlindedOperation_failsOnly (key : RsaPrivateKeyMaterial)
    (input blindingFactor : List UInt8) :
    FailsOnly AboutCall (rsaPrivateCrtBlindedOperation key input blindingFactor) := by
  -- the key, the representative and the factor
  refine .bind (importNonZero_failsOnly _ _) fun _ _ => ?_
  refine .bind (importNonZero_failsOnly _ _) fun _ _ => ?_
  refine .bind (.orError (by decide)) fun _ _ => ?_
  refine .bind (.orError (by decide)) fun _ _ => ?_
  refine .bind (importNonZero_failsOnly _ _) fun _ _ => ?_
  refine .bind (importNonZero_failsOnly _ _) fun _ _ => ?_
  refine .bind (importNonZero_failsOnly _ _) fun _ _ => ?_
  refine .bind (importNonZero_failsOnly _ _) fun _ _ => ?_
  refine .bind (importNonZero_failsOnly _ _) fun _ _ => ?_
  refine .bind (.require (by decide)) fun _ _ => ?_
  refine .bind (.require (by decide)) fun _ _ => ?_
  refine .bind (.orError (by decide)) fun _ _ => ?_
  refine .bind (.orError (by decide)) fun _ _ => ?_
  refine .bind (BigInt.modMultiply_failsOnly _ _ _) fun _ _ => ?_
  refine .bind (BigInt.modMultiply_failsOnly _ _ _) fun _ _ => ?_
  refine .bind (.require (by decide)) fun _ _ => ?_
  -- the blinded powers and the inverses of the factor
  refine .bind (BigInt.modExp_failsOnly _ _ _) fun _ _ => ?_
  refine .bind (BigInt.modMultiply_failsOnly _ _ _) fun _ _ => ?_
  refine .bind (fixedModExpToBigint_failsOnly _ _ _ _) fun _ _ => ?_
  refine .bind (fixedModExpToBigint_failsOnly _ _ _ _) fun _ _ => ?_
  refine .bind (BigInt.modSubtract_failsOnly _ _ _) fun _ _ => ?_
  refine .bind (BigInt.modSubtract_failsOnly _ _ _) fun _ _ => ?_
  refine .bind (fixedModExpToBigint_failsOnly _ _ _ _) fun _ _ => ?_
  refine .bind (fixedModExpToBigint_failsOnly _ _ _ _) fun _ _ => ?_
  refine .bind (BigInt.modMultiply_failsOnly _ _ _) fun _ _ => ?_
  refine .bind (BigInt.modMultiply_failsOnly _ _ _) fun _ _ => ?_
  exact crtRecombine_failsOnly _ _ _ _ _ _ _

end Rsa

namespace RsaDer

lemma parseRsaPublicKeyDer_failsOnly (der : List UInt8) :
    FailsOnly IsRefusal (parseRsaPublicKeyDer der) := by
  rw [parseRsaPublicKeyDer]
  split
  · exact .ok _
  · exact parseSpkiPublicKey_failsOnly _

lemma parseRsaPrivateKeyDer_failsOnly (der : List UInt8) :
    FailsOnly IsRefusal (parseRsaPrivateKeyDer der) := by
  rw [parseRsaPrivateKeyDer]
  split
  · exact .ok _
  · exact parsePkcs8PrivateKey_failsOnly _

end RsaDer

/-! ## The encodings -/

namespace RsaPss

/-- The hashes of the parameters are supported, whatever they are. -/
lemma checkHashes_failsOnly (messageHash : List UInt8) (params : RsaPssParams) :
    FailsOnly AboutCall (checkHashes messageHash params) := by
  have hsizes : (!(digestSize params.messageHash == 0 || digestSize params.mgf1Hash == 0)) =
      true := by
    cases params.messageHash <;> cases params.mgf1Hash <;> rfl
  rw [checkHashes, hsizes, require_true, ok_bind]
  exact .require (by decide)

lemma emsaPssEncode_failsOnly (encodedBits : UInt64) (messageHash salt : List UInt8)
    (params : RsaPssParams) :
    FailsOnly AboutCall (emsaPssEncode encodedBits messageHash salt params) := by
  refine .bind (checkHashes_failsOnly _ _) fun _ _ => ?_
  refine .bind (.require (by decide)) fun _ _ => ?_
  refine .bind (.require (by decide)) fun _ _ => ?_
  refine .bind (.of_eq_ok ⟨_, pssHash_eq _ _ _⟩) fun _ _ => ?_
  exact .bind (.of_eq_ok ⟨_, mgf1_eq _ _ _⟩) fun _ _ => .ok _

lemma emsaPssVerifySized_failsOnly (encodedMessage : List UInt8) (encodedSize unusedBits : ℕ)
    (messageHash : List UInt8) (params : RsaPssParams) :
    FailsOnly AboutCall
      (emsaPssVerifySized encodedMessage encodedSize unusedBits messageHash params) := by
  refine .bind (checkHashes_failsOnly _ _) fun _ _ => ?_
  refine .bind (.require (by decide)) fun _ _ => ?_
  split
  · exact .ok _
  refine .bind (.of_eq_ok ⟨_, mgf1_eq _ _ _⟩) fun _ _ => ?_
  exact .bind (.of_eq_ok ⟨_, pssHash_eq _ _ _⟩) fun _ _ => .ok _

end RsaPss

namespace RsaOaep

lemma emeOaepEncode_failsOnly (size : ℕ) (message seed : List UInt8) (params : RsaOaepParams) :
    FailsOnly AboutCall (emeOaepEncode size message seed params) := by
  rw [emeOaepEncode]
  simp only [hashes_supported, require_true, ok_bind]
  refine .bind (.require (by decide)) fun _ _ => ?_
  refine .bind (.require (by decide)) fun _ _ => ?_
  refine .bind (.require (by decide)) fun _ _ => ?_
  refine .bind (.of_eq_ok ⟨_, RsaPss.digest_eq _ _⟩) fun _ _ => ?_
  refine .bind (.of_eq_ok ⟨_, RsaPss.mgf1_eq _ _ _⟩) fun _ _ => ?_
  exact .bind (.of_eq_ok ⟨_, RsaPss.mgf1_eq _ _ _⟩) fun _ _ => .ok _

lemma emeOaepDecode_failsOnly (encodedMessage : List UInt8) (params : RsaOaepParams) :
    FailsOnly AboutCall (emeOaepDecode encodedMessage params) := by
  rw [emeOaepDecode]
  simp only [hashes_supported, require_true, ok_bind]
  refine .bind (.require (by decide)) fun _ _ => ?_
  refine .bind (.of_eq_ok ⟨_, RsaPss.mgf1_eq _ _ _⟩) fun _ _ => ?_
  refine .bind (.of_eq_ok ⟨_, RsaPss.mgf1_eq _ _ _⟩) fun _ _ => ?_
  refine .bind (.of_eq_ok ⟨_, RsaPss.digest_eq _ _⟩) fun _ _ => ?_
  exact .bind (.require (by decide)) fun _ _ => .ok _

end RsaOaep

/-! ## Elliptic curves -/

namespace EcDer

lemma parseP256PrivateKeyDer_failsOnly (der : List UInt8) :
    FailsOnly IsRefusal (parseP256PrivateKeyDer der) := by
  rw [parseP256PrivateKeyDer]
  split
  · exact .ok _
  · exact parsePkcs8P256PrivateKey_failsOnly _

end EcDer

namespace Ecdsa

variable {digest : List UInt8} (hdigest : digest.length = 32)
include hdigest

/-- With a key that can be read, only the nonces can be a reason: sixteen candidates may all fail.
-/
lemma signEcdsaP256Sha256Digest_failsOnly (der : List UInt8) :
    FailsOnly AboutCall (signEcdsaP256Sha256Digest der digest) := by
  cases hparse : parseP256PrivateKeyDer der with
  | error e =>
      refine .bind (.require (by decide)) fun _ _ => ?_
      rw [hparse]
      exact .error (EcDer.parseP256PrivateKeyDer_failsOnly der e hparse).aboutCall
  | ok key =>
      rw [sign_eq hparse (EcDer.validPrivateScalar_of_parse hparse) hdigest]
      split
      · exact .ok _
      · exact .error (by decide)

/-- With a key that can be read, verification decides. -/
lemma verifyEcdsaP256Sha256Digest_failsOnly (der signature : List UInt8) :
    FailsOnly AboutCall (verifyEcdsaP256Sha256Digest der signature digest) := by
  cases hparse : parseP256PublicKeyDer der with
  | error e =>
      refine .bind (.require (by decide)) fun _ _ => ?_
      have hpoint : publicKeyPoint der = .error e := by
        rw [publicKeyPoint, hparse, error_bind]
      rw [hpoint]
      exact .error (EcDer.parseP256PublicKey_failsOnly der e hparse).aboutCall
  | ok key =>
      obtain ⟨Q, -, hpoint⟩ := publicKeyPoint_eq hparse
      exact .of_eq_ok ⟨_, verify_eq hpoint hdigest signature⟩

end Ecdsa

namespace Ed25519

lemma signEd25519Seed_failsOnly (seed message : List UInt8) :
    FailsOnly AboutCall (signEd25519Seed seed message) := by
  by_cases hseed : seed.length = 32
  · exact .of_eq_ok ⟨_, signEd25519Seed_eq hseed message⟩
  · refine .bind (.require (by decide)) fun _ h => ?_
    rw [require_eq_ok, beq_iff_eq] at h
    exact absurd h hseed

lemma verifyEd25519_failsOnly (publicKey signature message : List UInt8) :
    FailsOnly AboutCall (verifyEd25519 publicKey signature message) := by
  cases hdecode : decodePoint publicKey with
  | error e =>
      refine .bind (.require (by decide)) fun _ _ => ?_
      split
      · exact .ok _
      refine .bind (.of_eq_ok ⟨_, scalarIsCanonical_eq _⟩) fun _ _ => ?_
      split
      · exact .ok _
      rw [hdecode]
      exact .error (decodePoint_failsOnly publicKey e hdecode).aboutCall
  | ok point =>
      -- a key that can be read is the encoding of a point
      obtain ⟨A, rfl⟩ := (validateEd25519PublicKey_eq_ok_iff publicKey).mp (by
        rw [validateEd25519PublicKey, hdecode, ok_bind]
        rfl)
      obtain ⟨valid, hvalid, -⟩ := verifyEd25519_eq A signature message
      exact .of_eq_ok ⟨valid, hvalid⟩

end Ed25519

/-! ## The calls of the provider -/

namespace NativeProvider

section Random

variable {rng : Rng} (hrng : ∀ request size, FailsOnly AboutCall (rng.generate request size))
include hrng

lemma blindingAttempts_failsOnly (key : RsaPrivateKeyMaterial) (input : List UInt8)
    (attempts request : ℕ) {lastError : Error} (hlast : AboutCall lastError) :
    FailsOnly AboutCall (blindingAttempts rng key input attempts request lastError) := by
  induction attempts generalizing request lastError with
  | zero => exact .error hlast
  | succ attempts ih =>
      refine .bind (hrng _ _) fun factor _ => ?_
      have hattempt := Rsa.rsaPrivateCrtBlindedOperation_failsOnly key input factor.toList
      split
      next => exact .ok _
      next e he =>
        split
        · exact .error (hattempt e he)
        · exact ih _ (hattempt e he)

lemma rsaPrivateCrtBlindedWithRng_failsOnly (request : ℕ) (key : RsaPrivateKeyMaterial)
    (input : List UInt8) :
    FailsOnly AboutCall (rsaPrivateCrtBlindedWithRng rng request key input) :=
  blindingAttempts_failsOnly hrng _ _ _ _ (by decide)

lemma drawSalt_failsOnly (saltSize : ℕ) : FailsOnly AboutCall (drawSalt rng saltSize) := by
  rw [drawSalt]
  split
  · exact .ok _
  · exact hrng _ _

lemma signRsaPss_failsOnly (params : SignParams) (message : List UInt8) :
    FailsOnly AboutCall (signRsaPss rng params message) := by
  rw [signRsaPss]
  cases params.privateKey with
  | none => exact .error (by decide)
  | some privateKey =>
      refine .bind (.require (by decide)) fun _ _ => ?_
      refine .bind ((RsaDer.parseRsaPrivateKeyDer_failsOnly _).mono fun _ h => h.aboutCall)
        fun _ _ => ?_
      refine .bind (.of_eq_ok ⟨_, hash_eq _ _⟩) fun _ _ => ?_
      refine .bind (drawSalt_failsOnly hrng _) fun _ _ => ?_
      refine .bind (.require (by decide)) fun _ _ => ?_
      refine .bind (RsaPss.emsaPssEncode_failsOnly _ _ _ _) fun _ _ => ?_
      exact rsaPrivateCrtBlindedWithRng_failsOnly hrng _ _ _

lemma asymmetricEncrypt_failsOnly {params : AsymmetricEncryptParams}
    (halgorithm : isRsaOaepAlgorithm params.algorithm = true) (plaintext : List UInt8) :
    FailsOnly AboutCall (asymmetricEncrypt rng params plaintext) := by
  rw [asymmetricEncrypt, halgorithm, require_true, ok_bind]
  cases params.publicKey with
  | none => exact .error (by decide)
  | some publicKey =>
      refine .bind (.require (by decide)) fun _ _ => ?_
      refine .bind ((RsaDer.parseRsaPublicKeyDer_failsOnly _).mono fun _ h => h.aboutCall)
        fun _ _ => ?_
      simp only [RsaOaep.hashes_supported, require_true, ok_bind]
      refine .bind (hrng _ _) fun _ _ => ?_
      refine .bind (RsaOaep.emeOaepEncode_failsOnly _ _ _ _) fun _ _ => ?_
      exact Rsa.rsaOperation_failsOnly _ _ _

lemma asymmetricDecrypt_failsOnly {params : AsymmetricDecryptParams}
    (halgorithm : isRsaOaepAlgorithm params.algorithm = true) (ciphertext : List UInt8) :
    FailsOnly AboutCall (asymmetricDecrypt rng params ciphertext) := by
  rw [asymmetricDecrypt, halgorithm, require_true, ok_bind]
  cases params.privateKey with
  | none => exact .error (by decide)
  | some privateKey =>
      refine .bind (.require (by decide)) fun _ _ => ?_
      refine .bind ((RsaDer.parseRsaPrivateKeyDer_failsOnly _).mono fun _ h => h.aboutCall)
        fun key _ => ?_
      refine .bind (.require (by decide)) fun _ _ => ?_
      have hattempts := rsaPrivateCrtBlindedWithRng_failsOnly hrng 0 key ciphertext
      split
      next e he =>
        split
        · exact .error (by decide)
        · exact .error (hattempts e he)
      next => exact RsaOaep.emeOaepDecode_failsOnly _ _

end Random

lemma signEcdsa_failsOnly (params : SignParams) (message : List UInt8) :
    FailsOnly AboutCall (signEcdsa params message) := by
  rw [signEcdsa]
  cases params.privateKey with
  | none => exact .error (by decide)
  | some privateKey =>
      refine .bind (.require (by decide)) fun _ _ => ?_
      rw [hash_eq, ok_bind]
      exact Ecdsa.signEcdsaP256Sha256Digest_failsOnly (length_digestOf _ _) _

lemma signEd25519_failsOnly (params : SignParams) (message : List UInt8) :
    FailsOnly AboutCall (signEd25519 params message) := by
  rw [signEd25519]
  cases params.privateKey with
  | none => exact .error (by decide)
  | some privateKey =>
      refine .bind (.require (by decide)) fun _ _ => ?_
      exact Ed25519.signEd25519Seed_failsOnly _ _

lemma verifyRsaPss_failsOnly (params : VerifyParams) (message : List UInt8) :
    FailsOnly AboutCall (verifyRsaPss params message) := by
  rw [verifyRsaPss]
  cases params.publicKey with
  | none => exact .error (by decide)
  | some publicKey =>
      refine .bind (.require (by decide)) fun _ _ => ?_
      refine .bind ((RsaDer.parseRsaPublicKeyDer_failsOnly _).mono fun _ h => h.aboutCall)
        fun key _ => ?_
      split
      · exact .ok _
      have hoperation := Rsa.rsaOperation_failsOnly key.modulus key.publicExponent params.signature
      split
      next e he =>
        split
        · exact .ok _
        · exact .error (hoperation e he)
      next =>
        refine .bind (.of_eq_ok ⟨_, hash_eq _ _⟩) fun _ _ => ?_
        dsimp only
        split
        · exact .ok _
        exact .bind (RsaPss.emsaPssVerifySized_failsOnly _ _ _ _ _) fun _ _ => .ok _

lemma verifyEcdsa_failsOnly (params : VerifyParams) (message : List UInt8) :
    FailsOnly AboutCall (verifyEcdsa params message) := by
  rw [verifyEcdsa]
  cases params.publicKey with
  | none => exact .error (by decide)
  | some publicKey =>
      refine .bind (.require (by decide)) fun _ _ => ?_
      rw [hash_eq, ok_bind]
      exact .bind (Ecdsa.verifyEcdsaP256Sha256Digest_failsOnly (length_digestOf _ _) _ _)
        fun _ _ => .ok _

lemma verifyEd25519_failsOnly (params : VerifyParams) (message : List UInt8) :
    FailsOnly AboutCall (verifyEd25519 params message) := by
  rw [verifyEd25519]
  cases params.publicKey with
  | none => exact .error (by decide)
  | some publicKey =>
      refine .bind (.require (by decide)) fun _ _ => ?_
      exact .bind (Ed25519.verifyEd25519_failsOnly _ _ _) fun _ _ => .ok _

end NativeProvider

namespace ProviderCall

open NativeProvider

variable {rng : Rng} {call : ProviderCall}

/-- A call that is supported is carried out, and fails, if it does, for another reason. -/
lemma outcome_failsOnly (hrng : ∀ request size, FailsOnly AboutCall (rng.generate request size))
    (h : call.supported = true) : FailsOnly AboutCall (call.outcome rng) := by
  cases call with
  | sign params message =>
      refine .bind ?_ fun _ _ => .ok _
      rw [sign_eq]
      cases hcase : params.algorithm with
      | rsaPss => exact signRsaPss_failsOnly hrng _ _
      | rsaPssSha256 => exact signRsaPss_failsOnly hrng _ _
      | ecdsaP256Sha256 => exact signEcdsa_failsOnly _ _
      | ecdsaP384Sha384 =>
          rw [supported, hcase] at h
          cases h
      | ed25519 => exact signEd25519_failsOnly _ _
  | verify params message =>
      refine .bind ?_ fun _ _ => .ok _
      rw [verify_eq]
      cases hcase : params.algorithm with
      | rsaPss => exact verifyRsaPss_failsOnly _ _
      | rsaPssSha256 => exact verifyRsaPss_failsOnly _ _
      | ecdsaP256Sha256 => exact verifyEcdsa_failsOnly _ _
      | ecdsaP384Sha384 =>
          rw [supported, hcase] at h
          cases h
      | ed25519 => exact NativeProvider.verifyEd25519_failsOnly _ _
  | generateKeyPair params => cases h
  | asymmetricEncrypt params plaintext =>
      exact .bind (asymmetricEncrypt_failsOnly hrng h _) fun _ _ => .ok _
  | asymmetricDecrypt params ciphertext =>
      exact .bind (asymmetricDecrypt_failsOnly hrng h _) fun _ _ => .ok _
  | deriveSharedSecret params => cases h

/-- The one signature algorithm without support. -/
lemma eq_ecdsaP384Sha384 {algorithm : SignatureAlgorithm}
    (h : supportsSignature algorithm = false) : algorithm = .ecdsaP384Sha384 := by
  cases algorithm with
  | ecdsaP384Sha384 => rfl
  | rsaPss => cases h
  | rsaPssSha256 => cases h
  | ecdsaP256Sha256 => cases h
  | ed25519 => cases h

/-- A call that is not supported ends before it looks at anything else, its key included. -/
lemma outcome_unsupported (rng : Rng) (h : call.supported = false) :
    ∃ e, call.outcome rng = .error e ∧ e.code = .unsupportedAlgorithm := by
  cases call with
  | sign params message =>
      refine ⟨signatureAlgorithmError, ?_, rfl⟩
      rw [outcome, sign_eq, eq_ecdsaP384Sha384 h]
      rfl
  | verify params message =>
      refine ⟨signatureAlgorithmError, ?_, rfl⟩
      rw [outcome, verify_eq, eq_ecdsaP384Sha384 h]
      rfl
  | generateKeyPair params => exact ⟨_, rfl, rfl⟩
  | asymmetricEncrypt params plaintext =>
      refine ⟨encryptionAlgorithmError, ?_, rfl⟩
      have halgorithm : isRsaOaepAlgorithm params.algorithm = false := h
      rw [outcome, NativeProvider.asymmetricEncrypt, halgorithm, require_false, error_bind,
        error_bind]
  | asymmetricDecrypt params ciphertext =>
      refine ⟨encryptionAlgorithmError, ?_, rfl⟩
      have halgorithm : isRsaOaepAlgorithm params.algorithm = false := h
      rw [outcome, NativeProvider.asymmetricDecrypt, halgorithm, require_false, error_bind,
        error_bind]
  | deriveSharedSecret params => exact ⟨_, rfl, rfl⟩

end ProviderCall

/-- The operation-level queries match the behavior: the provider says that it does not support a
call exactly when the call ends with the code for that. The generator has other complaints. -/
theorem provider_supports (rng : Rng)
    (hrng : ∀ request size e, rng.generate request size = .error e →
      e.code ≠ .unsupportedAlgorithm)
    (call : ProviderCall) :
    call.supported = false ↔
      ∃ e, call.outcome rng = .error e ∧ e.code = .unsupportedAlgorithm := by
  constructor
  · intro h
    exact ProviderCall.outcome_unsupported rng h
  · rintro ⟨e, he, hcode⟩
    by_contra hsupported
    rw [Bool.not_eq_false] at hsupported
    exact ProviderCall.outcome_failsOnly hrng hsupported e he hcode

/-- A generator that never fails, and the signature algorithm without support. -/
theorem provider_supports_onesRng :
    ∃ e, (ProviderCall.sign ⟨.ecdsaP384Sha384, none, {}⟩ []).outcome onesRng = .error e ∧
      e.code = .unsupportedAlgorithm := by
  refine (provider_supports onesRng ?_ (.sign ⟨.ecdsaP384Sha384, none, {}⟩ [])).mp rfl
  intro request size e h
  cases h

end CryptoCore
