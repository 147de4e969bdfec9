import CryptoCore.Construction.NativeProvider
import CryptoCore.Properties.RsaPss

/-!
# Verification with imported keys

A public key that an import returned is read again by every verification without an error, so that a
verification with it decides: no signature makes it fail.

There are four imports of public keys. `ImportedPublicKey.readable` says what each of them leaves
behind: bytes that the parser of the algorithm accepts, or the encoding of a point. That the parser
at use is not the one at import, but one that tries two containers, is dealt with where the
containers are told apart.

Behind a key that is read, nothing in a verification fails. For RSA-PSS the recovery and the check
both have a verdict for every byte string, a signature of the wrong length or above the modulus
included. For ECDSA a signature that does not parse is invalid, not malformed. For Ed25519 the
equation is decided between points. The assumption on the salt length is the one that keeps the size
that the check computes from wrapping around.
-/

namespace CryptoCore

/-- The algorithm of the keys that a signature algorithm takes. Both names of RSA-PSS take RSA keys.
-/
def SignatureAlgorithm.keyAlgorithm : SignatureAlgorithm → AsymmetricKeyAlgorithm
  | .rsaPss | .rsaPssSha256 => .rsa
  | .ecdsaP256Sha256 => .ecdsaP256
  | .ecdsaP384Sha384 => .ecdsaP384
  | .ed25519 => .ed25519

namespace NativeProvider

/-! ## Imported public keys -/

/-- A public key that one of the four imports returned, with the bytes and usages it was given. -/
inductive ImportedPublicKey (publicKey : PublicKey) : Prop
  | rsaSpki (bytes : List UInt8) (usages : UInt32)
      (h : PublicKey.importSpkiDer .rsa bytes usages = .ok publicKey)
  | rsaPkcs1 (bytes : List UInt8) (usages : UInt32)
      (h : PublicKey.importRsaPkcs1Der bytes usages = .ok publicKey)
  | p256Spki (bytes : List UInt8) (usages : UInt32)
      (h : PublicKey.importSpkiDer .ecdsaP256 bytes usages = .ok publicKey)
  | rawEd25519 (bytes : List UInt8) (usages : UInt32)
      (h : PublicKey.importRawEd25519 bytes usages = .ok publicKey)

/-- What an imported key holds: bytes that the parser of its algorithm reads. No import makes a key
for P-384. -/
structure Readable (publicKey : PublicKey) : Prop where
  rsa : publicKey.algorithm = .rsa → ∃ key, parseRsaPublicKeyDer publicKey.material = .ok key
  ecdsaP256 : publicKey.algorithm = .ecdsaP256 →
    ∃ key, parseP256PublicKeyDer publicKey.material = .ok key
  ecdsaP384 : publicKey.algorithm ≠ .ecdsaP384
  ed25519 : publicKey.algorithm = .ed25519 → ∃ A, publicKey.material = Ed25519Curve.encoding A

lemma ImportedPublicKey.readable {publicKey : PublicKey} (h : ImportedPublicKey publicKey) :
    Readable publicKey := by
  cases h with
  | rsaSpki bytes usages h =>
      obtain ⟨key, hspki, h⟩ := Loops.bind_eq_ok.mp h
      cases h
      refine ⟨fun _ => ?_, nofun, nofun, nofun⟩
      -- the PKCS#1 parser is tried first, and whatever it returns is a key
      rw [parseRsaPublicKeyDer]
      split
      · exact ⟨_, rfl⟩
      · exact ⟨key, hspki⟩
  | rsaPkcs1 bytes usages h =>
      obtain ⟨key, hpkcs1, h⟩ := Loops.bind_eq_ok.mp h
      cases h
      rw [parseRsaPkcs1PublicKeyDer] at hpkcs1
      refine ⟨fun _ => ⟨key, ?_⟩, nofun, nofun, nofun⟩
      rw [parseRsaPublicKeyDer, hpkcs1]
  | p256Spki bytes usages h =>
      obtain ⟨key, hspki, h⟩ := Loops.bind_eq_ok.mp h
      cases h
      exact ⟨nofun, fun _ => ⟨key, hspki⟩, nofun, nofun⟩
  | rawEd25519 bytes usages h =>
      obtain ⟨_, hvalid, h⟩ := Loops.bind_eq_ok.mp h
      cases h
      exact ⟨nofun, nofun, nofun,
        fun _ => (Ed25519.validateEd25519PublicKey_eq_ok_iff bytes).mp hvalid⟩

/-- The branches of `verify`, which the algorithm of the call chooses. -/
lemma verify_eq (params : VerifyParams) (message : List UInt8) :
    verify params message =
      match params.algorithm with
      | .rsaPss | .rsaPssSha256 => verifyRsaPss params message
      | .ecdsaP256Sha256 => verifyEcdsa params message
      | .ecdsaP384Sha384 => .error signatureAlgorithmError
      | .ed25519 => verifyEd25519 params message := by
  rw [verify]
  generalize verifyRsaPss params message = rsa
  generalize verifyEcdsa params message = ecdsa
  generalize verifyEd25519 params message = ed25519
  cases params.algorithm <;> rfl

section Verify

variable {params : VerifyParams} {publicKey : PublicKey}

/-- Verification with an encoded point decides. -/
lemma verifyEd25519_ok (hpublic : params.publicKey = some publicKey)
    (halgorithm : publicKey.algorithm = .ed25519) (husage : publicKey.allows .verify = true)
    {A : Ed25519Curve.Point} (hmaterial : publicKey.material = Ed25519Curve.encoding A)
    (message : List UInt8) : ∃ result, verifyEd25519 params message = .ok result := by
  have hguard : (publicKey.algorithm == .ed25519 && publicKey.allows .verify) = true := by
    rw [halgorithm, husage]
    rfl
  obtain ⟨valid, hvalid, -⟩ := Ed25519.verifyEd25519_eq A params.signature message
  rw [verifyEd25519, hpublic]
  simp only [hguard, require_true, ok_bind, hmaterial, hvalid]
  exact ⟨_, rfl⟩

/-- Verification with a P-256 key decides. -/
lemma verifyEcdsa_ok (hpublic : params.publicKey = some publicKey)
    (halgorithm : publicKey.algorithm = .ecdsaP256) (husage : publicKey.allows .verify = true)
    {key : EcPublicKeyMaterial} (hkey : parseP256PublicKeyDer publicKey.material = .ok key)
    (message : List UInt8) : ∃ result, verifyEcdsa params message = .ok result := by
  have hguard : (publicKey.algorithm == .ecdsaP256 && publicKey.allows .verify) = true := by
    rw [halgorithm, husage]
    rfl
  obtain ⟨Q, -, hpoint⟩ := Ecdsa.publicKeyPoint_eq hkey
  have hdigest : (digestOf .sha256 message).length = 32 := length_digestOf _ _
  rw [verifyEcdsa, hpublic]
  simp only [hguard, require_true, ok_bind, hash_eq,
    Ecdsa.verify_eq hpoint hdigest params.signature]
  exact ⟨_, rfl⟩

end Verify

end NativeProvider

/-! ## Verification decides -/

open NativeProvider

/-- With an imported key of the algorithm and the usage, verification returns a verdict on every
message and every signature. -/
theorem verify_decides (params : VerifyParams) (publicKey : PublicKey)
    (hpublic : params.publicKey = some publicKey) (himported : ImportedPublicKey publicKey)
    (husage : publicKey.allows .verify = true)
    (hmatches : publicKey.algorithm = params.algorithm.keyAlgorithm)
    (hsum : digestSize (rsaPssParams params.algorithm params.rsaPss).messageHash +
      (rsaPssParams params.algorithm params.rsaPss).saltLength.toNat + 2 < 2 ^ 64)
    (message : List UInt8) :
    verify params message = .ok .valid ∨ verify params message = .ok .invalid := by
  have hdecides : ∃ result, verify params message = .ok result := by
    rw [verify_eq]
    have hkeys := himported.readable
    have hrsa : publicKey.algorithm = .rsa →
        ∃ result, verifyRsaPss params message = .ok result := by
      intro halgorithm
      obtain ⟨key, hkey⟩ := hkeys.rsa halgorithm
      exact ⟨_, verifyRsaPss_eq params hpublic halgorithm husage hkey hsum message⟩
    cases hcase : params.algorithm <;> rw [hcase] at hmatches
    case rsaPss => exact hrsa hmatches
    case rsaPssSha256 => exact hrsa hmatches
    case ecdsaP256Sha256 =>
      obtain ⟨key, hkey⟩ := hkeys.ecdsaP256 hmatches
      exact verifyEcdsa_ok hpublic hmatches husage hkey message
    case ecdsaP384Sha384 => exact absurd hmatches hkeys.ecdsaP384
    case ed25519 =>
      obtain ⟨A, hmaterial⟩ := hkeys.ed25519 hmatches
      exact verifyEd25519_ok hpublic hmatches husage hmaterial message
  obtain ⟨result, hresult⟩ := hdecides
  cases result with
  | valid => exact .inl hresult
  | invalid => exact .inr hresult

/-- A signature of the length of the modulus under the RSA key of 266 bits. -/
theorem verify_decides_signingKey :
    verify ⟨.rsaPss, some signingPublicKey, List.replicate 34 1, unsaltedParams⟩ [] =
        .ok .valid ∨
      verify ⟨.rsaPss, some signingPublicKey, List.replicate 34 1, unsaltedParams⟩ [] =
        .ok .invalid := by
  have hparse : ∃ key, parseRsaPkcs1PublicKeyDer signingPublicKeyDer = .ok key := by
    refine ⟨⟨signingKey.modulus, signingKey.publicExponent⟩, ?_⟩
    decide +kernel
  obtain ⟨key, hkey⟩ := hparse
  have himport : PublicKey.importRsaPkcs1Der signingPublicKeyDer (keyUsageValue .verify) =
      .ok signingPublicKey := by
    rw [PublicKey.importRsaPkcs1Der, hkey]
    rfl
  exact verify_decides ⟨.rsaPss, some signingPublicKey, List.replicate 34 1, unsaltedParams⟩
    signingPublicKey rfl (.rsaPkcs1 _ _ himport) rfl rfl (by decide) []

end CryptoCore
