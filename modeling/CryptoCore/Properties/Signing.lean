import CryptoCore.Construction.NativeProvider
import CryptoCore.Properties.Asymmetric
import CryptoCore.Properties.Ecdsa
import CryptoCore.Properties.NativeProvider
import CryptoCore.Properties.RsaBlinding
import CryptoCore.Properties.RsaPss

/-!
# Signing with imported keys

A private key that an import returned is read again by every signature. What can still go wrong is
listed below: an Ed25519 key always signs, an ECDSA key fails when none of its nonces serves, and an
RSA key fails when the generator does, when the modulus has no room, or when eight blinding factors
are no good. The message has no say in the last of these.

`RsaPssFailure` and `SigningFailure` are lists of reasons, each with its error. That signing fails
for a reason is one direction and that it fails for no other is the other one, so that the theorem
is an equivalence for every error. It rests on the three ends of the blinded operation
(`rsaPrivateCrtBlindedWithRng_draws`): which of the eight draws is the first that is not unusable,
and whether it is a factor or an error.

The assumptions are those of the code. Keys are imported, and RSA keys have prime factors that fit
the fixed-size integers. The salt is one for which there can be a vector, since the code makes room
for it before it does anything else, and a failure to do that ends the process. The hashes are those
that are supported.
-/

namespace CryptoCore

open ByteStrings EmsaPss NativeProvider

/-! ## Imported private keys -/

/-- A private key that one of the five imports returned. -/
inductive ImportedPrivateKey (privateKey : PrivateKey) : Prop
  | rsaPkcs8 (bytes : List UInt8) (usages : UInt32)
      (h : PrivateKey.importPkcs8Der .rsa bytes usages = .ok privateKey)
  | rsaPkcs1 (bytes : List UInt8) (usages : UInt32)
      (h : PrivateKey.importRsaPkcs1Der bytes usages = .ok privateKey)
  | p256Pkcs8 (bytes : List UInt8) (usages : UInt32)
      (h : PrivateKey.importPkcs8Der .ecdsaP256 bytes usages = .ok privateKey)
  | p256Sec1 (bytes : List UInt8) (usages : UInt32)
      (h : PrivateKey.importSec1Der .ecdsaP256 bytes usages = .ok privateKey)
  | rawEd25519Seed (bytes : List UInt8) (usages : UInt32)
      (h : PrivateKey.importRawEd25519Seed bytes usages = .ok privateKey)

/-- What an imported private key holds: bytes that the parser of its algorithm reads, or a seed. -/
structure PrivateKey.Readable (privateKey : PrivateKey) : Prop where
  rsa : privateKey.algorithm = .rsa → ∃ key, parseRsaPrivateKeyDer privateKey.material = .ok key
  ecdsaP256 : privateKey.algorithm = .ecdsaP256 →
    ∃ key, parseP256PrivateKeyDer privateKey.material = .ok key
  ecdsaP384 : privateKey.algorithm ≠ .ecdsaP384
  ed25519 : privateKey.algorithm = .ed25519 → privateKey.material.length = 32

lemma ImportedPrivateKey.readable {privateKey : PrivateKey} (h : ImportedPrivateKey privateKey) :
    privateKey.Readable := by
  cases h with
  | rsaPkcs8 bytes usages h =>
      obtain ⟨key, hkey, rfl⟩ := material_of_check h
      exact ⟨fun _ => ⟨key, parseRsaPrivateKeyDer_pkcs8 hkey⟩, nofun, nofun, nofun⟩
  | rsaPkcs1 bytes usages h =>
      obtain ⟨key, hkey, rfl⟩ := material_of_check h
      exact ⟨fun _ => ⟨key, parseRsaPrivateKeyDer_pkcs1 hkey⟩, nofun, nofun, nofun⟩
  | p256Pkcs8 bytes usages h =>
      obtain ⟨key, hkey, rfl⟩ := material_of_check h
      exact ⟨nofun, fun _ => ⟨key, parseP256PrivateKeyDer_pkcs8 hkey⟩, nofun, nofun⟩
  | p256Sec1 bytes usages h =>
      obtain ⟨key, hkey, rfl⟩ := material_of_check (require_bind_eq_ok.mp h).2
      exact ⟨nofun, fun _ => ⟨key, parseP256PrivateKeyDer_standalone hkey⟩, nofun, nofun⟩
  | rawEd25519Seed bytes usages h =>
      obtain ⟨hsize, h⟩ := require_bind_eq_ok.mp h
      cases h
      exact ⟨nofun, nofun, nofun, fun _ => beq_iff_eq.mp hsize⟩

namespace NativeProvider

/-- The branches of `sign`. -/
lemma sign_eq (rng : Rng) (params : SignParams) (message : List UInt8) :
    sign rng params message =
      match params.algorithm with
      | .rsaPss | .rsaPssSha256 => signRsaPss rng params message
      | .ecdsaP256Sha256 => signEcdsa params message
      | .ecdsaP384Sha384 => .error signatureAlgorithmError
      | .ed25519 => signEd25519 params message := by
  rw [sign]
  generalize signRsaPss rng params message = rsa
  generalize signEcdsa params message = ecdsa
  generalize signEd25519 params message = ed25519
  cases params.algorithm <;> rfl

/-! ## Blinding factors -/

/-- A draw that returns a factor that is no good, so that another one is drawn. -/
def UnusableDraw (rng : Rng) (key : RsaPrivateKeyMaterial) (request : ℕ) : Prop :=
  ∃ factor, rng.generate request key.modulus.length = .ok factor ∧
    ¬ UsableFactor key factor.toList

/-- What is said of such a factor: that it is zero, or that it is not invertible. -/
def unusableError (factor : List UInt8) : Error :=
  if beValue factor = 0 then
    Rsa.rsaError .invalidArgument "RSA blinding factor must be non-zero"
  else Rsa.rsaError .invalidArgument "RSA blinding factor must be invertible"

lemma code_unusableError (factor : List UInt8) :
    (unusableError factor).code = .invalidArgument := by
  rw [unusableError]
  split <;> rfl

section Blinding

variable {rng : Rng} {key : RsaPrivateKeyMaterial} {input : List UInt8}

/-- For a representative, a draw is rejected for its factor. -/
lemma rejectedDraw_iff (hinput : beValue input < beValue key.modulus) (request : ℕ) :
    RejectedDraw rng key input request ↔ UnusableDraw rng key request := by
  simp only [RejectedDraw, UnusableDraw, Nat.not_le.mpr hinput, false_or]

/-- The operation says which of the two it was. -/
lemma privateCrtBlindedOperation_unusable_eq (hkey : RsaDer.ValidPrivateKey key)
    (hinput : beValue input < beValue key.modulus) {factor : List UInt8}
    (hfactor : ¬ UsableFactor key factor) :
    rsaPrivateCrtBlindedOperation key input factor = .error (unusableError factor) := by
  obtain ⟨hn, he, hp, hq, hdp, hdq, hqi⟩ := hkey.imports
  have hp1 := hkey.prime1.one_lt
  have hq1 := hkey.prime2.one_lt
  rw [rsaPrivateCrtBlindedOperation, unusableError]
  simp only [hn, he, hp, hq, hdp, hdq, hqi, BigInt.fromBeBytes_eq, orError_ok, ok_bind,
    beValue_singleton, UInt8.toNat_one]
  rw [Rsa.require_representative (by simpa only [BigInt.toNat_ofNat] using hinput), ok_bind]
  by_cases hzero : beValue factor = 0
  · have hisZero : (BigInt.ofNat (beValue factor)).isZero = true := by
      rw [BigInt.isZero_iff, BigInt.toNat_ofNat, hzero]
    rw [if_pos hzero, hisZero]
    rfl
  · have hisZero : (BigInt.ofNat (beValue factor)).isZero = false := by
      rw [BigInt.isZero_eq_false]
      rwa [BigInt.toNat_ofNat]
    have hguard : ((BigInt.ofNat (beValue factor % beValue key.prime1)).isZero ||
        (BigInt.ofNat (beValue factor % beValue key.prime2)).isZero) = true := by
      rw [UsableFactor, not_and_or, not_not, not_not] at hfactor
      rw [Bool.or_eq_true, BigInt.isZero_iff, BigInt.isZero_iff, BigInt.toNat_ofNat,
        BigInt.toNat_ofNat]
      exact hfactor.imp Nat.mod_eq_zero_of_dvd Nat.mod_eq_zero_of_dvd
    rw [if_neg hzero, hisZero, Bool.not_false, require_true, ok_bind,
      BigInt.modMultiply_eq _ _ (by rw [BigInt.toNat_ofNat]; omega), ok_bind,
      BigInt.modMultiply_eq _ _ (by rw [BigInt.toNat_ofNat]; omega), ok_bind]
    simp only [BigInt.toNat_ofNat, mul_one]
    rw [hguard]
    rfl

/-- Eight factors that are no good: the error is about the last one, the others are forgotten. -/
lemma rsaPrivateCrtBlindedWithRng_unusable (hkey : RsaDer.ValidPrivateKey key)
    (hinput : beValue input < beValue key.modulus) {request : ℕ}
    (hdraws : ∀ i < 8, UnusableDraw rng key (request + i))
    {factor : Vector UInt8 key.modulus.length}
    (hfactor : rng.generate (request + 7) key.modulus.length = .ok factor) :
    rsaPrivateCrtBlindedWithRng rng request key input =
      .error (unusableError factor.toList) := by
  have hrejected : ∀ i < 7, RejectedDraw rng key input (request + i) := fun i hi =>
    (rejectedDraw_iff hinput _).mpr (hdraws i (Nat.lt_succ_of_lt hi))
  obtain ⟨e, -, hrun, -⟩ := blindingAttempts_run hkey hrejected 1
    (providerError .providerError "RSA blinding failed")
  have hunusable : ¬ UsableFactor key factor.toList := by
    obtain ⟨factor', hfactor', hunusable⟩ := hdraws 7 (by decide)
    rw [hfactor] at hfactor'
    cases hfactor'
    exact hunusable
  rw [rsaPrivateCrtBlindedWithRng, hrun, blindingAttempts, hfactor, ok_bind,
    privateCrtBlindedOperation_unusable_eq hkey hinput hunusable]
  exact if_neg (not_not.mpr (code_unusableError _))

/-- The three ends of the blinded operation: behind factors that are no good there is a usable one,
or the generator fails, or there are eight of them. -/
lemma rsaPrivateCrtBlindedWithRng_draws (hkey : Rsa.PrimeKey key)
    (hinput : beValue input < beValue key.modulus) (request : ℕ) :
    (∃ k < 8, (∀ i < k, UnusableDraw rng key (request + i)) ∧
      ∃ factor, rng.generate (request + k) key.modulus.length = .ok factor ∧
        UsableFactor key factor.toList ∧ rsaPrivateCrtBlindedWithRng rng request key input =
          .ok (Rsa.privateOutput key (beValue input))) ∨
    (∃ k < 8, (∀ i < k, UnusableDraw rng key (request + i)) ∧
      ∃ e, rng.generate (request + k) key.modulus.length = .error e ∧
        rsaPrivateCrtBlindedWithRng rng request key input = .error e) ∨
    (∀ i < 8, UnusableDraw rng key (request + i)) ∧
      ∃ last, rng.generate (request + 7) key.modulus.length = .ok last ∧
        rsaPrivateCrtBlindedWithRng rng request key input =
          .error (unusableError last.toList) := by
  obtain hall | ⟨k, hk, hdraws, hfirst⟩ := exists_first_draw rng key input request
  · have hdraws : ∀ i < 8, UnusableDraw rng key (request + i) := fun i hi =>
      (rejectedDraw_iff hinput _).mp (hall i hi)
    obtain ⟨last, hlast, -⟩ := hdraws 7 (by decide)
    exact .inr (.inr ⟨hdraws, last, hlast,
      rsaPrivateCrtBlindedWithRng_unusable hkey.toValidPrivateKey hinput hdraws hlast⟩)
  · have hunusable : ∀ i < k, UnusableDraw rng key (request + i) := fun i hi =>
      (rejectedDraw_iff hinput _).mp (hdraws i hi)
    obtain ⟨e, hfailed⟩ | ⟨factor, hfactor, -, husable⟩ := of_not_rejectedDraw hfirst
    · exact .inr (.inl ⟨k, hk, hunusable, e, hfailed,
        rsaPrivateCrtBlindedWithRng_failed hkey.toValidPrivateKey hk hdraws hfailed⟩)
    · exact .inl ⟨k, hk, hunusable, factor, hfactor, husable,
        rsaPrivateCrtBlindedWithRng_usable hkey hk hdraws hinput hfactor husable⟩

end Blinding

/-! ## RSA-PSS -/

/-- The request of the first blinding factor: an empty salt is not asked for. -/
def firstFactor (pss : RsaPssParams) : ℕ :=
  if pss.saltLength.toNat = 0 then 0 else 1

/-- The modulus is too small for the hash and the salt. -/
def roomError : Error :=
  RsaPss.pssError .invalidArgument "RSA-PSS encoded message is too short for hash and salt"

/-- Why a key does not sign, with the error that is returned. No message is named. -/
inductive RsaPssFailure (rng : Rng) (pss : RsaPssParams) (key : RsaPrivateKeyMaterial) :
    Error → Prop
  | salt {e : Error} (hsalt : 0 < pss.saltLength.toNat)
      (h : rng.generate 0 pss.saltLength.toNat = .error e) : RsaPssFailure rng pss key e
  | room {salt : Vector UInt8 pss.saltLength.toNat} (hsalt : drawSalt rng _ = .ok salt)
      (h : encodedSize (encodedBits key.modulus) <
        digestSize pss.messageHash + pss.saltLength.toNat + 2) :
      RsaPssFailure rng pss key roomError
  | factor {salt : Vector UInt8 pss.saltLength.toNat} (hsalt : drawSalt rng _ = .ok salt)
      (hroom : digestSize pss.messageHash + pss.saltLength.toNat + 2 ≤
        encodedSize (encodedBits key.modulus))
      {k : ℕ} (hk : k < 8) (hdraws : ∀ i < k, UnusableDraw rng key (firstFactor pss + i))
      {e : Error} (h : rng.generate (firstFactor pss + k) key.modulus.length = .error e) :
      RsaPssFailure rng pss key e
  | factors {salt : Vector UInt8 pss.saltLength.toNat} (hsalt : drawSalt rng _ = .ok salt)
      (hroom : digestSize pss.messageHash + pss.saltLength.toNat + 2 ≤
        encodedSize (encodedBits key.modulus))
      (hdraws : ∀ i < 8, UnusableDraw rng key (firstFactor pss + i))
      {last : Vector UInt8 key.modulus.length}
      (h : rng.generate (firstFactor pss + 7) key.modulus.length = .ok last) :
      RsaPssFailure rng pss key (unusableError last.toList)

section RsaPss

variable {rng : Rng} {params : SignParams} {privateKey : PrivateKey}
  {key : RsaPrivateKeyMaterial}

/-- The stages of signing behind the guards. -/
lemma signRsaPss_stages (hprivate : params.privateKey = some privateKey)
    (halgorithm : privateKey.algorithm = .rsa) (husage : privateKey.allows .sign = true)
    (hparse : parseRsaPrivateKeyDer privateKey.material = .ok key)
    (hkey : Rsa.PrimeKey key) (message : List UInt8) :
    let pss := rsaPssParams params.algorithm params.rsaPss
    signRsaPss rng params message = (do
      let salt ← drawSalt rng pss.saltLength.toNat
      if digestSize pss.messageHash + salt.toList.length + 2 ≤
          encodedSize (encodedBits key.modulus) then
        rsaPrivateCrtBlindedWithRng rng (firstFactor pss) key
          (RsaPss.encodeWith pss (encodedBits key.modulus) (digestOf pss.messageHash message)
            salt.toList)
      else .error roomError) :=
  signRsaPss_eq_bind hprivate halgorithm husage hparse hkey message

/-- A key signs with a salt that it drew and a usable factor, or there is a reason why not. -/
lemma signRsaPss_cases (rng : Rng) (hprivate : params.privateKey = some privateKey)
    (halgorithm : privateKey.algorithm = .rsa) (husage : privateKey.allows .sign = true)
    (hparse : parseRsaPrivateKeyDer privateKey.material = .ok key) (hkey : Rsa.PrimeKey key)
    (message : List UInt8) :
    let pss := rsaPssParams params.algorithm params.rsaPss
    (∃ salt, drawSalt rng pss.saltLength.toNat = .ok salt ∧
      digestSize pss.messageHash + salt.toList.length + 2 ≤
        encodedSize (encodedBits key.modulus) ∧
      (∃ k < 8, (∀ i < k, UnusableDraw rng key (firstFactor pss + i)) ∧
        ∃ factor, rng.generate (firstFactor pss + k) key.modulus.length = .ok factor ∧
          UsableFactor key factor.toList) ∧
      signRsaPss rng params message = .ok (Rsa.privateOutput key (beValue
        (RsaPss.encodeWith pss (encodedBits key.modulus) (digestOf pss.messageHash message)
          salt.toList)))) ∨
      ∃ e, RsaPssFailure rng pss key e := by
  intro pss
  rw [signRsaPss_stages hprivate halgorithm husage hparse hkey]
  cases hsalt : drawSalt rng pss.saltLength.toNat with
  | error e =>
      rw [drawSalt] at hsalt
      split at hsalt
      next => cases hsalt
      next hne => exact .inr ⟨e, .salt (Nat.pos_of_ne_zero hne) hsalt⟩
  | ok salt =>
      have hlength : salt.toList.length = pss.saltLength.toNat := Vector.length_toList
      by_cases hroom : digestSize pss.messageHash + salt.toList.length + 2 ≤
          encodedSize (encodedBits key.modulus)
      -- Eight draws at most: one was usable, one failed, or all eight were unusable.
      · have hlt := beValue_encodeWith_lt hkey.toValidPrivateKey message hroom
        obtain ⟨k, hk, hdraws, factor, hfactor, husable, hoperation⟩ |
            ⟨k, hk, hdraws, e, hfailed, -⟩ | ⟨hdraws, last, hlast, -⟩ :=
          rsaPrivateCrtBlindedWithRng_draws hkey hlt (firstFactor pss)
        · refine .inl ⟨salt, rfl, hroom, ⟨k, hk, hdraws, factor, hfactor, husable⟩, ?_⟩
          rw [ok_bind, if_pos hroom, hoperation]
        · rw [hlength] at hroom
          exact .inr ⟨e, .factor hsalt hroom hk hdraws hfailed⟩
        · rw [hlength] at hroom
          exact .inr ⟨_, .factors hsalt hroom hdraws hlast⟩
      · rw [hlength] at hroom
        exact .inr ⟨_, .room hsalt (Nat.lt_of_not_le hroom)⟩

/-- Each of the reasons is one. -/
lemma signRsaPss_of_failure (hprivate : params.privateKey = some privateKey)
    (halgorithm : privateKey.algorithm = .rsa) (husage : privateKey.allows .sign = true)
    (hparse : parseRsaPrivateKeyDer privateKey.material = .ok key)
    (hkey : Rsa.PrimeKey key) {e : Error}
    (h : RsaPssFailure rng (rsaPssParams params.algorithm params.rsaPss) key e)
    (message : List UInt8) : signRsaPss rng params message = .error e := by
  rw [signRsaPss_stages hprivate halgorithm husage hparse hkey]
  set pss := rsaPssParams params.algorithm params.rsaPss
  cases h with
  | salt hsalt h => rw [drawSalt, if_neg (Nat.ne_of_gt hsalt), h, error_bind]
  | @room salt hsalt h =>
      have hlength : salt.toList.length = pss.saltLength.toNat := Vector.length_toList
      rw [hsalt, ok_bind, hlength, if_neg (Nat.not_le.mpr h)]
  | @factor salt hsalt hroom k hk hdraws _ h =>
      have hlength : salt.toList.length = pss.saltLength.toNat := Vector.length_toList
      rw [← hlength] at hroom
      have hlt := beValue_encodeWith_lt hkey.toValidPrivateKey message hroom
      rw [hsalt, ok_bind, if_pos hroom]
      exact rsaPrivateCrtBlindedWithRng_failed hkey.toValidPrivateKey hk
        (fun i hi => (rejectedDraw_iff hlt _).mpr (hdraws i hi)) h
  | @factors salt hsalt hroom hdraws last h =>
      have hlength : salt.toList.length = pss.saltLength.toNat := Vector.length_toList
      rw [← hlength] at hroom
      have hlt := beValue_encodeWith_lt hkey.toValidPrivateKey message hroom
      rw [hsalt, ok_bind, if_pos hroom]
      exact rsaPrivateCrtBlindedWithRng_unusable hkey.toValidPrivateKey hlt hdraws h

end RsaPss

/-! ## ECDSA -/

/-- The error of a key without a nonce that serves. -/
def noncesError : Error :=
  Ecdsa.ecdsaError .providerError "failed to generate ECDSA signature"

/-- None of the sixteen nonces of a message serves, which depends on key and message only. -/
def NoncesExhausted (key : EcPrivateKeyMaterial) (message : List UInt8) : Prop :=
  ∀ i < 16, ¬ Ecdsa.Serves (beValue key.privateScalar) (beValue (digestOf .sha256 message))
    (nonceCandidate (beValue key.privateScalar) (digestOf .sha256 message) i)

/-- A P-256 key signs, or its nonces are exhausted. -/
lemma signEcdsa_eq {params : SignParams} {privateKey : PrivateKey}
    (hprivate : params.privateKey = some privateKey)
    (halgorithm : privateKey.algorithm = .ecdsaP256) (husage : privateKey.allows .sign = true)
    {key : EcPrivateKeyMaterial} (hparse : parseP256PrivateKeyDer privateKey.material = .ok key)
    (message : List UInt8) :
    (NoncesExhausted key message ∧ signEcdsa params message = .error noncesError) ∨
      ¬ NoncesExhausted key message ∧ ∃ signature, signEcdsa params message = .ok signature := by
  have hguard : (privateKey.algorithm == .ecdsaP256 && privateKey.allows .sign) = true := by
    rw [halgorithm, husage]
    rfl
  have hdigest : (digestOf .sha256 message).length = 32 := length_digestOf _ _
  have hsign : signEcdsa params message =
      signEcdsaP256Sha256Digest privateKey.material (digestOf .sha256 message) := by
    rw [signEcdsa, hprivate]
    simp only [hguard, require_true, ok_bind, hash_eq]
  have hmac : hmacOf .sha256 = standardMac .hmacSha256 := hmacOf_eq .hmacSha256
  have hexhausted : NoncesExhausted key message ↔ DeterministicNonces.firstSuccess
      (Ecdsa.attempt (beValue key.privateScalar) (beValue (digestOf .sha256 message))
        (nonceCandidate (beValue key.privateScalar) (digestOf .sha256 message)))
      0 Ecdsa.maxAttempts = none := by
    rw [DeterministicNonces.firstSuccess_eq_none_iff]
    simp only [Ecdsa.attempt_eq_none_iff]
    rfl
  rw [hsign, Ecdsa.sign_eq hparse (EcDer.validPrivateScalar_of_parse hparse) hdigest, hmac,
    ← nonceCandidate, hexhausted]
  cases DeterministicNonces.firstSuccess (Ecdsa.attempt (beValue key.privateScalar)
      (beValue (digestOf .sha256 message))
      (nonceCandidate (beValue key.privateScalar) (digestOf .sha256 message)))
      0 Ecdsa.maxAttempts with
  | none => exact .inl ⟨rfl, rfl⟩
  | some signature => exact .inr ⟨Option.some_ne_none _, signature, rfl⟩

/-! ## Ed25519 -/

/-- A seed of 32 bytes always signs. -/
lemma signEd25519_ok {params : SignParams} {privateKey : PrivateKey}
    (hprivate : params.privateKey = some privateKey)
    (halgorithm : privateKey.algorithm = .ed25519) (husage : privateKey.allows .sign = true)
    (hseed : privateKey.material.length = 32) (message : List UInt8) :
    ∃ signature, signEd25519 params message = .ok signature := by
  have hguard : (privateKey.algorithm == .ed25519 && privateKey.allows .sign) = true := by
    rw [halgorithm, husage]
    rfl
  have hsign := Ed25519.signEd25519Seed_eq hseed message
  dsimp only at hsign
  rw [signEd25519, hprivate]
  simp only [hguard, require_true, ok_bind, hsign]
  exact ⟨_, rfl⟩

/-! ## All algorithms -/

/-- Why a private key does not sign a message, with the error that is returned. -/
inductive SigningFailure (rng : Rng) (params : SignParams) (privateKey : PrivateKey)
    (message : List UInt8) : Error → Prop
  | rsaPss {key : RsaPrivateKeyMaterial} (halgorithm : privateKey.algorithm = .rsa)
      (hparse : parseRsaPrivateKeyDer privateKey.material = .ok key) {e : Error}
      (h : RsaPssFailure rng (rsaPssParams params.algorithm params.rsaPss) key e) :
      SigningFailure rng params privateKey message e
  | ecdsa {key : EcPrivateKeyMaterial} (halgorithm : privateKey.algorithm = .ecdsaP256)
      (hparse : parseP256PrivateKeyDer privateKey.material = .ok key)
      (h : NoncesExhausted key message) :
      SigningFailure rng params privateKey message noncesError

section Failures

variable {rng : Rng} {params : SignParams} {privateKey : PrivateKey}

/-- Both names of RSA-PSS lead to this branch, and an RSA key fails for no other reason. -/
lemma signRsaPss_eq_error_iff {key : RsaPrivateKeyMaterial}
    (hprivate : params.privateKey = some privateKey) (halgorithm : privateKey.algorithm = .rsa)
    (husage : privateKey.allows .sign = true)
    (hparse : parseRsaPrivateKeyDer privateKey.material = .ok key) (hkey : Rsa.PrimeKey key)
    (message : List UInt8) (e : Error) :
    signRsaPss rng params message = .error e ↔ SigningFailure rng params privateKey message e := by
  have hfails : ∀ {e}, RsaPssFailure rng (rsaPssParams params.algorithm params.rsaPss) key e →
      signRsaPss rng params message = .error e := fun h =>
    signRsaPss_of_failure hprivate halgorithm husage hparse hkey h message
  constructor
  · intro h
    obtain ⟨salt, -, -, -, hsign⟩ | ⟨e', hfailure⟩ :=
      signRsaPss_cases rng hprivate halgorithm husage hparse hkey message
    · cases h.symm.trans hsign
    · cases h.symm.trans (hfails hfailure)
      exact .rsaPss halgorithm hparse hfailure
  · intro h
    cases h with
    | rsaPss _ hparse' h =>
        cases hparse.symm.trans hparse'
        exact hfails h
    | ecdsa hother _ _ => cases halgorithm.symm.trans hother

/-- An ECDSA key fails when its nonces run out. -/
lemma signEcdsa_eq_error_iff {key : EcPrivateKeyMaterial}
    (hprivate : params.privateKey = some privateKey)
    (halgorithm : privateKey.algorithm = .ecdsaP256) (husage : privateKey.allows .sign = true)
    (hparse : parseP256PrivateKeyDer privateKey.material = .ok key) (message : List UInt8)
    (e : Error) :
    signEcdsa params message = .error e ↔ SigningFailure rng params privateKey message e := by
  obtain ⟨hexhausted, hsign⟩ | ⟨hnonces, signature, hsign⟩ :=
    signEcdsa_eq hprivate halgorithm husage hparse message
  · rw [hsign]
    constructor
    · rintro ⟨⟩
      exact .ecdsa halgorithm hparse hexhausted
    · intro h
      cases h with
      | rsaPss hother _ _ => cases halgorithm.symm.trans hother
      | ecdsa _ _ _ => rfl
  · rw [hsign]
    constructor
    · intro h
      cases h
    · intro h
      cases h with
      | rsaPss hother _ _ => cases halgorithm.symm.trans hother
      | ecdsa _ hparse' h =>
          cases hparse.symm.trans hparse'
          exact absurd h hnonces

/-- An Ed25519 key has no reason to fail. -/
lemma SigningFailure.algorithm_ne {message : List UInt8} {e : Error}
    (h : SigningFailure rng params privateKey message e) : privateKey.algorithm ≠ .ed25519 := by
  intro halgorithm
  cases h with
  | rsaPss hother _ _ => cases halgorithm.symm.trans hother
  | ecdsa hother _ _ => cases halgorithm.symm.trans hother

end Failures

end NativeProvider

/-- With an imported key of the algorithm and the usage, whose factors are primes of at most 256
bytes if it is an RSA key, and a salt for which there can be a vector: signing fails exactly for the
reasons above, with the error of each. -/
theorem sign_eq_error_iff (rng : Rng) (params : SignParams) (privateKey : PrivateKey)
    (hprivate : params.privateKey = some privateKey) (himported : ImportedPrivateKey privateKey)
    (husage : privateKey.allows .sign = true)
    (hmatches : privateKey.algorithm = params.algorithm.keyAlgorithm)
    (hprimes : privateKey.algorithm = .rsa →
      ∀ key, parseRsaPrivateKeyDer privateKey.material = .ok key →
        (beValue key.prime1).Prime ∧ (beValue key.prime2).Prime ∧
          key.prime1.length ≤ 256 ∧ key.prime2.length ≤ 256)
    (_hsalt : privateKey.algorithm = .rsa →
      SaltAllocates (rsaPssParams params.algorithm params.rsaPss))
    (message : List UInt8) (e : Error) :
    sign rng params message = .error e ↔ SigningFailure rng params privateKey message e := by
  have hkeys := himported.readable
  rw [sign_eq]
  have hrsa : privateKey.algorithm = .rsa → (signRsaPss rng params message = .error e ↔
      SigningFailure rng params privateKey message e) := by
    intro halgorithm
    obtain ⟨key, hparse⟩ := hkeys.rsa halgorithm
    obtain ⟨hprime1, hprime2, hlength1, hlength2⟩ := hprimes halgorithm key hparse
    have hkey := Rsa.PrimeKey.of_parse hparse hprime1 hprime2 hlength1 hlength2
    exact signRsaPss_eq_error_iff hprivate halgorithm husage hparse hkey message e
  cases hcase : params.algorithm <;> rw [hcase] at hmatches
  case rsaPss => exact hrsa hmatches
  case rsaPssSha256 => exact hrsa hmatches
  case ecdsaP256Sha256 =>
    obtain ⟨key, hparse⟩ := hkeys.ecdsaP256 hmatches
    exact signEcdsa_eq_error_iff hprivate hmatches husage hparse message e
  -- No import gives a key of this algorithm.
  case ecdsaP384Sha384 => exact absurd hmatches hkeys.ecdsaP384
  case ed25519 =>
    obtain ⟨signature, hsign⟩ :=
      signEd25519_ok hprivate hmatches husage (hkeys.ed25519 hmatches) message
    refine iff_of_false ?_ fun h => h.algorithm_ne hmatches
    dsimp only
    rw [hsign]
    intro h
    cases h

/-- The modulus of 266 bits has no room for a salt of 32 bytes. -/
theorem sign_eq_error_iff_signingKey :
    sign onesRng ⟨.rsaPssSha256, some signingPrivateKey, {}⟩ [] = .error roomError := by
  have himport : PrivateKey.importRsaPkcs1Der signingKeyDer (keyUsageValue .sign) =
      .ok signingPrivateKey := by
    have hparse : parseRsaPkcs1PrivateKeyDer signingKeyDer = .ok signingKey := by decide +kernel
    rw [PrivateKey.importRsaPkcs1Der, hparse]
    rfl
  refine (sign_eq_error_iff onesRng ⟨.rsaPssSha256, some signingPrivateKey, {}⟩ signingPrivateKey
    rfl (.rsaPkcs1 _ _ himport) rfl rfl ?_ (fun _ => by decide) [] roomError).mpr ?_
  · intro _ key hparse
    cases signingKeyDer_parse.symm.trans hparse
    exact ⟨signingKey_prime1, signingKey_prime2, by decide, by decide⟩
  · have hsalt : drawSalt onesRng (RsaPssParams.forHash .sha256).saltLength.toNat =
        .ok (Vector.replicate _ 1) := rfl
    have hroom : RsaPssFailure onesRng (.forHash .sha256) signingKey roomError :=
      .room hsalt (by decide +kernel)
    have halgorithm : signingPrivateKey.algorithm = .rsa := rfl
    apply SigningFailure.rsaPss halgorithm signingKeyDer_parse
    exact hroom

end CryptoCore
