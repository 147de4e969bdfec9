import CryptoCore.Properties.AesGcm
import CryptoCore.Properties.Ed25519
import CryptoCore.Properties.KeyStore
import CryptoCore.Properties.NativeProvider
import CryptoCore.Properties.SignatureOrigins
import CryptoCore.Properties.Signing

/-!
# Working with stored keys

A key that the store handed out once it hands out again, whatever calls came in between. So a
signature made with a stored private key verifies with the stored public key at any later time, and
what was sealed under a stored secret key opens under it.

The first section is about the store alone. After any calls it reads like the log of the insertions
(`storeAfter_readsLike`), and a longer log has the same first entries; so a key that was found is
found later, with the usages it had, whichever insertions were tried in between under its
identifier.

The other two sections compose this with what is known of the operations. `SigningPair` says that a
public key belongs to a private key, for each of the algorithms that sign. The public key may be
stored at any time, also after the signature was made. For sealed messages encryption always
succeeds under a non-empty nonce and a tag size from twelve to sixteen; whether a message opens
again depends on the usages of the key, which are asked for when the store hands it out.
-/

namespace CryptoCore

open ByteStrings NativeProvider Streaming

/-! ## Keys stay -/

/-- The store behind some calls, from the empty store on. -/
def storeAfter (calls : List KeyStoreCall) : KeyStore :=
  stateAfter KeyStore.call {} calls

section Stay

variable {before : List KeyStoreCall} {id : KeyId} {usage : KeyUsage}

lemma requireKey_eq_ok {κ : Type} {allows : κ → KeyUsage → Bool} {found : Option κ}
    {missingMessage usageMessage : String} {key : κ} :
    requireKey allows found usage missingMessage usageMessage = .ok key ↔
      found = some key ∧ allows key usage = true := by
  cases found with
  | none => exact iff_of_false nofun nofun
  | some found =>
      rw [requireKey, require_bind_eq_ok]
      constructor
      · rintro ⟨hallows, ⟨⟩⟩
        exact ⟨rfl, hallows⟩
      · rintro ⟨⟨⟩, hallows⟩
        exact ⟨hallows, rfl⟩

lemma storeAfter_readsLike (calls : List KeyStoreCall) :
    (storeAfter calls).ReadsLike (calls.flatMap KeyLog.insertion) := by
  have h := KeyStore.ReadsLike.simulates.stateAfter KeyStore.ReadsLike.empty calls
  rwa [KeyLog.stateAfter_call, List.nil_append] at h

/-- What a table of a log holds, it holds of every longer log, since first entries stay. -/
lemma KeyLog.Holds.stays {ν : Type} {log later : KeyLog} {kind : StoredKey → Option ν}
    {table table' : List (KeyId × ν)} {value : ν} (h : log.Holds kind table)
    (h' : KeyLog.Holds (log ++ later) kind table') (hfound : table.lookup id = some value) :
    table'.lookup id = some value := by
  rw [h id] at hfound
  obtain ⟨key, hkey, hvalue⟩ := Option.bind_eq_some_iff.mp hfound
  rw [h' id, KeyLog.first_append_of_some hkey, Option.bind_some, hvalue]

lemma requireSecret_stays {key : SecretKey} {usage' : KeyUsage}
    (h : (storeAfter before).requireSecret id usage = .ok key) (later : List KeyStoreCall)
    (husage : key.allows usage' = true) :
    (storeAfter (before ++ later)).requireSecret id usage' = .ok key := by
  have hlater := (storeAfter_readsLike (before ++ later)).secretKeys
  rw [List.flatMap_append] at hlater
  exact requireKey_eq_ok.mpr ⟨(storeAfter_readsLike before).secretKeys.stays hlater
    (requireKey_eq_ok.mp h).1, husage⟩

lemma requirePublic_stays {key : PublicKey}
    (h : (storeAfter before).requirePublic id usage = .ok key) (later : List KeyStoreCall) :
    (storeAfter (before ++ later)).requirePublic id usage = .ok key := by
  have hlater := (storeAfter_readsLike (before ++ later)).publicKeys
  rw [List.flatMap_append] at hlater
  exact requireKey_eq_ok.mpr ⟨(storeAfter_readsLike before).publicKeys.stays hlater
    (requireKey_eq_ok.mp h).1, (requireKey_eq_ok.mp h).2⟩

lemma requirePrivate_stays {key : PrivateKey}
    (h : (storeAfter before).requirePrivate id usage = .ok key) (later : List KeyStoreCall) :
    (storeAfter (before ++ later)).requirePrivate id usage = .ok key := by
  have hlater := (storeAfter_readsLike (before ++ later)).privateKeys
  rw [List.flatMap_append] at hlater
  exact requireKey_eq_ok.mpr ⟨(storeAfter_readsLike before).privateKeys.stays hlater
    (requireKey_eq_ok.mp h).1, (requireKey_eq_ok.mp h).2⟩

end Stay

/-! ## Signatures -/

/-- A public key that belongs to a private key, for a signature algorithm. RSA keys need prime
factors. -/
def SigningPair (algorithm : SignatureAlgorithm) (privateKey : PrivateKey)
    (publicKey : PublicKey) : Prop :=
  publicKey.algorithm = algorithm.keyAlgorithm ∧
  match algorithm with
  | .rsaPss | .rsaPssSha256 => ∃ key,
      parseRsaPrivateKeyDer privateKey.material = .ok key ∧
        (beValue key.prime1).Prime ∧ (beValue key.prime2).Prime ∧
        key.prime1.length ≤ 256 ∧ key.prime2.length ≤ 256 ∧
        parseRsaPublicKeyDer publicKey.material = .ok ⟨key.modulus, key.publicExponent⟩
  | .ecdsaP256Sha256 => ∃ key,
      parseP256PrivateKeyDer privateKey.material = .ok key ∧
        parseP256PublicKeyDer publicKey.material =
          .ok (EcDer.publicKeyOf (beValue key.privateScalar))
  | .ecdsaP384Sha384 => False
  | .ed25519 => ed25519PublicKeyOfSeed privateKey.material = .ok publicKey.material

namespace NativeProvider

section Pair

variable {rng : Rng} {privateKey : PrivateKey} {publicKey : PublicKey} {pss : RsaPssParams}
  {message signature : List UInt8}

lemma verifyEd25519_of_sign (halgorithm : publicKey.algorithm = .ed25519)
    (husage : publicKey.allows .verify = true)
    (hpair : ed25519PublicKeyOfSeed privateKey.material = .ok publicKey.material)
    (hsign : signEd25519 ⟨.ed25519, some privateKey, pss⟩ message = .ok signature) :
    verifyEd25519 ⟨.ed25519, some publicKey, signature, pss⟩ message = .ok .valid := by
  rw [signEd25519] at hsign
  obtain ⟨-, hsign⟩ := require_bind_eq_ok.mp hsign
  have hseed : privateKey.material.length = 32 := by
    rw [Ed25519.signEd25519Seed] at hsign
    exact beq_iff_eq.mp (require_bind_eq_ok.mp hsign).1
  have heq := Ed25519.signEd25519Seed_eq hseed message
  dsimp only at heq
  rw [hsign] at heq
  cases heq
  rw [ed25519PublicKeyOfSeed_eq] at hpair
  have hmaterial := (Except.ok.inj hpair).symm
  have hguard : (publicKey.algorithm == .ed25519 && publicKey.allows .verify) = true := by
    rw [halgorithm, husage]
    rfl
  set a := Ed25519.secretScalar privateKey.material
  set r := Ed25519.nonce privateKey.material message
  set S := (r + Ed25519.challenge (r • Ed25519Curve.B) (a • Ed25519Curve.B) message * a %
    Ed25519Curve.order) % Ed25519Curve.order
  have hvalid : Ed25519.Verifies (a • Ed25519Curve.B)
      (Ed25519Curve.encoding (r • Ed25519Curve.B) ++ leBytes 32 S) message :=
    ⟨r • Ed25519Curve.B, S, Nat.mod_lt _ Ed25519Curve.prime_order.pos, rfl,
      signature_equation r _ a⟩
  obtain ⟨valid, hverify, hiff⟩ := Ed25519.verifyEd25519_eq (a • Ed25519Curve.B)
    (Ed25519Curve.encoding (r • Ed25519Curve.B) ++ leBytes 32 S) message
  rw [hiff.mpr hvalid] at hverify
  rw [verifyEd25519]
  simp only [hguard, require_true, ok_bind, hmaterial, hverify]
  rfl

lemma verifyEcdsa_of_sign (halgorithm : publicKey.algorithm = .ecdsaP256)
    (husage : publicKey.allows .verify = true) {key : EcPrivateKeyMaterial}
    (hkey : parseP256PrivateKeyDer privateKey.material = .ok key)
    (hpair : parseP256PublicKeyDer publicKey.material =
      .ok (EcDer.publicKeyOf (beValue key.privateScalar)))
    (hsign : signEcdsa ⟨.ecdsaP256Sha256, some privateKey, pss⟩ message = .ok signature) :
    verifyEcdsa ⟨.ecdsaP256Sha256, some publicKey, signature, pss⟩ message = .ok .valid := by
  classical
  have hscalar := EcDer.validPrivateScalar_of_parse hkey
  obtain ⟨-, hmaterial⟩ := EcDer.parseP256PublicKey_eq_ok_iff.mp hpair
  have hguard : (publicKey.algorithm == .ecdsaP256 && publicKey.allows .verify) = true := by
    rw [halgorithm, husage]
    rfl
  rw [signEcdsa] at hsign
  obtain ⟨-, hsign⟩ := require_bind_eq_ok.mp hsign
  rw [hash_eq, ok_bind] at hsign
  obtain ⟨hdigest, r, s, rfl, haccepts, -⟩ := Ecdsa.exists_accepts_of_sign hkey hsign
  have hverify := Ecdsa.verify_signatureDer hscalar hdigest haccepts.r_lt haccepts.s_lt
  rw [decide_eq_true haccepts, ← hmaterial] at hverify
  rw [verifyEcdsa]
  simp only [hguard, require_true, ok_bind, hash_eq, hverify]
  rfl

lemma verifyRsaPss_of_sign {algorithm : SignatureAlgorithm}
    (halgorithm : publicKey.algorithm = .rsa)
    (husage : publicKey.allows .verify = true) {key : RsaPrivateKeyMaterial}
    (hparse : parseRsaPrivateKeyDer privateKey.material = .ok key) (hkey : Rsa.PrimeKey key)
    (hpair : parseRsaPublicKeyDer publicKey.material = .ok ⟨key.modulus, key.publicExponent⟩)
    (hsign : signRsaPss rng ⟨algorithm, some privateKey, pss⟩ message = .ok signature) :
    verifyRsaPss ⟨algorithm, some publicKey, signature, pss⟩ message = .ok .valid := by
  obtain ⟨salt, hsalt, hroom, rfl⟩ := signRsaPss_ok rfl hparse hkey hsign
  exact (verifyRsaPss_pssSignature halgorithm husage hpair hkey ⟨hsalt, hroom⟩).1

/-- What a private key signs verifies under its public key. -/
lemma verify_of_sign {algorithm : SignatureAlgorithm}
    (hpair : SigningPair algorithm privateKey publicKey) (husage : publicKey.allows .verify = true)
    (hsign : sign rng ⟨algorithm, some privateKey, pss⟩ message = .ok signature) :
    verify ⟨algorithm, some publicKey, signature, pss⟩ message = .ok .valid := by
  rw [sign_eq] at hsign
  rw [verify_eq]
  obtain ⟨halgorithm, hpair⟩ := hpair
  cases algorithm with
  | rsaPss =>
      obtain ⟨key, hparse, hprime1, hprime2, hlength1, hlength2, hpublic⟩ := hpair
      exact verifyRsaPss_of_sign halgorithm husage hparse
        (.of_parse hparse hprime1 hprime2 hlength1 hlength2) hpublic hsign
  | rsaPssSha256 =>
      obtain ⟨key, hparse, hprime1, hprime2, hlength1, hlength2, hpublic⟩ := hpair
      exact verifyRsaPss_of_sign halgorithm husage hparse
        (.of_parse hparse hprime1 hprime2 hlength1 hlength2) hpublic hsign
  | ecdsaP256Sha256 =>
      obtain ⟨key, hparse, hpublic⟩ := hpair
      exact verifyEcdsa_of_sign halgorithm husage hparse hpublic hsign
  | ecdsaP384Sha384 => cases hpair
  | ed25519 => exact verifyEd25519_of_sign halgorithm husage hpair hsign

end Pair

end NativeProvider

/-- A signature made with a stored private key, and a public key of it that the store handed out at
the same time or later: at any time after that, the store hands out the same keys, and the signature
verifies. -/
theorem stored_signatures_verify (before between later : List KeyStoreCall)
    (signer verifier : KeyId) (privateKey : PrivateKey) (publicKey : PublicKey)
    (algorithm : SignatureAlgorithm)
    (hprivate : (storeAfter before).requirePrivate signer .sign = .ok privateKey)
    (hpublic : (storeAfter (before ++ between)).requirePublic verifier .verify = .ok publicKey)
    (hpair : SigningPair algorithm privateKey publicKey) (rng : Rng) (pss : RsaPssParams)
    (message signature : List UInt8)
    (hsign : sign rng ⟨algorithm, some privateKey, pss⟩ message = .ok signature) :
    (storeAfter (before ++ between ++ later)).requirePrivate signer .sign = .ok privateKey ∧
      ∃ key, (storeAfter (before ++ between ++ later)).requirePublic verifier .verify = .ok key ∧
        verify ⟨algorithm, some key, signature, pss⟩ message = .ok .valid := by
  refine ⟨?_, publicKey, requirePublic_stays hpublic later, ?_⟩
  · rw [List.append_assoc]
    exact requirePrivate_stays hprivate (between ++ later)
  · exact verify_of_sign hpair (requireKey_eq_ok.mp hpublic).2 hsign

/-- The key of the seed of zeros. -/
def zeroSeedKey : PrivateKey where
  algorithm := .ed25519
  usages := keyUsageValue .sign
  material := List.replicate 32 0

/-- The public key of it. -/
noncomputable def zeroSeedPublicKey : PublicKey where
  algorithm := .ed25519
  usages := keyUsageValue .verify
  material := Ed25519Curve.encoding (Ed25519.secretScalar (List.replicate 32 0) • Ed25519Curve.B)

lemma zeroSeedKey_length : zeroSeedKey.material.length = 32 := List.length_replicate

lemma zeroSeedKey_signs (rng : Rng) : ∃ signature,
    sign rng ⟨.ed25519, some zeroSeedKey, {}⟩ [] = .ok signature := by
  have hguard : (zeroSeedKey.algorithm == .ed25519 && zeroSeedKey.allows .sign) = true := rfl
  have hsign := Ed25519.signEd25519Seed_eq zeroSeedKey_length []
  dsimp only at hsign
  rw [sign_eq]
  simp only [signEd25519, hguard, require_true, ok_bind, hsign]
  exact ⟨_, rfl⟩

/-- The empty message, with the public key stored after the signature and a refused insertion after
that. -/
theorem stored_signatures_verify_zeroSeed : ∃ signature,
    (storeAfter ([.insert [0x73] (.privateKey zeroSeedKey)] ++
        [.insert [0x76] (.publicKey zeroSeedPublicKey)] ++
        [.insert [0x76] (.privateKey zeroSeedKey)])).requirePrivate [0x73] .sign =
      .ok zeroSeedKey ∧
    ∃ key, (storeAfter ([.insert [0x73] (.privateKey zeroSeedKey)] ++
        [.insert [0x76] (.publicKey zeroSeedPublicKey)] ++
        [.insert [0x76] (.privateKey zeroSeedKey)])).requirePublic [0x76] .verify = .ok key ∧
      verify ⟨.ed25519, some key, signature, {}⟩ [] = .ok .valid := by
  obtain ⟨signature, hsign⟩ := zeroSeedKey_signs ⟨fun _ size => .ok (Vector.replicate size 1)⟩
  exact ⟨signature, stored_signatures_verify [.insert [0x73] (.privateKey zeroSeedKey)]
    [.insert [0x76] (.publicKey zeroSeedPublicKey)] [.insert [0x76] (.privateKey zeroSeedKey)]
    [0x73] [0x76] zeroSeedKey zeroSeedPublicKey .ed25519 rfl rfl
    ⟨rfl, ed25519PublicKeyOfSeed_eq _⟩ _ {} [] signature hsign⟩

/-! ## Sealed messages -/

/-- The algorithm of the secret keys that a mode takes, by the size of the key. -/
def AeadAlgorithm.keyAlgorithm : AeadAlgorithm → KeyAlgorithm
  | .aes128Gcm => .aes128
  | .aes192Gcm => .aes192
  | .aes256Gcm => .aes256

/-- A secret key has the size of its algorithm. -/
lemma SecretKey.length_bytes (key : SecretKey) :
    (keyAlgorithmSecretSize key.algorithm ≠ 0 →
      key.bytes.length = keyAlgorithmSecretSize key.algorithm) ∧
    (keyAlgorithmSecretSize key.algorithm = 0 → key.bytes ≠ []) := by
  have hvalid := key.valid
  rw [validateSecretKeyMaterial] at hvalid
  obtain ⟨-, hvalid⟩ := require_bind_eq_ok.mp hvalid
  obtain ⟨hsize, hvalid⟩ := require_bind_eq_ok.mp hvalid
  rw [require_eq_ok] at hvalid
  constructor
  · intro hne
    simpa [hne] using hsize
  · intro hzero
    simpa [hzero] using hvalid

lemma SecretKey.length_eq_expectedKeySize {key : SecretKey} {algorithm : AeadAlgorithm}
    (h : key.algorithm = algorithm.keyAlgorithm) :
    key.bytes.length = AesGcm.expectedKeySize algorithm := by
  have hlength := key.length_bytes.1
  rw [h] at hlength
  cases algorithm <;> exact hlength (by decide)

/-- Under a stored secret key of the algorithm, with a nonce that is not empty and a tag size from
twelve to sixteen, encryption seals every message. At any later time the store hands the key out for
decryption when its usages allow that, and what was sealed opens. -/
theorem stored_secretKeys_seal (before later : List KeyStoreCall) (id : KeyId) (key : SecretKey)
    (algorithm : AeadAlgorithm)
    (hkey : (storeAfter before).requireSecret id .encrypt = .ok key)
    (halgorithm : key.algorithm = algorithm.keyAlgorithm) (nonce aad : List UInt8)
    (hnonce : nonce ≠ []) (tagSize : ℕ) (hle : 12 ≤ tagSize) (hge : tagSize ≤ 16)
    (plaintext : List UInt8) :
    ∃ sealed, aesGcmEncrypt ⟨algorithm, key.bytes, nonce, aad, tagSize⟩ plaintext = .ok sealed ∧
      if key.allows .decrypt then
        ∃ key', (storeAfter (before ++ later)).requireSecret id .decrypt = .ok key' ∧
          aesGcmDecrypt ⟨algorithm, key'.bytes, nonce, aad, sealed.tag⟩ sealed.ciphertext =
            .ok plaintext
      else (storeAfter (before ++ later)).requireSecret id .decrypt =
        .error (keyStoreError .invalidKey "secret key usage is not allowed") := by
  have hvalid : AesGcm.ValidParams algorithm key.bytes nonce tagSize :=
    ⟨SecretKey.length_eq_expectedKeySize halgorithm, hnonce, hle, hge⟩
  obtain ⟨cipher, hcipher⟩ := hvalid.cipher
  have hseal := AesGcm.aesGcmEncrypt_eq hcipher hvalid aad plaintext
  refine ⟨_, hseal, ?_⟩
  have hfound := (requireKey_eq_ok.mp (requireSecret_stays hkey later
    (requireKey_eq_ok.mp hkey).2)).1
  split
  next hdecrypt =>
    refine ⟨key, requireKey_eq_ok.mpr ⟨hfound, hdecrypt⟩, ?_⟩
    have htag := AesGcm.length_tagBytes cipher nonce aad
      (AesGcm.gctrBytes cipher (AesGcm.inc32 (AesGcm.firstCounter cipher nonce)) plaintext) hge
    dsimp only [Blocks.sealWith]
    rw [AesGcm.aesGcmDecrypt_eq_ok_iff (htag.symm ▸ hvalid), htag]
    exact hseal
  next hdecrypt =>
    rw [KeyStore.requireSecret, hfound, requireKey, eq_false_of_ne_true hdecrypt]
    rfl

lemma zeroKey_valid : validateSecretKeyMaterial .aes128 (List.replicate 16 0) = .ok () := rfl

/-- The key of zeros for AES-128. -/
def zeroKey : SecretKey where
  algorithm := .aes128
  usages := keyUsageValue .encrypt ||| keyUsageValue .decrypt
  bytes := List.replicate 16 0
  valid := zeroKey_valid

/-- The empty message under the key of zeros, with a refused insertion after it. -/
theorem stored_secretKeys_seal_zeroKey : ∃ sealed,
    aesGcmEncrypt ⟨.aes128Gcm, zeroKey.bytes, List.replicate 12 0, [], 16⟩ [] = .ok sealed ∧
      if zeroKey.allows .decrypt then
        ∃ key', (storeAfter ([.insert [0x6B] (.secretKey zeroKey)] ++
            [.insert [0x6B] (.privateKey zeroSeedKey)])).requireSecret [0x6B] .decrypt =
              .ok key' ∧
          aesGcmDecrypt ⟨.aes128Gcm, key'.bytes, List.replicate 12 0, [], sealed.tag⟩
            sealed.ciphertext = .ok []
      else (storeAfter ([.insert [0x6B] (.secretKey zeroKey)] ++
          [.insert [0x6B] (.privateKey zeroSeedKey)])).requireSecret [0x6B] .decrypt =
        .error (keyStoreError .invalidKey "secret key usage is not allowed") :=
  stored_secretKeys_seal [.insert [0x6B] (.secretKey zeroKey)]
    [.insert [0x6B] (.privateKey zeroSeedKey)] [0x6B] zeroKey .aes128Gcm rfl rfl
    (List.replicate 12 0) [] (List.cons_ne_nil _ _) 16 (le_of_lt (by decide)) (le_refl 16) []

end CryptoCore
