import CryptoCore.Properties.NativeProvider
import CryptoCore.Properties.RsaOaep

/-!
# The ciphertexts of RSA-OAEP

Encryption with an imported key fails when the generator does and when the plaintext is too long,
and for no other reason. Decryption returns a plaintext for the ciphertexts that encryption makes of
it, and for no others: whoever has a ciphertext that decrypts has one that was encrypted.

`EncryptionFailure` lists the reasons with the error of each. They exclude each other, and the order
in which the code looks at them is in their hypotheses: a seed is drawn first, and it is drawn even
when the plaintext turns out to be too long. The hashes are the two that are supported; for a hash
that is none of the values of its type the code has an error of its own in front of these.

For decryption, the private power is a bijection on the numbers below the modulus, with the public
power as its inverse. So a ciphertext decrypts to a plaintext exactly when its private power decodes
to it, which is when the power is an encoding of it with some seed; the public power of that is the
ciphertext. The seed is found and not known beforehand, and `givenRng` is the generator under which
encryption draws it.
-/

namespace CryptoCore

open ByteStrings NativeProvider

namespace NativeProvider

/-! ## Encryption -/

/-- What the encoder says of a modulus that is too small for any message. -/
def shortError : Error :=
  RsaOaep.oaepError .invalidArgument "RSA-OAEP encoded message is too short"

/-- What the encoder says of a message that is too long for the modulus. -/
def largeError : Error :=
  RsaOaep.oaepError .invalidArgument "RSA-OAEP message is too large"

/-- Why a plaintext is not encrypted, with the error that is returned: no seed, a modulus without
room for any message, or none for this one. -/
inductive EncryptionFailure (rng : Rng) (params : RsaOaepParams) (size : ℕ)
    (plaintext : List UInt8) : Error → Prop
  | seed {e : Error} (h : rng.generate 0 (digestSize params.messageHash) = .error e) :
      EncryptionFailure rng params size plaintext e
  | short {seed : Vector UInt8 (digestSize params.messageHash)}
      (hseed : rng.generate 0 _ = .ok seed) (h : size < 2 * digestSize params.messageHash + 2) :
      EncryptionFailure rng params size plaintext shortError
  | large {seed : Vector UInt8 (digestSize params.messageHash)}
      (hseed : rng.generate 0 _ = .ok seed) (hsize : 2 * digestSize params.messageHash + 2 ≤ size)
      (h : size < 2 * digestSize params.messageHash + 2 + plaintext.length) :
      EncryptionFailure rng params size plaintext largeError

section Encrypt

variable {rng : Rng} {algorithm : AsymmetricEncryptionAlgorithm} {oaep : RsaOaepParams}
  {publicKey : PublicKey} {key : RsaPublicKeyMaterial}

/-- The three outcomes of the encoder, when the seed has the length of a digest. -/
lemma emeOaepEncode_cases {size : ℕ} {params : RsaOaepParams} {seed : List UInt8}
    (hseed : seed.length = digestSize params.messageHash) (message : List UInt8) :
    emeOaepEncode size message seed params =
      if size < 2 * digestSize params.messageHash + 2 then .error shortError
      else if size < 2 * digestSize params.messageHash + 2 + message.length then
        .error largeError
      else .ok (RsaOaep.encodeWith params size message seed) := by
  have hsize : (seed.length == digestSize params.messageHash) = true := beq_iff_eq.mpr hseed
  by_cases hshort : size < 2 * digestSize params.messageHash + 2
  · rw [emeOaepEncode, if_pos hshort]
    simp only [RsaOaep.hashes_supported, require_true, ok_bind, hsize, hshort, decide_true,
      Bool.not_true, require_false, error_bind]
    rfl
  · rw [if_neg hshort]
    by_cases hlarge : size < 2 * digestSize params.messageHash + 2 + message.length
    · have hguard : message.length > size - 2 * digestSize params.messageHash - 2 := by omega
      rw [emeOaepEncode, if_pos hlarge]
      simp only [RsaOaep.hashes_supported, require_true, ok_bind, hsize, hshort, decide_false,
        Bool.not_false, hguard, decide_true, Bool.not_true, require_false, error_bind]
      rfl
    · rw [if_neg hlarge]
      exact RsaOaep.emeOaepEncode_eq_ok_iff.mpr ⟨hseed, Nat.le_of_not_lt hlarge, rfl⟩

/-- The stages of encryption behind the guards. -/
lemma asymmetricEncrypt_stages (halgorithm : publicKey.algorithm = .rsa)
    (husage : publicKey.allows .encrypt = true)
    (hparse : parseRsaPublicKeyDer publicKey.material = .ok key) (plaintext : List UInt8) :
    asymmetricEncrypt rng ⟨algorithm, some publicKey, oaep⟩ plaintext = (do
      let seed ← rng.generate 0 (digestSize (rsaOaepParams algorithm oaep).messageHash)
      let encoded ← emeOaepEncode key.modulus.length plaintext seed.toList
        (rsaOaepParams algorithm oaep)
      rsaPublicOperation key encoded) := by
  have hsupported : isRsaOaepAlgorithm algorithm = true := by cases algorithm <;> rfl
  have hguard : (!(publicKey.algorithm != .rsa || !publicKey.allows .encrypt)) = true := by
    rw [halgorithm, husage]
    rfl
  rw [asymmetricEncrypt]
  simp only [hsupported, require_true, ok_bind, hguard, hparse, RsaOaep.hashes_supported]

/-- The ciphertext of a plaintext and a seed: the public power of their encoding, at the width of
the modulus. -/
def oaepCiphertext (params : RsaOaepParams) (key : RsaPublicKeyMaterial)
    (plaintext seed : List UInt8) : List UInt8 :=
  beBytes key.modulus.length
    (beValue (RsaOaep.encodeWith params key.modulus.length plaintext seed) ^
      beValue key.publicExponent % beValue key.modulus)

/-- The encoded message is a representative, so that there is a ciphertext of it. -/
lemma rsaPublicOperation_encodeWith (hkey : RsaDer.ValidPublicKey key) {params : RsaOaepParams}
    {plaintext seed : List UInt8} (hseed : seed.length = digestSize params.messageHash)
    (hfits : 2 * digestSize params.messageHash + 2 + plaintext.length ≤ key.modulus.length) :
    rsaPublicOperation key (RsaOaep.encodeWith params key.modulus.length plaintext seed) =
      .ok (oaepCiphertext params key plaintext seed) :=
  Rsa.publicOperation_eq hkey
    (@encodeWith_lt ⟨key.modulus, [], [], [], [], [], [], []⟩ hkey.modulus _ _ _ hseed hfits)

/-- A plaintext is encrypted when a seed is drawn and it fits, to the ciphertext of both. -/
lemma asymmetricEncrypt_eq_ok_iff (halgorithm : publicKey.algorithm = .rsa)
    (husage : publicKey.allows .encrypt = true)
    (hparse : parseRsaPublicKeyDer publicKey.material = .ok key)
    {plaintext ciphertext : List UInt8} :
    asymmetricEncrypt rng ⟨algorithm, some publicKey, oaep⟩ plaintext = .ok ciphertext ↔
      ∃ seed, rng.generate 0 (digestSize (rsaOaepParams algorithm oaep).messageHash) = .ok seed ∧
        2 * digestSize (rsaOaepParams algorithm oaep).messageHash + 2 + plaintext.length ≤
          key.modulus.length ∧
        oaepCiphertext (rsaOaepParams algorithm oaep) key plaintext seed.toList = ciphertext := by
  have hkey := RsaDer.parseRsaPublicKeyDer_valid hparse
  rw [asymmetricEncrypt_stages halgorithm husage hparse]
  constructor
  · intro h
    obtain ⟨seed, hseed, h⟩ := Loops.bind_eq_ok.mp h
    obtain ⟨encoded, hencode, h⟩ := Loops.bind_eq_ok.mp h
    obtain ⟨hlength, hfits, rfl⟩ := RsaOaep.emeOaepEncode_eq_ok_iff.mp hencode
    rw [rsaPublicOperation_encodeWith hkey hlength hfits] at h
    exact ⟨seed, hseed, hfits, Except.ok.inj h⟩
  · rintro ⟨seed, hseed, hfits, rfl⟩
    have hlength : seed.toList.length =
        digestSize (rsaOaepParams algorithm oaep).messageHash := Vector.length_toList
    rw [hseed, ok_bind, RsaOaep.emeOaepEncode_eq_ok_iff.mpr ⟨hlength, hfits, rfl⟩, ok_bind]
    exact rsaPublicOperation_encodeWith hkey hlength hfits

/-- A plaintext is encrypted, or there is a reason why not. -/
lemma asymmetricEncrypt_cases (rng : Rng) (algorithm : AsymmetricEncryptionAlgorithm)
    (oaep : RsaOaepParams) (halgorithm : publicKey.algorithm = .rsa)
    (husage : publicKey.allows .encrypt = true)
    (hparse : parseRsaPublicKeyDer publicKey.material = .ok key) (plaintext : List UInt8) :
    (∃ ciphertext,
      asymmetricEncrypt rng ⟨algorithm, some publicKey, oaep⟩ plaintext = .ok ciphertext) ∨
      ∃ e, EncryptionFailure rng (rsaOaepParams algorithm oaep) key.modulus.length plaintext e := by
  set params := rsaOaepParams algorithm oaep with hparams
  cases hseed : rng.generate 0 (digestSize params.messageHash) with
  | error e => exact .inr ⟨e, .seed hseed⟩
  | ok seed =>
      by_cases hshort : key.modulus.length < 2 * digestSize params.messageHash + 2
      · exact .inr ⟨_, .short hseed hshort⟩
      · by_cases hlarge :
            key.modulus.length < 2 * digestSize params.messageHash + 2 + plaintext.length
        · exact .inr ⟨_, .large hseed (Nat.le_of_not_lt hshort) hlarge⟩
        · exact .inl ⟨_, (asymmetricEncrypt_eq_ok_iff halgorithm husage hparse).mpr
            ⟨seed, hseed, Nat.le_of_not_lt hlarge, rfl⟩⟩

/-- Each of the reasons is one. -/
lemma asymmetricEncrypt_of_failure (halgorithm : publicKey.algorithm = .rsa)
    (husage : publicKey.allows .encrypt = true)
    (hparse : parseRsaPublicKeyDer publicKey.material = .ok key) {plaintext : List UInt8}
    {e : Error} (h : EncryptionFailure rng (rsaOaepParams algorithm oaep) key.modulus.length
      plaintext e) :
    asymmetricEncrypt rng ⟨algorithm, some publicKey, oaep⟩ plaintext = .error e := by
  rw [asymmetricEncrypt_stages halgorithm husage hparse]
  cases h with
  | seed h => rw [h, error_bind]
  | short hseed h =>
      rw [hseed, ok_bind, emeOaepEncode_cases Vector.length_toList, if_pos h, error_bind]
  | large hseed hsize h =>
      rw [hseed, ok_bind, emeOaepEncode_cases Vector.length_toList,
        if_neg (Nat.not_lt.mpr hsize), if_pos h, error_bind]

end Encrypt

/-! ## Decryption -/

section Decrypt

variable {algorithm : AsymmetricEncryptionAlgorithm} {oaep : RsaOaepParams}
  {privateKey : PrivateKey} {key : RsaPrivateKeyMaterial}

/-- The public power of the private power of a representative is the representative. -/
lemma publicPower_privateOutput (hkey : Rsa.PrimeKey key) {x : ℕ} (hx : x < beValue key.modulus) :
    beValue (Rsa.privateOutput key x) ^ beValue key.publicExponent % beValue key.modulus = x := by
  rw [Rsa.privateOutput, beValue_beBytes (hkey.private_lt x)]
  have hback := CrtExponentiation.pow_pow_mod_eq hkey.prime1_prime hkey.prime2_prime hkey.coprime
    hkey.inverse_exponents.1 hkey.inverse_exponents.2 (by rw [hkey.product]; exact hx)
  rwa [hkey.product] at hback

/-- The private power of the public power of a representative, with its leading zero bytes. -/
lemma privateOutput_publicPower (hkey : Rsa.PrimeKey key) {encoded : List UInt8}
    (hlength : encoded.length = key.modulus.length) (hlt : beValue encoded < beValue key.modulus) :
    Rsa.privateOutput key
      (beValue encoded ^ beValue key.publicExponent % beValue key.modulus) = encoded := by
  have hd := hkey.inverse_exponents
  rw [Nat.mul_comm (beValue key.publicExponent)] at hd
  have hpower := CrtExponentiation.pow_pow_mod_eq hkey.prime1_prime hkey.prime2_prime hkey.coprime
    hd.1 hd.2 (by rw [hkey.product]; exact hlt)
  rw [hkey.product] at hpower
  rw [Rsa.privateOutput, hpower]
  exact (eq_beBytes hlength rfl).symm

/-- What decryption reads behind the blinding is the encoding of the plaintext. -/
lemma asymmetricDecrypt_eq_ok_iff_encoded (hkey : Rsa.PrimeKey key)
    (halgorithm : privateKey.algorithm = .rsa) (husage : privateKey.allows .decrypt = true)
    (hparse : parseRsaPrivateKeyDer privateKey.material = .ok key) {rng : Rng}
    (hdraws : ∃ k < 8, (∀ i < k, ∃ factor, rng.generate i key.modulus.length = .ok factor) ∧
      ∃ factor, rng.generate k key.modulus.length = .ok factor ∧ UsableFactor key factor.toList)
    {ciphertext plaintext : List UInt8} :
    asymmetricDecrypt rng ⟨algorithm, some privateKey, oaep⟩ ciphertext = .ok plaintext ↔
      ciphertext.length = key.modulus.length ∧ beValue ciphertext < beValue key.modulus ∧
        emeOaepDecode (Rsa.privateOutput key (beValue ciphertext))
          (rsaOaepParams algorithm oaep) = .ok plaintext := by
  rw [asymmetricDecrypt_eq halgorithm husage hparse]
  by_cases hlength : ciphertext.length = key.modulus.length
  · rw [if_pos hlength]
    by_cases hlt : beValue ciphertext < beValue key.modulus
    · rw [rsaPrivateCrtBlindedWithRng_eq hkey hlt (by simpa using hdraws)]
      simp only [hlength, hlt, true_and]
    · -- a number that is not below the modulus has no usable draw
      refine iff_of_false ?_ fun h => hlt h.2.1
      intro h
      cases hrun : rsaPrivateCrtBlindedWithRng rng 0 key ciphertext with
      | error e =>
          rw [hrun] at h
          dsimp only at h
          split at h <;> cases h
      | ok output =>
          obtain ⟨factor, hoperation⟩ := blindingAttempts_ok hrun
          rw [hkey.toValidPrivateKey.privateCrtBlindedOperation_large
            (Nat.le_of_not_lt hlt)] at hoperation
          cases hoperation
  · rw [if_neg hlength]
    exact iff_of_false nofun fun h => hlength h.1

/-- What decodes was encoded with a seed, which is as long as a digest. -/
lemma exists_seed_of_emeOaepDecode {params : RsaOaepParams} {encoded plaintext : List UInt8}
    (hlength : encoded.length < 2 ^ 64) (h : emeOaepDecode encoded params = .ok plaintext) :
    ∃ seed : List UInt8, seed.length = digestSize params.messageHash ∧
      2 * digestSize params.messageHash + 2 + plaintext.length ≤ encoded.length ∧
      RsaOaep.encodeWith params encoded.length plaintext seed = encoded := by
  rw [RsaOaep.emeOaepDecode_eq hlength] at h
  split at h
  case isFalse => cases h
  case isTrue hlong =>
    cases hsome : RsaOaep.decodeWith params encoded with
    | none =>
        rw [hsome] at h
        cases h
    | some found =>
        rw [hsome] at h
        obtain rfl := Except.ok.inj h
        obtain ⟨seed, hseed, hfits, hencode⟩ :=
          EmeOaep.exists_of_decode (RsaPss.length_maskOf params.mgf1Hash)
            ((RsaOaep.length_labelHash params).symm ▸ hlong) hsome
        rw [RsaOaep.length_labelHash] at hseed hfits
        exact ⟨seed, hseed, hfits, hencode.symm⟩

/-- The ciphertext of a plaintext is a representative of the width of the modulus, and the plaintext
is read behind its private power. -/
lemma emeOaepDecode_oaepCiphertext (hkey : Rsa.PrimeKey key) {params : RsaOaepParams}
    {plaintext seed : List UInt8} (hseed : seed.length = digestSize params.messageHash)
    (hfits : 2 * digestSize params.messageHash + 2 + plaintext.length ≤ key.modulus.length) :
    let ciphertext := oaepCiphertext params ⟨key.modulus, key.publicExponent⟩ plaintext seed
    ciphertext.length = key.modulus.length ∧ beValue ciphertext < beValue key.modulus ∧
      emeOaepDecode (Rsa.privateOutput key (beValue ciphertext)) params = .ok plaintext := by
  have hlength := RsaOaep.length_encodeWith hseed hfits
  have hlt := encodeWith_lt hkey.modulus hseed hfits
  have hc : beValue (RsaOaep.encodeWith params key.modulus.length plaintext seed) ^
      beValue key.publicExponent % beValue key.modulus < beValue key.modulus :=
    Nat.mod_lt _ (Nat.lt_of_succ_lt hkey.modulus.one_lt)
  intro ciphertext
  have hvalue : beValue ciphertext =
      beValue (RsaOaep.encodeWith params key.modulus.length plaintext seed) ^
        beValue key.publicExponent % beValue key.modulus :=
    beValue_beBytes (hc.trans (beValue_lt key.modulus))
  rw [hvalue, privateOutput_publicPower hkey hlength hlt]
  exact ⟨length_beBytes _ _, hc, RsaOaep.emeOaepDecode_encodeWith hseed hfits
    hkey.modulus.length_lt⟩

/-- A generator that returns given bytes at every request. -/
def givenRng (bytes : List UInt8) : Rng where
  generate _ size := .ok (Vector.ofFn fun i : Fin size => bytes.getD i.val 0)

lemma toList_ofFn_getD {bytes : List UInt8} {size : ℕ} (h : bytes.length = size) :
    (Vector.ofFn fun i : Fin size => bytes.getD i.val 0).toList = bytes := by
  apply List.ext_getElem
  · rw [Vector.length_toList, h]
  · intro i hi hbytes
    simp [hbytes]

lemma givenRng_eq {bytes : List UInt8} {size : ℕ} (h : bytes.length = size) (request : ℕ) :
    ∃ drawn : Vector UInt8 size, (givenRng bytes).generate request size = .ok drawn ∧
      drawn.toList = bytes :=
  ⟨_, rfl, toList_ofFn_getD h⟩

end Decrypt

end NativeProvider

/-! ## What fails and what is decrypted -/

/-- With an imported RSA key and the usage: encryption fails exactly for the reasons above, with the
error of each. -/
theorem asymmetricEncrypt_eq_error_iff (rng : Rng) (algorithm : AsymmetricEncryptionAlgorithm)
    (oaep : RsaOaepParams) (publicKey : PublicKey) (himported : ImportedPublicKey publicKey)
    (halgorithm : publicKey.algorithm = .rsa) (husage : publicKey.allows .encrypt = true)
    (plaintext : List UInt8) :
    ∃ key, parseRsaPublicKeyDer publicKey.material = .ok key ∧ ∀ e,
      asymmetricEncrypt rng ⟨algorithm, some publicKey, oaep⟩ plaintext = .error e ↔
        EncryptionFailure rng (rsaOaepParams algorithm oaep) key.modulus.length plaintext e := by
  obtain ⟨key, hparse⟩ := himported.readable.rsa halgorithm
  refine ⟨key, hparse, fun e => ⟨fun h => ?_, fun h => ?_⟩⟩
  · obtain ⟨ciphertext, hok⟩ | ⟨e', hfailure⟩ :=
      asymmetricEncrypt_cases rng algorithm oaep halgorithm husage hparse plaintext
    · cases h.symm.trans hok
    · cases h.symm.trans (asymmetricEncrypt_of_failure halgorithm husage hparse hfailure)
      exact hfailure
  · exact asymmetricEncrypt_of_failure halgorithm husage hparse h

/-- With a usable blinding factor among the first eight draws: a ciphertext decrypts to a plaintext
exactly when encryption under the public key makes it of that plaintext, for some seed. -/
theorem asymmetricDecrypt_eq_ok_iff (algorithm : AsymmetricEncryptionAlgorithm)
    (oaep : RsaOaepParams) (privateKey : PrivateKey) (key : RsaPrivateKeyMaterial)
    (hparse : parseRsaPrivateKeyDer privateKey.material = .ok key)
    (hprime1 : (beValue key.prime1).Prime) (hprime2 : (beValue key.prime2).Prime)
    (hlength1 : key.prime1.length ≤ 256) (hlength2 : key.prime2.length ≤ 256)
    (hprivate : privateKey.algorithm = .rsa) (hdecrypt : privateKey.allows .decrypt = true)
    (publicKey : PublicKey) (hpublic : publicKey.algorithm = .rsa)
    (hencrypt : publicKey.allows .encrypt = true)
    (hparsePublic : parseRsaPublicKeyDer publicKey.material =
      .ok ⟨key.modulus, key.publicExponent⟩)
    (rng : Rng)
    (hdraws : ∃ k < 8, (∀ i < k, ∃ factor, rng.generate i key.modulus.length = .ok factor) ∧
      ∃ factor, rng.generate k key.modulus.length = .ok factor ∧ UsableFactor key factor.toList)
    (ciphertext plaintext : List UInt8) :
    asymmetricDecrypt rng ⟨algorithm, some privateKey, oaep⟩ ciphertext = .ok plaintext ↔
      ∃ seedRng, asymmetricEncrypt seedRng ⟨algorithm, some publicKey, oaep⟩ plaintext =
        .ok ciphertext := by
  have hkey := Rsa.PrimeKey.of_parse hparse hprime1 hprime2 hlength1 hlength2
  rw [asymmetricDecrypt_eq_ok_iff_encoded hkey hprivate hdecrypt hparse hdraws]
  simp only [asymmetricEncrypt_eq_ok_iff hpublic hencrypt hparsePublic]
  set params := rsaOaepParams algorithm oaep
  constructor
  · rintro ⟨hlength, hlt, hdecode⟩
    have hwidth : (Rsa.privateOutput key (beValue ciphertext)).length = key.modulus.length := by
      rw [Rsa.privateOutput, length_beBytes]
    obtain ⟨seed, hseed, hfits, hencode⟩ := exists_seed_of_emeOaepDecode
      (by rw [hwidth]; exact hkey.modulus.length_lt) hdecode
    -- The generator of the encryption is the one that hands out the recovered seed.
    obtain ⟨drawn, hdrawn, rfl⟩ := givenRng_eq hseed 0
    rw [hwidth] at hfits hencode
    refine ⟨givenRng drawn.toList, drawn, hdrawn, hfits, ?_⟩
    rw [oaepCiphertext, hencode, publicPower_privateOutput hkey hlt]
    exact (eq_beBytes hlength rfl).symm
  · rintro ⟨seedRng, seed, -, hfits, rfl⟩
    exact emeOaepDecode_oaepCiphertext hkey Vector.length_toList hfits

/-- The modulus of 532 bits has room for one byte. -/
theorem asymmetricEncrypt_eq_error_iff_encryptionKey :
    asymmetricEncrypt onesRng ⟨.rsaOaepSha256, some encryptionPublicKey, {}⟩ [1, 2] =
      .error largeError := by
  have himport : PublicKey.importRsaPkcs1Der encryptionPublicKeyDer (keyUsageValue .encrypt) =
      .ok encryptionPublicKey := by
    have hparse : parseRsaPkcs1PublicKeyDer encryptionPublicKeyDer =
        .ok ⟨encryptionKey.modulus, encryptionKey.publicExponent⟩ := by
      decide +kernel
    rw [PublicKey.importRsaPkcs1Der, hparse]
    rfl
  obtain ⟨key, hparse, hfails⟩ := asymmetricEncrypt_eq_error_iff onesRng .rsaOaepSha256 {}
    encryptionPublicKey (.rsaPkcs1 _ _ himport) rfl rfl [1, 2]
  cases encryptionPublicKeyDer_parse.symm.trans hparse
  exact (hfails largeError).mpr (.large rfl (by decide) (by decide))

/-- What the generator of ones makes of the empty plaintext. -/
theorem asymmetricDecrypt_eq_ok_iff_encryptionKey : ∃ ciphertext,
    asymmetricDecrypt onesRng ⟨.rsaOaepSha256, some decryptionKey, {}⟩ ciphertext = .ok [] := by
  obtain ⟨ciphertext, hencrypt⟩ : ∃ ciphertext,
      asymmetricEncrypt onesRng ⟨.rsaOaepSha256, some encryptionPublicKey, {}⟩ [] =
        .ok ciphertext := by
    have halgorithm : encryptionPublicKey.algorithm = .rsa := rfl
    have husage : encryptionPublicKey.allows .encrypt = true := rfl
    exact ⟨_, (asymmetricEncrypt_eq_ok_iff halgorithm husage encryptionPublicKeyDer_parse).mpr
      ⟨Vector.replicate 32 1, rfl, by decide, rfl⟩⟩
  exact ⟨ciphertext, (asymmetricDecrypt_eq_ok_iff .rsaOaepSha256 {} decryptionKey encryptionKey
    encryptionKeyDer_parse encryptionKey_prime1 encryptionKey_prime2 (by decide) (by decide) rfl
    rfl encryptionPublicKey rfl rfl encryptionPublicKeyDer_parse onesRng
    ⟨0, by decide, nofun, _, rfl, by decide +kernel, by decide +kernel⟩ ciphertext []).mpr
    ⟨onesRng, hencrypt⟩⟩

end CryptoCore
