import CryptoCore.Properties.RsaBlinding
import CryptoCore.Properties.RsaPss

/-!
# RSA-OAEP

Decoding accepts exactly what the encoder returns. At the provider, what was encrypted is decrypted
again, whatever seed and whatever blinding factors are drawn, and a ciphertext that is not decrypted
fails with one error code.

The decoder of the code looks at every byte of the data block and collects its verdict in masks, so
that its time does not depend on where the padding is wrong. The construction shows that it computes
`EmeOaep.decode`, and `emeOaep_exact` reads the equivalence off the framework.

At the provider the encoded message is a number below the modulus, since its first byte is zero. The
private operation is blinded and draws its own factors; a usable one among the first eight is all
that a round trip needs of the generator, and the seed of the encryption can be anything. What
decryption returns when it fails is one error, for a ciphertext of the wrong length, a number that
is too large, exhausted draws and a wrong padding alike (`asymmetricDecrypt_coarse`). The key of the
examples has a modulus with room for one byte of plaintext.
-/

namespace CryptoCore

open ByteStrings NativeProvider

/-! ## The padding -/

/-- A message decodes exactly when the encoder returns it for some seed, and anything else fails
to authenticate. What is encoded decodes. -/
theorem emeOaep_exact (params : RsaOaepParams) (size : UInt64) :
    (∀ encodedMessage : List UInt8, encodedMessage.length = size.toNat →
      (∀ message : List UInt8, emeOaepDecode encodedMessage params = .ok message ↔
        ∃ seed : List UInt8, seed.length = digestSize params.messageHash ∧
          emeOaepEncode size.toNat message seed params = .ok encodedMessage) ∧
      ((¬ ∃ message seed : List UInt8, seed.length = digestSize params.messageHash ∧
          emeOaepEncode size.toNat message seed params = .ok encodedMessage) →
        ∃ e, emeOaepDecode encodedMessage params = .error e ∧ e.code = .authenticationFailed)) ∧
    (∀ message seed : List UInt8, seed.length = digestSize params.messageHash →
      2 * digestSize params.messageHash + 2 + message.length ≤ size.toNat →
      ∃ encodedMessage : List UInt8,
        emeOaepEncode size.toNat message seed params = .ok encodedMessage ∧
        encodedMessage.length = size.toNat ∧
        emeOaepDecode encodedMessage params = .ok message) := by
  have hdecode : ∀ encodedMessage : List UInt8, encodedMessage.length = size.toNat →
      ∀ message : List UInt8, emeOaepDecode encodedMessage params = .ok message ↔
        ∃ seed : List UInt8, seed.length = digestSize params.messageHash ∧
          emeOaepEncode size.toNat message seed params = .ok encodedMessage := by
    intro encodedMessage hlength message
    constructor
    · intro h
      rw [RsaOaep.emeOaepDecode_eq (hlength ▸ size.toNat_lt)] at h
      split at h
      case isFalse => cases h
      case isTrue hlong =>
        cases hsome : RsaOaep.decodeWith params encodedMessage with
        | none => rw [hsome] at h; cases h
        | some found =>
            rw [hsome] at h
            obtain rfl := Except.ok.inj h
            obtain ⟨seed, hseed, hfits, hencode⟩ :=
              EmeOaep.exists_of_decode (RsaPss.length_maskOf params.mgf1Hash)
                ((RsaOaep.length_labelHash params).symm ▸ hlong) hsome
            rw [RsaOaep.length_labelHash] at hseed hfits
            rw [hlength] at hfits hencode
            exact ⟨seed, hseed, RsaOaep.emeOaepEncode_eq_ok_iff.mpr
              ⟨hseed, hfits, hencode.symm⟩⟩
    · rintro ⟨seed, hseed, hencode⟩
      obtain ⟨-, hfits, rfl⟩ := RsaOaep.emeOaepEncode_eq_ok_iff.mp hencode
      exact RsaOaep.emeOaepDecode_encodeWith hseed hfits size.toNat_lt
  refine ⟨fun encodedMessage hlength => ⟨hdecode encodedMessage hlength, fun hnone => ?_⟩,
    fun message seed hseed hfits => ?_⟩
  · -- A failure is the one decoding error.
    have hcases : (∃ message, emeOaepDecode encodedMessage params = .ok message) ∨
        emeOaepDecode encodedMessage params = .error RsaOaep.decodingError := by
      rw [RsaOaep.emeOaepDecode_eq (hlength ▸ size.toNat_lt)]
      split
      · split
        · exact .inl ⟨_, rfl⟩
        · exact .inr rfl
      · exact .inr rfl
    rcases hcases with ⟨message, hmessage⟩ | herror
    · exact absurd ⟨message, (hdecode encodedMessage hlength message).mp hmessage⟩ hnone
    · exact ⟨_, herror, rfl⟩
  · have hencode := RsaOaep.emeOaepEncode_eq_ok_iff.mpr ⟨hseed, hfits, rfl⟩
    have hlength := RsaOaep.length_encodeWith hseed hfits
    exact ⟨_, hencode, hlength, (hdecode _ hlength message).mpr ⟨seed, hseed, hencode⟩⟩

/-- A message that starts like the padding and the separator in front of it. -/
theorem emeOaep_exact_separator :
    ∃ encodedMessage : List UInt8,
      emeOaepEncode 80 [0, 1, 0, 2] (List.replicate 32 9) {} = .ok encodedMessage ∧
      encodedMessage.length = 80 ∧ emeOaepDecode encodedMessage {} = .ok [0, 1, 0, 2] :=
  (emeOaep_exact {} 80).2 [0, 1, 0, 2] (List.replicate 32 9) (by decide) (by decide)

/-! ## The provider -/

namespace NativeProvider

section Provider

variable {rng : Rng} {algorithm : AsymmetricEncryptionAlgorithm} {oaep : RsaOaepParams}

/-- The encoded message starts with a zero byte, so that it is below a modulus of its width. -/
lemma encodeWith_lt {key : RsaPrivateKeyMaterial} (hmodulus : RsaDer.OddField key.modulus)
    {params : RsaOaepParams} {message seed : List UInt8}
    (hseed : seed.length = digestSize params.messageHash)
    (hfits : 2 * digestSize params.messageHash + 2 + message.length ≤ key.modulus.length) :
    beValue (RsaOaep.encodeWith params key.modulus.length message seed) <
      beValue key.modulus := by
  -- The modulus has no leading zero.
  have hlow : 256 ^ (key.modulus.length - 1) ≤ beValue key.modulus := by
    by_contra hlt
    have hshort := (length_minBeBytes_le_iff (by omega)).mpr (Nat.lt_of_not_le hlt)
    rw [← hmodulus.minimal] at hshort
    omega
  exact (RsaOaep.beValue_encodeWith_lt hseed hfits).trans_le hlow

/-- What encryption returns: the public power of the encoded message. -/
lemma asymmetricEncrypt_eq {key : RsaPrivateKeyMaterial} (hkey : RsaDer.ValidPrivateKey key)
    {publicKey : PublicKey} (halgorithm : publicKey.algorithm = .rsa)
    (husage : publicKey.allows .encrypt = true)
    (hparse : parseRsaPublicKeyDer publicKey.material =
      .ok ⟨key.modulus, key.publicExponent⟩) {plaintext : List UInt8}
    (hfits : 2 * digestSize (rsaOaepParams algorithm oaep).messageHash + 2 + plaintext.length ≤
      key.modulus.length)
    {seed : Vector UInt8 (digestSize (rsaOaepParams algorithm oaep).messageHash)}
    (hseed : rng.generate 0 (digestSize (rsaOaepParams algorithm oaep).messageHash) = .ok seed) :
    asymmetricEncrypt rng ⟨algorithm, some publicKey, oaep⟩ plaintext =
      .ok (beBytes key.modulus.length
        (beValue (RsaOaep.encodeWith (rsaOaepParams algorithm oaep) key.modulus.length plaintext
          seed.toList) ^ beValue key.publicExponent % beValue key.modulus)) := by
  have hlength : seed.toList.length = digestSize (rsaOaepParams algorithm oaep).messageHash :=
    Vector.length_toList
  have hsupported : isRsaOaepAlgorithm algorithm = true := by cases algorithm <;> rfl
  have hguard : (!(publicKey.algorithm != .rsa || !publicKey.allows .encrypt)) = true := by
    rw [halgorithm, husage]
    rfl
  have hencode := RsaOaep.emeOaepEncode_eq_ok_iff.mpr ⟨hlength, hfits, rfl⟩
  rw [asymmetricEncrypt]
  simp only [hsupported, require_true, ok_bind, hguard, hparse, RsaOaep.hashes_supported, hseed,
    hencode]
  exact Rsa.publicOperation_eq (RsaDer.parseRsaPublicKeyDer_valid hparse)
    (encodeWith_lt hkey.modulus hlength hfits)

/-- Decryption with an RSA key, behind the guards. -/
lemma asymmetricDecrypt_eq {key : RsaPrivateKeyMaterial} {privateKey : PrivateKey}
    (halgorithm : privateKey.algorithm = .rsa) (husage : privateKey.allows .decrypt = true)
    (hparse : parseRsaPrivateKeyDer privateKey.material = .ok key) (ciphertext : List UInt8) :
    asymmetricDecrypt rng ⟨algorithm, some privateKey, oaep⟩ ciphertext =
      if ciphertext.length = key.modulus.length then
        match rsaPrivateCrtBlindedWithRng rng 0 key ciphertext with
        | .error error =>
            if error.code = .invalidArgument then .error ciphertextError else .error error
        | .ok encoded => emeOaepDecode encoded (rsaOaepParams algorithm oaep)
      else .error ciphertextError := by
  have hsupported : isRsaOaepAlgorithm algorithm = true := by cases algorithm <;> rfl
  have hguard : (!(privateKey.algorithm != .rsa || !privateKey.allows .decrypt)) = true := by
    rw [halgorithm, husage]
    rfl
  rw [asymmetricDecrypt]
  simp only [hsupported, require_true, ok_bind, hguard, hparse]
  by_cases hlength : ciphertext.length = key.modulus.length
  · rw [if_pos hlength, bne_eq_false_iff_eq.mpr hlength]
    rfl
  · rw [if_neg hlength, bne_iff_ne.mpr hlength]
    rfl

end Provider

end NativeProvider

/-- A plaintext that fits is encrypted to the width of the modulus and decrypted again, for every
seed that encryption draws and every generator of decryption with a usable factor among its first
eight draws. -/
theorem asymmetricDecrypt_asymmetricEncrypt (algorithm : AsymmetricEncryptionAlgorithm)
    (oaep : RsaOaepParams) (plaintext : List UInt8) (privateKey : PrivateKey)
    (key : RsaPrivateKeyMaterial) (hparse : parseRsaPrivateKeyDer privateKey.material = .ok key)
    (hprime1 : (beValue key.prime1).Prime) (hprime2 : (beValue key.prime2).Prime)
    (hlength1 : key.prime1.length ≤ 256) (hlength2 : key.prime2.length ≤ 256)
    (hprivate : privateKey.algorithm = .rsa) (hdecrypt : privateKey.allows .decrypt = true)
    (publicKey : PublicKey) (hpublic : publicKey.algorithm = .rsa)
    (hencrypt : publicKey.allows .encrypt = true)
    (hparsePublic : parseRsaPublicKeyDer publicKey.material =
      .ok ⟨key.modulus, key.publicExponent⟩)
    (hfits : 2 * digestSize (rsaOaepParams algorithm oaep).messageHash + 2 + plaintext.length ≤
      key.modulus.length)
    (seedRng blindingRng : Rng)
    (hseed : ∃ seed,
      seedRng.generate 0 (digestSize (rsaOaepParams algorithm oaep).messageHash) = .ok seed)
    (hdraws : ∃ k < 8,
      (∀ i < k, ∃ factor, blindingRng.generate i key.modulus.length = .ok factor) ∧
        ∃ factor, blindingRng.generate k key.modulus.length = .ok factor ∧
          UsableFactor key factor.toList) :
    ∃ ciphertext,
      asymmetricEncrypt seedRng ⟨algorithm, some publicKey, oaep⟩ plaintext = .ok ciphertext ∧
      ciphertext.length = key.modulus.length ∧
      asymmetricDecrypt blindingRng ⟨algorithm, some privateKey, oaep⟩ ciphertext =
        .ok plaintext := by
  have hkey := Rsa.PrimeKey.of_parse hparse hprime1 hprime2 hlength1 hlength2
  obtain ⟨seed, hseed⟩ := hseed
  have hseedLength : seed.toList.length =
      digestSize (rsaOaepParams algorithm oaep).messageHash := Vector.length_toList
  have hlength := RsaOaep.length_encodeWith hseedLength hfits
  have hdecode := RsaOaep.emeOaepDecode_encodeWith hseedLength hfits hkey.modulus.length_lt
  have hlt := encodeWith_lt hkey.modulus hseedLength hfits
  have hencrypted :=
    asymmetricEncrypt_eq hkey.toValidPrivateKey hpublic hencrypt hparsePublic hfits hseed
  set encoded := RsaOaep.encodeWith (rsaOaepParams algorithm oaep) key.modulus.length plaintext
    seed.toList
  set c := beValue encoded ^ beValue key.publicExponent % beValue key.modulus with hc
  have hclt : c < beValue key.modulus := Nat.mod_lt _ (Nat.lt_of_succ_lt hkey.modulus.one_lt)
  have hvalue : beValue (beBytes key.modulus.length c) = c :=
    beValue_beBytes (hclt.trans (beValue_lt key.modulus))
  -- The private power of the public power is the encoded message, at its width.
  have hback : Rsa.privateOutput key c = encoded := by
    have hd := hkey.inverse_exponents
    rw [Nat.mul_comm (beValue key.publicExponent)] at hd
    have hpower := CrtExponentiation.pow_pow_mod_eq hkey.prime1_prime hkey.prime2_prime
      hkey.coprime hd.1 hd.2 (by rw [hkey.product]; exact hlt)
    rw [hkey.product] at hpower
    rw [Rsa.privateOutput, hc, hpower]
    exact (eq_beBytes hlength rfl).symm
  refine ⟨beBytes key.modulus.length c, hencrypted, length_beBytes _ _, ?_⟩
  rw [asymmetricDecrypt_eq hprivate hdecrypt hparse, if_pos (length_beBytes _ _),
    rsaPrivateCrtBlindedWithRng_eq hkey (by rw [hvalue]; exact hclt) (by simpa using hdraws),
    hvalue, hback]
  exact hdecode

/-! ## A modulus of 532 bits -/

/-- The smallest moduli for SHA-256 have 66 bytes; this one has 67. -/
def encryptionKey : RsaPrivateKeyMaterial where
  modulus :=
    [0x09, 0x75, 0xC8, 0x68, 0xF3, 0x9A, 0x4F, 0xD0, 0x23, 0x8C, 0xE4, 0x8A, 0xF9, 0xEA, 0x60,
      0x6C, 0x56, 0x15, 0xEA, 0x7D, 0x18, 0xA1, 0xEB, 0xA4, 0xB8, 0x26, 0x1B, 0x81, 0x18, 0x84,
      0xD4, 0x38, 0xFE, 0x87, 0xE2, 0x56, 0x1E, 0x1F, 0x9F, 0xE2, 0x12, 0xE0, 0x46, 0x4A, 0x20,
      0xBC, 0x3B, 0x9D, 0x82, 0xCB, 0x4D, 0xAC, 0x64, 0xE1, 0x18, 0xEC, 0xFF, 0x9B, 0xAA, 0xC7,
      0x60, 0x00, 0x00, 0x00, 0x00, 0x00, 0x01]
  publicExponent := [0x03]
  privateExponent :=
    [0x06, 0x4E, 0x85, 0x9B, 0x4D, 0x11, 0x8A, 0x8A, 0xC2, 0x5D, 0xED, 0xB1, 0xFB, 0xF1, 0x95,
      0x9D, 0x8E, 0xB9, 0x46, 0xFE, 0x10, 0x6B, 0xF2, 0x6D, 0xD0, 0x19, 0x67, 0xAB, 0x65, 0xAD,
      0xE2, 0xD0, 0xA9, 0xAB, 0x7C, 0x9F, 0x7B, 0x16, 0x76, 0x6E, 0xF8, 0x5D, 0x2D, 0x90, 0xCD,
      0xEC, 0x19, 0x1B, 0x22, 0xAB, 0xD9, 0x90, 0xB0, 0xEA, 0xAA, 0xAA, 0xAA, 0xAA, 0xAA, 0xAA,
      0xAA, 0xAA, 0xAA, 0xAA, 0xAA, 0xAA, 0xAB]
  prime1 :=
    [0x02, 0x0F, 0x04, 0xF6, 0x62, 0x5D, 0x82, 0x2E, 0x28, 0x4A, 0x25, 0xC4, 0x05, 0x3D, 0xF4,
      0x0D, 0x0F, 0xAD, 0x67, 0x94, 0x88, 0x1E, 0x57, 0x78, 0x19, 0x88, 0x49, 0x00, 0x00, 0x00,
      0x00, 0x00, 0x00, 0x01]
  prime2 :=
    [0x04, 0x98, 0x61, 0xEF, 0x1B, 0x90, 0xB9, 0x70, 0x2C, 0x37, 0xCB, 0x27, 0xD4, 0xD8, 0x00,
      0xC1, 0xB9, 0xD9, 0xEB, 0xC6, 0xF8, 0xFA, 0x95, 0x87, 0x82, 0x22, 0x7E, 0x60, 0x00, 0x00,
      0x00, 0x00, 0x00, 0x01]
  exponent1 :=
    [0x01, 0x5F, 0x58, 0xA4, 0x41, 0x93, 0xAC, 0x1E, 0xC5, 0x86, 0xC3, 0xD8, 0x03, 0x7E, 0xA2,
      0xB3, 0x5F, 0xC8, 0xEF, 0xB8, 0x5A, 0xBE, 0xE4, 0xFA, 0xBB, 0xB0, 0x30, 0xAA, 0xAA, 0xAA,
      0xAA, 0xAA, 0xAA, 0xAB]
  exponent2 :=
    [0x03, 0x10, 0x41, 0x4A, 0x12, 0x60, 0x7B, 0xA0, 0x1D, 0x7A, 0x87, 0x6F, 0xE3, 0x3A, 0xAB,
      0x2B, 0xD1, 0x3B, 0xF2, 0x84, 0xA5, 0xFC, 0x63, 0xAF, 0xAC, 0x16, 0xFE, 0xEA, 0xAA, 0xAA,
      0xAA, 0xAA, 0xAA, 0xAB]
  coefficient :=
    [0x1E, 0x8D, 0x45, 0xEF, 0x71, 0x03, 0xD6, 0x27, 0x6F, 0xE4, 0x82, 0x16, 0x90, 0x93, 0xB6,
      0x8D, 0xE4, 0xF3, 0x74, 0x34, 0x69, 0xA4, 0x9B, 0x5E, 0x3B, 0xD7, 0xB5, 0xCC, 0x0E, 0xD7,
      0x30, 0x3B, 0x5C]

/-- The private key in its standalone container. -/
def encryptionKeyDer : List UInt8 :=
  RsaDer.pkcs1PrivateKey encryptionKey

def encryptionPublicKeyDer : List UInt8 :=
  RsaDer.pkcs1PublicKey ⟨encryptionKey.modulus, encryptionKey.publicExponent⟩

lemma encryptionKey_valid : RsaDer.ValidPrivateKey encryptionKey where
  modulus := ⟨by decide +kernel, by decide, by decide +kernel, by decide +kernel⟩
  publicExponent := ⟨by decide +kernel, by decide, by decide, by decide⟩
  privateExponent := ⟨by decide +kernel, by decide, by decide +kernel⟩
  prime1 := ⟨by decide +kernel, by decide, by decide +kernel, by decide +kernel⟩
  prime2 := ⟨by decide +kernel, by decide, by decide +kernel, by decide +kernel⟩
  exponent1 := ⟨by decide +kernel, by decide, by decide +kernel⟩
  exponent2 := ⟨by decide +kernel, by decide, by decide +kernel⟩
  coefficient := ⟨by decide +kernel, by decide, by decide +kernel⟩
  product := by decide +kernel
  exponent1_eq := by decide +kernel
  exponent2_eq := by decide +kernel
  inverse1 := by decide +kernel
  inverse2 := by decide +kernel
  coefficient_eq := by decide +kernel

lemma encryptionKeyDer_parse : parseRsaPrivateKeyDer encryptionKeyDer = .ok encryptionKey :=
  RsaDer.parseRsaPrivateKeyDer_pkcs1 encryptionKey_valid (by decide +kernel)

lemma encryptionPublicKeyDer_parse :
    parseRsaPublicKeyDer encryptionPublicKeyDer =
      .ok ⟨encryptionKey.modulus, encryptionKey.publicExponent⟩ := by
  decide +kernel

lemma encryptionKey_prime1 : (beValue encryptionKey.prime1).Prime := by
  have hvalue : beValue encryptionKey.prime1 =
      61024675602730030147803015496224852569403374755297027315204096000000000000000001 := by
    decide +kernel
  rw [hvalue]
  exact Primality.prime_of_certifies 6 [(2, 56), (5, 18), (7, 30), (11, 24)]
    (by norm_num) (by decide +kernel)

lemma encryptionKey_prime2 : (beValue encryptionKey.prime2).Prime := by
  have hvalue : beValue encryptionKey.prime2 =
      136215793756093817294203159589787617342418247221645150257152000000000000000000001 := by
    decide +kernel
  rw [hvalue]
  exact Primality.prime_of_certifies 13 [(2, 53), (5, 21), (7, 29), (11, 24)]
    (by norm_num) (by decide +kernel)

/-- The private key as an import would return it, with the usage for decryption. -/
def decryptionKey : PrivateKey where
  algorithm := .rsa
  usages := keyUsageValue .decrypt
  material := encryptionKeyDer

def encryptionPublicKey : PublicKey where
  algorithm := .rsa
  usages := keyUsageValue .encrypt
  material := encryptionPublicKeyDer

/-- The longest plaintext of this modulus, a single byte, and a label. -/
theorem asymmetricDecrypt_asymmetricEncrypt_encryptionKey :
    ∃ ciphertext,
      asymmetricEncrypt onesRng ⟨.rsaOaep, some encryptionPublicKey, .withLabel .sha256 [7]⟩
        [0x2A] = .ok ciphertext ∧
      ciphertext.length = 67 ∧
      asymmetricDecrypt onesRng ⟨.rsaOaep, some decryptionKey, .withLabel .sha256 [7]⟩
        ciphertext = .ok [0x2A] :=
  asymmetricDecrypt_asymmetricEncrypt .rsaOaep (.withLabel .sha256 [7]) [0x2A] decryptionKey
    encryptionKey encryptionKeyDer_parse encryptionKey_prime1 encryptionKey_prime2 (by decide)
    (by decide) rfl rfl encryptionPublicKey rfl rfl encryptionPublicKeyDer_parse (by decide)
    onesRng onesRng ⟨_, rfl⟩
    ⟨0, by decide, nofun, _, rfl, by decide +kernel, by decide +kernel⟩

/-! ## Failures of decryption -/

/-- With a generator that does not fail, and whether or not the prime fields are prime, a
ciphertext decrypts to a plaintext or fails to authenticate. -/
theorem asymmetricDecrypt_coarse (algorithm : AsymmetricEncryptionAlgorithm)
    (oaep : RsaOaepParams) (privateKey : PrivateKey) (key : RsaPrivateKeyMaterial)
    (hparse : parseRsaPrivateKeyDer privateKey.material = .ok key)
    (hlength1 : key.prime1.length ≤ 256) (hlength2 : key.prime2.length ≤ 256)
    (hprivate : privateKey.algorithm = .rsa) (hdecrypt : privateKey.allows .decrypt = true)
    (rng : Rng) (hrng : ∀ request size, ∃ bytes, rng.generate request size = .ok bytes)
    (ciphertext : List UInt8) :
    (∃ plaintext,
      asymmetricDecrypt rng ⟨algorithm, some privateKey, oaep⟩ ciphertext = .ok plaintext) ∨
      ∃ e, asymmetricDecrypt rng ⟨algorithm, some privateKey, oaep⟩ ciphertext = .error e ∧
        e.code = .authenticationFailed := by
  have hkey := RsaDer.parseRsaPrivateKeyDer_valid hparse
  rw [asymmetricDecrypt_eq hprivate hdecrypt hparse]
  by_cases hlength : ciphertext.length = key.modulus.length
  · rw [if_pos hlength]
    obtain ⟨y, hy⟩ | ⟨e, herror, hcode⟩ := rsaPrivateCrtBlindedWithRng_cases hkey hlength1
      hlength2 (fun request => hrng request _) 0 ciphertext
    · -- Only the padding can still fail.
      rw [hy]
      have hsize : (beBytes key.modulus.length y).length < 2 ^ 64 := by
        rw [length_beBytes]
        exact hkey.modulus.length_lt
      dsimp only
      rw [RsaOaep.emeOaepDecode_eq hsize]
      split
      · split
        · exact .inl ⟨_, rfl⟩
        · exact .inr ⟨_, rfl, rfl⟩
      · exact .inr ⟨_, rfl, rfl⟩
    · rw [herror]
      exact .inr ⟨_, if_pos hcode, rfl⟩
  · rw [if_neg hlength]
    exact .inr ⟨_, rfl, rfl⟩

/-- The number of a ciphertext that is not below the modulus is refused in the same way. -/
theorem asymmetricDecrypt_coarse_encryptionKey :
    (∃ plaintext, asymmetricDecrypt onesRng ⟨.rsaOaepSha256, some decryptionKey, {}⟩
      (List.replicate 67 0xFF) = .ok plaintext) ∨
      ∃ e, asymmetricDecrypt onesRng ⟨.rsaOaepSha256, some decryptionKey, {}⟩
        (List.replicate 67 0xFF) = .error e ∧ e.code = .authenticationFailed :=
  asymmetricDecrypt_coarse .rsaOaepSha256 {} decryptionKey encryptionKey encryptionKeyDer_parse
    (by decide) (by decide) rfl rfl onesRng (fun _ _ => ⟨_, rfl⟩) _

end CryptoCore
