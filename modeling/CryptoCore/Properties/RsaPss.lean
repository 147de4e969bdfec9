import CryptoCore.Construction.NativeProvider
import CryptoCore.Framework.Primality

/-!
# RSA-PSS at the provider

Verification recovers a number below the modulus and checks its last bytes. The standard also asks
that the number has no bytes in front of them; the two agree except on the signatures of
`OverlongEncoding`, which need a modulus whose encoded message is one byte shorter than itself.

An encoded message has one bit less than the modulus. When that is a number of whole bytes, the
modulus has a byte more than the encoded message, and a power may have a byte in front that the code
leaves out of the comparison. `OverlongEncoding.dvd_encodedBits` says that there is no other case,
so that `verifyRsaPss_standard_of_not_dvd` covers all moduli of other sizes without an exception.
The key of 273 bits with an exponent of three has such a signature: a cube root, rounded up, of an
encoding with a byte in front.

What signing returns always verifies, under every generator: the power is that of the encoding,
whose value is below the modulus, and so nothing stands in front of it.
-/

namespace CryptoCore

open ByteStrings EmsaPss NativeProvider

/-! ## Verification and the standard -/

/-- The standard's verification: a representative of the length of the modulus and below it,
whose power fits the encoded message and is one that verifies. -/
structure RsassaPssVerifies (key : RsaPublicKeyMaterial) (pss : RsaPssParams)
    (message signature : List UInt8) : Prop where
  length_eq : signature.length = key.modulus.length
  representative_lt : beValue signature < beValue key.modulus
  fits : recovered key signature < 256 ^ encodedSize (encodedBits key.modulus)
  encoding : EncodingVerifies key pss message signature

/-- The signatures whose power does not fit the encoded message, but ends in one that verifies. The
code accepts them, and the standard does not. -/
structure OverlongEncoding (key : RsaPublicKeyMaterial) (pss : RsaPssParams)
    (message signature : List UInt8) : Prop where
  length_eq : signature.length = key.modulus.length
  representative_lt : beValue signature < beValue key.modulus
  overlong : 256 ^ encodedSize (encodedBits key.modulus) ≤ recovered key signature
  encoding : EncodingVerifies key pss message signature

/-- Only a modulus of `8 k + 1` bits has room for a byte in front of the encoded message. -/
lemma OverlongEncoding.dvd_encodedBits {key : RsaPublicKeyMaterial} {pss : RsaPssParams}
    {message signature : List UInt8} (h : OverlongEncoding key pss message signature) :
    8 ∣ encodedBits key.modulus := by
  have hlt : recovered key signature < 2 ^ (encodedBits key.modulus + 1) := by
    have hpos : 0 < beValue key.modulus := (Nat.zero_le _).trans_lt h.representative_lt
    have hsize : 0 < (beValue key.modulus).size := Nat.size_pos.mpr hpos
    rw [encodedBits, Nat.sub_add_cancel hsize]
    exact (Nat.mod_lt _ hpos).trans (Nat.lt_size_self _)
  have hpow : 2 ^ (8 * encodedSize (encodedBits key.modulus)) <
      2 ^ (encodedBits key.modulus + 1) := by
    rw [pow_mul]
    exact h.overlong.trans_lt hlt
  have hexp := (Nat.pow_lt_pow_iff_right (by decide)).mp hpow
  unfold encodedSize at hexp
  omega

/-- The standard asks for what the code checks, and that nothing stands in front of it. -/
lemma rsassaPssVerifies_iff (key : RsaPublicKeyMaterial) (pss : RsaPssParams)
    (message signature : List UInt8) :
    RsassaPssVerifies key pss message signature ↔
      (signature.length = key.modulus.length ∧ beValue signature < beValue key.modulus ∧
        EncodingVerifies key pss message signature) ∧
      ¬ OverlongEncoding key pss message signature := by
  constructor
  · intro h
    exact ⟨⟨h.length_eq, h.representative_lt, h.encoding⟩,
      fun hover => Nat.not_le_of_lt h.fits hover.overlong⟩
  · rintro ⟨⟨hlength, hlt, hencoding⟩, hnot⟩
    refine ⟨hlength, hlt, ?_, hencoding⟩
    by_contra hfits
    exact hnot ⟨hlength, hlt, Nat.le_of_not_lt hfits, hencoding⟩

section Verification

variable {params : VerifyParams} {publicKey : PublicKey} {key : RsaPublicKeyMaterial}

/-- What the code accepts: a representative of the right length whose last bytes verify. -/
lemma verifyRsaPss_valid_iff (hpublic : params.publicKey = some publicKey)
    (halgorithm : publicKey.algorithm = .rsa) (husage : publicKey.allows .verify = true)
    (hparse : parseRsaPublicKeyDer publicKey.material = .ok key)
    (hsum : digestSize (rsaPssParams params.algorithm params.rsaPss).messageHash +
      (rsaPssParams params.algorithm params.rsaPss).saltLength.toNat + 2 < 2 ^ 64)
    (message : List UInt8) : verifyRsaPss params message = .ok .valid ↔
      params.signature.length = key.modulus.length ∧
        beValue params.signature < beValue key.modulus ∧
        EncodingVerifies key (rsaPssParams params.algorithm params.rsaPss) message
          params.signature := by
  rw [verifyRsaPss_eq params hpublic halgorithm husage hparse hsum]
  constructor
  · intro h
    by_contra hnot
    rw [if_neg hnot] at h
    cases h
  · intro h
    rw [if_pos h]

/-- A modulus of any other size than `8 k + 1` bits: the code is the standard, on every signature
and every message. -/
theorem verifyRsaPss_standard_of_not_dvd (hpublic : params.publicKey = some publicKey)
    (halgorithm : publicKey.algorithm = .rsa) (husage : publicKey.allows .verify = true)
    (hparse : parseRsaPublicKeyDer publicKey.material = .ok key)
    (hsum : digestSize (rsaPssParams params.algorithm params.rsaPss).messageHash +
      (rsaPssParams params.algorithm params.rsaPss).saltLength.toNat + 2 < 2 ^ 64)
    (hbits : ¬ 8 ∣ encodedBits key.modulus) (message : List UInt8) :
    verifyRsaPss params message = .ok .valid ↔
      RsassaPssVerifies key (rsaPssParams params.algorithm params.rsaPss) message
        params.signature := by
  rw [verifyRsaPss_valid_iff hpublic halgorithm husage hparse hsum, rsassaPssVerifies_iff]
  exact (and_iff_left fun hover => hbits hover.dvd_encodedBits).symm

end Verification

/-- Verification agrees with the standard on a signature exactly when it is not one that ends in
an encoded message it does not fit. -/
theorem rsaPssVerify_iff_standard (params : VerifyParams) (message : List UInt8)
    (publicKey : PublicKey) (key : RsaPublicKeyMaterial)
    (hpublic : params.publicKey = some publicKey) (halgorithm : publicKey.algorithm = .rsa)
    (husage : publicKey.allows .verify = true)
    (hparse : parseRsaPublicKeyDer publicKey.material = .ok key)
    (hsum : digestSize (rsaPssParams params.algorithm params.rsaPss).messageHash +
      (rsaPssParams params.algorithm params.rsaPss).saltLength.toNat + 2 < 2 ^ 64) :
    (verifyRsaPss params message = .ok .valid ↔
        RsassaPssVerifies key (rsaPssParams params.algorithm params.rsaPss) message
          params.signature) ↔
      ¬ OverlongEncoding key (rsaPssParams params.algorithm params.rsaPss) message
        params.signature := by
  rw [verifyRsaPss_valid_iff hpublic halgorithm husage hparse hsum, rsassaPssVerifies_iff]
  constructor
  · intro hiff hover
    exact (hiff.mp ⟨hover.length_eq, hover.representative_lt, hover.encoding⟩).2 hover
  · intro hnot
    exact (and_iff_left hnot).symm

/-! ## A modulus of 273 bits -/

/-- A modulus of 273 bits: its encoded messages have 34 bytes, one less than itself. -/
def overlongKey : RsaPublicKeyMaterial where
  modulus :=
    [0x01, 0xE3, 0x60, 0x25, 0xB2, 0xC7, 0x62, 0x1E, 0x5A, 0x67, 0x31, 0x74, 0x92, 0x32, 0x2C,
      0x96, 0x25, 0x54, 0xD1, 0x70, 0x38, 0xEC, 0xEB, 0x52, 0xDD, 0xDE, 0x98, 0x2C, 0xFE, 0xFB,
      0xDF, 0x41, 0x37, 0x9B, 0x7D]
  publicExponent := [0x03]

def overlongKeyDer : List UInt8 :=
  [0x30, 0x28, 0x02, 0x23, 0x01, 0xE3, 0x60, 0x25, 0xB2, 0xC7, 0x62, 0x1E, 0x5A, 0x67, 0x31, 0x74,
    0x92, 0x32, 0x2C, 0x96, 0x25, 0x54, 0xD1, 0x70, 0x38, 0xEC, 0xEB, 0x52, 0xDD, 0xDE, 0x98,
    0x2C, 0xFE, 0xFB, 0xDF, 0x41, 0x37, 0x9B, 0x7D, 0x02, 0x01, 0x03]

/-- The cube root of `2 ^ 272` plus an encoding of the empty message with an empty salt. -/
def overlongSignature : List UInt8 :=
  [0x01, 0xC9, 0x97, 0x1C, 0x75, 0xC0, 0x89, 0x46, 0x65, 0x33, 0x6B, 0x04, 0xB9, 0x48, 0x54, 0x08,
    0xED, 0x81, 0x2A, 0x1E, 0x4D, 0x21, 0xB5, 0x1C, 0x93, 0x4D, 0xDB, 0xDE, 0x48, 0x2B, 0x6F,
    0x64, 0x65, 0xD2, 0x3E]

/-- The call that verifies the signature, with an empty salt and the key as an import would return
it. -/
def overlongParams : VerifyParams where
  algorithm := .rsaPss
  publicKey := some
    { algorithm := .rsa, usages := keyUsageValue .verify, material := overlongKeyDer }
  signature := overlongSignature
  rsaPss := { messageHash := .sha256, mgf1Hash := .sha256, saltLength := 0 }

lemma overlongKeyDer_parse : parseRsaPublicKeyDer overlongKeyDer = .ok overlongKey := by
  rfl

lemma overlongSignature_overlong :
    OverlongEncoding overlongKey overlongParams.rsaPss [] overlongSignature where
  length_eq := by decide
  representative_lt := by decide
  overlong := by decide +kernel
  encoding := by decide +kernel

/-- The signature is accepted, and the standard rejects it. -/
theorem rsaPssVerify_overlong :
    verifyRsaPss overlongParams [] = .ok .valid ∧
      ¬ RsassaPssVerifies overlongKey overlongParams.rsaPss [] overlongSignature := by
  constructor
  · rw [verifyRsaPss_eq overlongParams rfl rfl rfl overlongKeyDer_parse (by decide)]
    exact congrArg Except.ok (if_pos ⟨overlongSignature_overlong.length_eq,
      overlongSignature_overlong.representative_lt, overlongSignature_overlong.encoding⟩)
  · intro h
    exact Nat.not_le_of_lt h.fits overlongSignature_overlong.overlong

/-- The theorem above on this signature. -/
theorem rsaPssVerify_iff_standard_overlong :
    ¬ (verifyRsaPss overlongParams [] = .ok .valid ↔
      RsassaPssVerifies overlongKey overlongParams.rsaPss [] overlongSignature) :=
  fun h => (rsaPssVerify_iff_standard overlongParams [] _ overlongKey rfl rfl rfl
    overlongKeyDer_parse (by decide)).mp h overlongSignature_overlong

/-! ## Signing -/

/-- What signing returns has the length of the modulus and verifies under the public key. -/
theorem rsaPssSign_verifies (rng : Rng) (algorithm : SignatureAlgorithm) (pss : RsaPssParams)
    (message signature : List UInt8) (privateKey : PrivateKey) (key : RsaPrivateKeyMaterial)
    (hparse : parseRsaPrivateKeyDer privateKey.material = .ok key)
    (hprime1 : (beValue key.prime1).Prime) (hprime2 : (beValue key.prime2).Prime)
    (hlength1 : key.prime1.length ≤ 256) (hlength2 : key.prime2.length ≤ 256)
    (publicKey : PublicKey) (halgorithm : publicKey.algorithm = .rsa)
    (husage : publicKey.allows .verify = true)
    (hpublic : parseRsaPublicKeyDer publicKey.material =
      .ok ⟨key.modulus, key.publicExponent⟩)
    (hsign : signRsaPss rng ⟨algorithm, some privateKey, pss⟩ message = .ok signature) :
    signature.length = key.modulus.length ∧
      verifyRsaPss ⟨algorithm, some publicKey, signature, pss⟩ message = .ok .valid := by
  have hkey := Rsa.PrimeKey.of_parse hparse hprime1 hprime2 hlength1 hlength2
  obtain ⟨salt, hsalt, hfits, hsignature⟩ := signRsaPss_ok rfl hparse hkey hsign
  obtain ⟨hsize, hpow, -⟩ := encodedSize_encodedBits hkey.modulus
  dsimp only at hsalt hfits hsignature
  -- the encoding is a representative, and verification recovers it
  have hlt := (beValue_encode_lt (length_digestOf (rsaPssParams algorithm pss).messageHash)
    (RsaPss.length_maskOf (rsaPssParams algorithm pss).mgf1Hash)
    (digestOf (rsaPssParams algorithm pss).messageHash message) hfits).trans_le hpow
  have hlength : signature.length = key.modulus.length := by
    rw [hsignature, Rsa.privateOutput, length_beBytes]
  refine ⟨hlength, ?_⟩
  have hsum : digestSize (rsaPssParams algorithm pss).messageHash +
      (rsaPssParams algorithm pss).saltLength.toNat + 2 < 2 ^ 64 := by
    rw [← hsalt]
    exact hfits.trans_lt (hsize.trans_lt hkey.modulus.length_lt)
  rw [verifyRsaPss_eq ⟨algorithm, some publicKey, signature, pss⟩ rfl halgorithm
    husage hpublic hsum]
  refine congrArg Except.ok (if_pos ⟨hlength, ?_, ?_⟩)
  · rw [hsignature, Rsa.privateOutput, beValue_beBytes (hkey.private_lt _)]
    exact Nat.mod_lt _ (Nat.lt_of_succ_lt hkey.modulus.one_lt)
  · have hrecovered : beBytes (encodedSize (encodedBits key.modulus))
        (recovered ⟨key.modulus, key.publicExponent⟩ signature) =
        RsaPss.encodeWith (rsaPssParams algorithm pss) (encodedBits key.modulus)
          (digestOf (rsaPssParams algorithm pss).messageHash message) salt := by
      rw [hsignature, recovered_privateOutput hkey hlt]
      exact (eq_beBytes (length_encode (length_digestOf _) (RsaPss.length_maskOf _) _ hfits)
        rfl).symm
    rw [EncodingVerifies, RsaPss.VerifiesWith, hrecovered, ← hsalt]
    exact verifies_encode (length_digestOf _) (RsaPss.length_maskOf _) _ hfits

/-! ## A modulus of 266 bits -/

/-- A modulus of 266 bits: the first byte of its encoded messages has seven unused bits. -/
def signingKey : RsaPrivateKeyMaterial where
  modulus :=
    [0x02, 0xB4, 0x97, 0xC0, 0x8F, 0xFF, 0x82, 0x64, 0x53, 0x9D, 0x13, 0x8B, 0xA5, 0x3A, 0x4A,
      0x4C, 0xAB, 0x37, 0x92, 0x27, 0xBE, 0x24, 0xB9, 0xB9, 0xE0, 0xED, 0xE4, 0x30, 0xCE, 0x30,
      0xB8, 0xC7, 0x00, 0x01]
  publicExponent := [0x03]
  privateExponent :=
    [0x1B, 0x1A, 0x20, 0x1B, 0xC8, 0xF9, 0xBB, 0x8D, 0x47, 0x1F, 0x43, 0xFD, 0xAF, 0x76, 0x11,
      0x56, 0xEA, 0xAA, 0xAB]
  prime1 :=
    [0x19, 0xFE, 0xF2, 0x40, 0xDD, 0x11, 0x94, 0xB4, 0xB9, 0x21, 0x44, 0xEA, 0x4F, 0x14, 0xA0,
      0x00, 0x01]
  prime2 :=
    [0x1A, 0xA4, 0x74, 0x6E, 0xDF, 0x4A, 0x33, 0xD3, 0x0D, 0xA3, 0x09, 0x3F, 0x81, 0xA4, 0x27,
      0x00, 0x01]
  exponent1 :=
    [0x11, 0x54, 0xA1, 0x80, 0x93, 0x61, 0x0D, 0xCD, 0xD0, 0xC0, 0xD8, 0x9C, 0x34, 0xB8, 0x6A,
      0xAA, 0xAB]
  exponent2 :=
    [0x11, 0xC2, 0xF8, 0x49, 0xEA, 0x31, 0x77, 0xE2, 0x09, 0x17, 0x5B, 0x7F, 0xAB, 0xC2, 0xC4,
      0xAA, 0xAB]
  coefficient :=
    [0x0E, 0x72, 0x15, 0x98, 0x42, 0x06, 0x79, 0xBF, 0xEF, 0x78, 0x4A, 0x52, 0xA5, 0x9D, 0x1D,
      0x4F, 0x6A]

def signingKeyDer : List UInt8 :=
  [0x30, 0x81, 0x9E, 0x02, 0x01, 0x00, 0x02, 0x22, 0x02, 0xB4, 0x97, 0xC0, 0x8F, 0xFF, 0x82, 0x64,
    0x53, 0x9D, 0x13, 0x8B, 0xA5, 0x3A, 0x4A, 0x4C, 0xAB, 0x37, 0x92, 0x27, 0xBE, 0x24, 0xB9,
    0xB9, 0xE0, 0xED, 0xE4, 0x30, 0xCE, 0x30, 0xB8, 0xC7, 0x00, 0x01, 0x02, 0x01, 0x03, 0x02,
    0x13, 0x1B, 0x1A, 0x20, 0x1B, 0xC8, 0xF9, 0xBB, 0x8D, 0x47, 0x1F, 0x43, 0xFD, 0xAF, 0x76,
    0x11, 0x56, 0xEA, 0xAA, 0xAB, 0x02, 0x11, 0x19, 0xFE, 0xF2, 0x40, 0xDD, 0x11, 0x94, 0xB4,
    0xB9, 0x21, 0x44, 0xEA, 0x4F, 0x14, 0xA0, 0x00, 0x01, 0x02, 0x11, 0x1A, 0xA4, 0x74, 0x6E,
    0xDF, 0x4A, 0x33, 0xD3, 0x0D, 0xA3, 0x09, 0x3F, 0x81, 0xA4, 0x27, 0x00, 0x01, 0x02, 0x11,
    0x11, 0x54, 0xA1, 0x80, 0x93, 0x61, 0x0D, 0xCD, 0xD0, 0xC0, 0xD8, 0x9C, 0x34, 0xB8, 0x6A,
    0xAA, 0xAB, 0x02, 0x11, 0x11, 0xC2, 0xF8, 0x49, 0xEA, 0x31, 0x77, 0xE2, 0x09, 0x17, 0x5B,
    0x7F, 0xAB, 0xC2, 0xC4, 0xAA, 0xAB, 0x02, 0x11, 0x0E, 0x72, 0x15, 0x98, 0x42, 0x06, 0x79,
    0xBF, 0xEF, 0x78, 0x4A, 0x52, 0xA5, 0x9D, 0x1D, 0x4F, 0x6A]

def signingPublicKeyDer : List UInt8 :=
  [0x30, 0x27, 0x02, 0x22, 0x02, 0xB4, 0x97, 0xC0, 0x8F, 0xFF, 0x82, 0x64, 0x53, 0x9D, 0x13, 0x8B,
    0xA5, 0x3A, 0x4A, 0x4C, 0xAB, 0x37, 0x92, 0x27, 0xBE, 0x24, 0xB9, 0xB9, 0xE0, 0xED, 0xE4,
    0x30, 0xCE, 0x30, 0xB8, 0xC7, 0x00, 0x01, 0x02, 0x01, 0x03]

lemma signingKeyDer_parse : parseRsaPrivateKeyDer signingKeyDer = .ok signingKey := by
  decide +kernel

lemma signingPublicKeyDer_parse :
    parseRsaPublicKeyDer signingPublicKeyDer =
      .ok ⟨signingKey.modulus, signingKey.publicExponent⟩ := by
  decide +kernel

lemma signingKey_prime1 : (beValue signingKey.prime1).Prime := by
  have hvalue : beValue signingKey.prime1 = 8845940935381675215576640000000000000001 := by
    decide +kernel
  rw [hvalue]
  exact Primality.prime_of_certifies 6 [(2, 21), (5, 16), (7, 13), (11, 11)]
    (by norm_num) (by decide +kernel)

lemma signingKey_prime2 : (beValue signingKey.prime2).Prime := by
  have hvalue : beValue signingKey.prime2 = 9065939486444617478188031036800000000001 := by
    decide +kernel
  rw [hvalue]
  exact Primality.prime_of_certifies 3 [(2, 16), (5, 11), (7, 14), (11, 15)]
    (by norm_num) (by decide +kernel)

/-- A generator that returns ones only. -/
def onesRng : Rng where
  generate _ size := .ok (Vector.replicate size 1)

/-- The private key as an import would return it, with the usage for signing. -/
def signingPrivateKey : PrivateKey where
  algorithm := .rsa
  usages := keyUsageValue .sign
  material := signingKeyDer

def signingPublicKey : PublicKey where
  algorithm := .rsa
  usages := keyUsageValue .verify
  material := signingPublicKeyDer

/-- SHA-256 and no salt, the only encoding that fits the modulus. -/
def unsaltedParams : RsaPssParams where
  messageHash := .sha256
  mgf1Hash := .sha256
  saltLength := 0

lemma signingKey_signs (message : List UInt8) :
    ∃ signature, signRsaPss onesRng ⟨.rsaPss, some signingPrivateKey, unsaltedParams⟩ message =
      .ok signature := by
  have hkey : Rsa.PrimeKey signingKey :=
    .of_parse signingKeyDer_parse signingKey_prime1 signingKey_prime2 (by decide) (by decide)
  exact ⟨_, signRsaPss_eq ⟨.rsaPss, some signingPrivateKey, unsaltedParams⟩ rfl rfl rfl
    signingKeyDer_parse hkey #v[] rfl (by decide +kernel) (Vector.replicate _ 1) rfl
    (by decide +kernel) (by decide +kernel)⟩

/-- Signing the empty message, and verifying what is returned. -/
theorem rsaPssSign_verifies_signingKey :
    ∃ signature, signRsaPss onesRng ⟨.rsaPss, some signingPrivateKey, unsaltedParams⟩ [] =
        .ok signature ∧ signature.length = 34 ∧
      verifyRsaPss ⟨.rsaPss, some signingPublicKey, signature, unsaltedParams⟩ [] =
        .ok .valid := by
  obtain ⟨signature, hsign⟩ := signingKey_signs []
  exact ⟨signature, hsign, rsaPssSign_verifies onesRng .rsaPss unsaltedParams [] signature
    signingPrivateKey signingKey signingKeyDer_parse signingKey_prime1 signingKey_prime2
    (by decide) (by decide) signingPublicKey rfl rfl signingPublicKeyDer_parse hsign⟩

end CryptoCore
