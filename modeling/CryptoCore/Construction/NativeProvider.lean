import CryptoCore.Construction.Asymmetric
import CryptoCore.Construction.Ecdsa
import CryptoCore.Construction.Rsa
import CryptoCore.Construction.RsaOaep

/-!
# The native provider

Signing, verification, encryption and decryption by key and algorithm, after `native_provider.cpp`.
Each operation checks its key (present, of the right algorithm, allowed for the usage), parses the
key again and calls the primitive; the order of the checks and the texts of the errors are those of
the source.

The random generator is an oracle, `Rng`: its `i`-th request returns the bytes asked for, or fails.
The requests of one call are numbered, the salt of a signature first and the blinding factors after
it, and nothing is assumed about what they return. `Properties/SystemRng.lean` plugs the generator
of the operating system in.

One thing in the source ends the process instead of returning: `sign` is `noexcept` and makes a
vector of the caller's salt length. `SaltAllocates` is the condition under which the vector exists,
and results about what signing returns take it as a hypothesis.

The second half describes the two RSA-PSS branches. `verifyRsaPss_eq` says that verification never
fails and which byte strings it accepts, by way of the number that is recovered from a signature;
`signRsaPss_ok` and `signRsaPss_eq` say that a signature is the private power of an encoding of the
message. `Properties/NativeProvider.lean`, `Properties/RsaPss.lean` and `Properties/Signing.lean`
are built on these.
-/

namespace CryptoCore

open ByteStrings EmsaPss

/-! ## Parameters -/

/-- The signature algorithms of the interface. This provider leaves out the one over P-384. -/
inductive SignatureAlgorithm
  | rsaPss
  | rsaPssSha256
  | ecdsaP256Sha256
  | ecdsaP384Sha384
  | ed25519
  deriving DecidableEq, Repr

/-- What a signing call is given. A missing key is a null pointer. -/
structure SignParams where
  algorithm : SignatureAlgorithm
  privateKey : Option PrivateKey
  rsaPss : RsaPssParams := {}

/-- What a verifying call is given, the signature among it. -/
structure VerifyParams where
  algorithm : SignatureAlgorithm
  publicKey : Option PublicKey
  signature : List UInt8
  rsaPss : RsaPssParams := {}

/-- The two answers of a verification that did not fail. -/
inductive VerifyResult
  | valid
  | invalid
  deriving DecidableEq, Repr

inductive AsymmetricEncryptionAlgorithm
  | rsaOaep
  | rsaOaepSha256
  deriving DecidableEq, Repr

/-- What an encrypting call is given. The parameters of the padding are ignored by the algorithm
that fixes SHA-256. -/
structure AsymmetricEncryptParams where
  algorithm : AsymmetricEncryptionAlgorithm
  publicKey : Option PublicKey
  rsaOaep : RsaOaepParams := {}

structure AsymmetricDecryptParams where
  algorithm : AsymmetricEncryptionAlgorithm
  privateKey : Option PrivateKey
  rsaOaep : RsaOaepParams := {}

/-- The random generator: what its `i`-th request for a number of bytes returns. -/
structure Rng where
  generate : (request size : ℕ) → Result (Vector UInt8 size)

namespace NativeProvider

/-- The error of the provider's own checks, under its category. -/
def providerError (code : ErrorCode) (message : String) : Error :=
  makeError code "native_provider" message

/-- The algorithms that go through RSA-PSS: the one with parameters, and the one with fixed hashes.
-/
def isRsaPssAlgorithm : SignatureAlgorithm → Bool
  | .rsaPss | .rsaPssSha256 => true
  | .ecdsaP256Sha256 | .ecdsaP384Sha384 | .ed25519 => false

def isEcdsaAlgorithm (algorithm : SignatureAlgorithm) : Bool :=
  algorithm == .ecdsaP256Sha256

def isEd25519Algorithm (algorithm : SignatureAlgorithm) : Bool :=
  algorithm == .ed25519

/-- The PSS parameters in force: the fixed ones of the SHA-256 algorithm, or those given. -/
def rsaPssParams (algorithm : SignatureAlgorithm) (params : RsaPssParams) : RsaPssParams :=
  if algorithm = .rsaPssSha256 then .forHash .sha256 else params

def isRsaOaepAlgorithm : AsymmetricEncryptionAlgorithm → Bool
  | .rsaOaep | .rsaOaepSha256 => true

def rsaOaepSha256Params : RsaOaepParams := .forHash .sha256

/-- The OAEP parameters in force: the fixed ones, without a label, or those given. -/
def rsaOaepParams (algorithm : AsymmetricEncryptionAlgorithm) (params : RsaOaepParams) :
    RsaOaepParams :=
  if algorithm = .rsaOaepSha256 then rsaOaepSha256Params else params

/-! ## Bit lengths -/

/-- The loop over the bits of a byte. Eight rounds are enough for any byte. -/
def highBits : ℕ → UInt8 → ℕ
  | 0, _ => 0
  | rounds + 1, value => if value = 0 then 0 else highBits rounds (value >>> 1) + 1

/-- The number of significant bits of a big-endian number, whose leading zero bytes are skipped. -/
def bitLength (bytes : List UInt8) : ℕ :=
  match bytes.dropWhile (· == 0) with
  | [] => 0
  | value :: rest => rest.length * 8 + highBits 8 value

lemma highBits_eq (value : UInt8) : highBits 8 value = value.toNat.size := by
  obtain ⟨bits⟩ := value
  revert bits
  decide +kernel

/-- The bit length of the number that the bytes stand for. -/
theorem bitLength_eq (bytes : List UInt8) : bitLength bytes = (beValue bytes).size := by
  rw [← beValue_dropWhile_zero, bitLength]
  cases hdrop : bytes.dropWhile (· == 0) with
  | nil => rfl
  | cons value rest =>
      have hvalue : value ≠ 0 := by
        have h := List.head_dropWhile_not (· == 0) (l := bytes) (by rw [hdrop]; simp)
        simpa [hdrop] using h
      have hrest := beValue_lt rest
      have hpow : 256 ^ rest.length = 2 ^ (8 * rest.length) := by
        rw [show (256 : ℕ) = 2 ^ 8 from rfl, ← pow_mul]
      have hpos : 0 < value.toNat.size :=
        Nat.size_pos.mpr (Nat.pos_of_ne_zero fun h => hvalue (UInt8.toNat_inj.mp h))
      have hlow : 2 ^ (value.toNat.size - 1) ≤ value.toNat :=
        Nat.lt_size.mp (by omega)
      have hhigh : value.toNat < 2 ^ value.toNat.size := Nat.lt_size_self _
      dsimp only
      rw [hpow] at hrest
      rw [highBits_eq, beValue_cons, hpow]
      apply le_antisymm
      · -- the top bit of the first byte is a bit of the number
        have htop : rest.length * 8 + value.toNat.size - 1 <
            (value.toNat * 2 ^ (8 * rest.length) + beValue rest).size := by
          rw [Nat.lt_size]
          calc 2 ^ (rest.length * 8 + value.toNat.size - 1)
              = 2 ^ (value.toNat.size - 1) * 2 ^ (8 * rest.length) := by
                rw [← pow_add]
                congr 1
                omega
            _ ≤ value.toNat * 2 ^ (8 * rest.length) := Nat.mul_le_mul_right _ hlow
            _ ≤ _ := Nat.le_add_right _ _
        omega
      · rw [Nat.size_le]
        calc value.toNat * 2 ^ (8 * rest.length) + beValue rest
            < value.toNat * 2 ^ (8 * rest.length) + 2 ^ (8 * rest.length) := by omega
          _ = (value.toNat + 1) * 2 ^ (8 * rest.length) := by ring
          _ ≤ 2 ^ value.toNat.size * 2 ^ (8 * rest.length) := Nat.mul_le_mul_right _ hhigh
          _ = 2 ^ (rest.length * 8 + value.toNat.size) := by rw [← pow_add]; congr 1; omega

/-! ## The private operation with blinding -/

/-- The attempts of the blinded operation: another factor while the one drawn is no good. Only the
code of an unusable factor leads to another attempt; every other error is returned at once. -/
def blindingAttempts (rng : Rng) (key : RsaPrivateKeyMaterial) (input : List UInt8) :
    ℕ → ℕ → Error → Result ByteBuffer
  | 0, _, lastError => .error lastError
  | attempts + 1, request, _ => do
      let blindingFactor ← rng.generate request key.modulus.length
      match rsaPrivateCrtBlindedOperation key input blindingFactor.toList with
      | .ok output => .ok output
      | .error lastError =>
          if lastError.code ≠ .invalidArgument then .error lastError
          else blindingAttempts rng key input attempts (request + 1) lastError

/-- At most eight attempts, with the requests from `request` on. -/
def rsaPrivateCrtBlindedWithRng (rng : Rng) (request : ℕ) (key : RsaPrivateKeyMaterial)
    (input : List UInt8) : Result ByteBuffer :=
  blindingAttempts rng key input 8 request (providerError .providerError "RSA blinding failed")

/-! ## RSA-PSS -/

/-- The vector of the salt can be made. The standard library throws where it cannot, and `sign` is
`noexcept`: the source then ends the process, and there is no result of which to speak. -/
def SaltAllocates (pss : RsaPssParams) : Prop :=
  pss.saltLength.toNat < maxVectorSize

instance (pss : RsaPssParams) : Decidable (SaltAllocates pss) :=
  inferInstanceAs (Decidable (_ < _))

/-- The salt is the first request. An empty one is not asked for. What is computed here is what the
source computes where the vector of the salt can be made, see `SaltAllocates`. -/
def drawSalt (rng : Rng) (saltSize : ℕ) : Result (Vector UInt8 saltSize) :=
  if saltSize = 0 then .ok (Vector.replicate saltSize 0) else rng.generate 0 saltSize

/-- The RSA-PSS branch of `sign`: the salt, the encoding at one bit less than the modulus, and the
blinded operation with the requests behind that of the salt. -/
def signRsaPss (rng : Rng) (params : SignParams) (message : List UInt8) : Result ByteBuffer := do
  let some privateKey := params.privateKey
    | .error (providerError .invalidArgument "private key is required")
  require (privateKey.algorithm == .rsa && privateKey.allows .sign)
    (providerError .invalidKey "RSA signing key is required")
  let key ← parseRsaPrivateKeyDer privateKey.material
  let pss := rsaPssParams params.algorithm params.rsaPss
  let messageHash ← hash pss.messageHash message
  let saltSize := pss.saltLength.toNat
  let salt ← drawSalt rng saltSize
  let modulusBits := bitLength key.modulus
  require (modulusBits != 0) (providerError .invalidKey "RSA modulus must be non-zero")
  let encodedMessage ← emsaPssEncode (UInt64.ofNat (modulusBits - 1)) messageHash salt.toList pss
  rsaPrivateCrtBlindedWithRng rng (if saltSize = 0 then 0 else 1) key encodedMessage

/-- The RSA-PSS branch of `verify`. The number of bits is that of a modulus in memory, so that
`emsaPssVerify` rounds it to the size computed here, and its body is called with that size. -/
def verifyRsaPss (params : VerifyParams) (message : List UInt8) : Result VerifyResult := do
  let some publicKey := params.publicKey
    | .error (providerError .invalidArgument "public key is required")
  require (publicKey.algorithm == .rsa && publicKey.allows .verify)
    (providerError .invalidKey "RSA verification key is required")
  let key ← parseRsaPublicKeyDer publicKey.material
  if params.signature.length ≠ key.modulus.length then return .invalid
  match rsaPublicOperation key params.signature with
  -- A signature that is no representative is invalid; any other failure is passed on.
  | .error error => if error.code = .invalidArgument then .ok .invalid else .error error
  | .ok encodedMessage => do
      let pss := rsaPssParams params.algorithm params.rsaPss
      let messageHash ← hash pss.messageHash message
      let encodedBits := bitLength key.modulus - 1
      let encodedSize := (encodedBits + 7) / 8
      if encodedSize > encodedMessage.length then return .invalid
      -- The bytes in front of the encoding are dropped without being looked at.
      let encoded := encodedMessage.drop (encodedMessage.length - encodedSize)
      let valid ← emsaPssVerifySized encoded encodedSize (8 * encodedSize - encodedBits) messageHash
        pss
      return if valid then .valid else .invalid

/-! ## Signatures -/

def signatureAlgorithmError : Error :=
  providerError .unsupportedAlgorithm "signature algorithm is not supported by NativeProvider"

/-- The Ed25519 branch of `sign`. The key is the seed. -/
def signEd25519 (params : SignParams) (message : List UInt8) : Result ByteBuffer := do
  let some privateKey := params.privateKey
    | .error (providerError .invalidArgument "private key is required")
  require (privateKey.algorithm == .ed25519 && privateKey.allows .sign)
    (providerError .invalidKey "Ed25519 signing key is required")
  Ed25519.signEd25519Seed privateKey.material message

/-- The ECDSA branch of `sign`, which hashes the message and draws nothing. -/
def signEcdsa (params : SignParams) (message : List UInt8) : Result ByteBuffer := do
  let some privateKey := params.privateKey
    | .error (providerError .invalidArgument "private key is required")
  require (privateKey.algorithm == .ecdsaP256 && privateKey.allows .sign)
    (providerError .invalidKey "ECDSA P-256 signing key is required")
  let messageHash ← hash .sha256 message
  signEcdsaP256Sha256Digest privateKey.material messageHash

/-- Signing, by the branch of the algorithm; anything else is unsupported. -/
def sign (rng : Rng) (params : SignParams) (message : List UInt8) : Result ByteBuffer :=
  if isEd25519Algorithm params.algorithm then signEd25519 params message
  else if isEcdsaAlgorithm params.algorithm then signEcdsa params message
  else if !isRsaPssAlgorithm params.algorithm then .error signatureAlgorithmError
  else signRsaPss rng params message

/-- The Ed25519 branch of `verify`. Its answer may be a failure only for a key that is no point. -/
def verifyEd25519 (params : VerifyParams) (message : List UInt8) : Result VerifyResult := do
  let some publicKey := params.publicKey
    | .error (providerError .invalidArgument "public key is required")
  require (publicKey.algorithm == .ed25519 && publicKey.allows .verify)
    (providerError .invalidKey "Ed25519 verification key is required")
  let valid ← Ed25519.verifyEd25519 publicKey.material params.signature message
  return if valid then .valid else .invalid

/-- The ECDSA branch of `verify`: the guards on the key, the hash of the message, and the verdict.
-/
def verifyEcdsa (params : VerifyParams) (message : List UInt8) : Result VerifyResult := do
  let some publicKey := params.publicKey
    | .error (providerError .invalidArgument "public key is required")
  require (publicKey.algorithm == .ecdsaP256 && publicKey.allows .verify)
    (providerError .invalidKey "ECDSA P-256 verification key is required")
  let messageHash ← hash .sha256 message
  let valid ← verifyEcdsaP256Sha256Digest publicKey.material params.signature messageHash
  return if valid then .valid else .invalid

/-- Verification, by the branch of the algorithm. It never draws anything. -/
def verify (params : VerifyParams) (message : List UInt8) : Result VerifyResult :=
  if isEd25519Algorithm params.algorithm then verifyEd25519 params message
  else if isEcdsaAlgorithm params.algorithm then verifyEcdsa params message
  else if !isRsaPssAlgorithm params.algorithm then .error signatureAlgorithmError
  else verifyRsaPss params message

/-! ## RSA-OAEP -/

def encryptionAlgorithmError : Error :=
  providerError .unsupportedAlgorithm
    "asymmetric encryption algorithm is not supported by NativeProvider"

/-- The error of a ciphertext that is no good. It is that of the padding in code, not in text. -/
def ciphertextError : Error :=
  providerError .authenticationFailed "RSA-OAEP ciphertext is invalid"

/-- RSA-OAEP encryption. The seed is the only request to the generator, and it comes before the
encoder looks at the size of the plaintext. -/
def asymmetricEncrypt (rng : Rng) (params : AsymmetricEncryptParams) (plaintext : List UInt8) :
    Result ByteBuffer := do
  require (isRsaOaepAlgorithm params.algorithm) encryptionAlgorithmError
  let some publicKey := params.publicKey
    | .error (providerError .invalidArgument "public key is required")
  require (!(publicKey.algorithm != .rsa || !publicKey.allows .encrypt))
    (providerError .invalidKey "RSA encryption key is required")
  let key ← parseRsaPublicKeyDer publicKey.material
  let oaep := rsaOaepParams params.algorithm params.rsaOaep
  let seedSize := digestSize oaep.messageHash
  require (!(seedSize == 0 || digestSize oaep.mgf1Hash == 0))
    (providerError .unsupportedAlgorithm
      "RSA-OAEP hash algorithm is not supported by NativeProvider")
  -- The seed is drawn before the encoder has seen whether the plaintext fits.
  let seed ← rng.generate 0 seedSize
  let encoded ← emeOaepEncode key.modulus.length plaintext seed.toList oaep
  rsaPublicOperation key encoded

/-- RSA-OAEP decryption. An input that the private operation refuses is reported as an invalid
ciphertext; the other errors of the operation are passed on. -/
def asymmetricDecrypt (rng : Rng) (params : AsymmetricDecryptParams) (ciphertext : List UInt8) :
    Result ByteBuffer := do
  require (isRsaOaepAlgorithm params.algorithm) encryptionAlgorithmError
  let some privateKey := params.privateKey
    | .error (providerError .invalidArgument "private key is required")
  require (!(privateKey.algorithm != .rsa || !privateKey.allows .decrypt))
    (providerError .invalidKey "RSA decryption key is required")
  let key ← parseRsaPrivateKeyDer privateKey.material
  require (!(ciphertext.length != key.modulus.length)) ciphertextError
  match rsaPrivateCrtBlindedWithRng rng 0 key ciphertext with
  | .error error => if error.code = .invalidArgument then .error ciphertextError else .error error
  | .ok encoded => emeOaepDecode encoded (rsaOaepParams params.algorithm params.rsaOaep)

/-! ## What signing and verification compute -/

/-- What the blinded operation returns comes from one of its attempts, by induction on those left.
-/
lemma blindingAttempts_ok {rng : Rng} {key : RsaPrivateKeyMaterial} {input output : List UInt8} :
    ∀ {attempts request : ℕ} {lastError : Error},
      blindingAttempts rng key input attempts request lastError = .ok output →
      ∃ factor, rsaPrivateCrtBlindedOperation key input factor = .ok output := by
  intro attempts
  induction attempts with
  | zero =>
      intro request lastError h
      cases h
  | succ attempts ih =>
      intro request lastError h
      obtain ⟨factor, -, h⟩ := Loops.bind_eq_ok.mp h
      cases hop : rsaPrivateCrtBlindedOperation key input factor.toList with
      | ok result =>
          rw [hop] at h
          cases h
          exact ⟨factor.toList, hop⟩
      | error error =>
          rw [hop] at h
          dsimp only at h
          split at h
          · cases h
          · exact ih h

/-- The bits of the encoded message: one less than those of the modulus. -/
def encodedBits (modulus : List UInt8) : ℕ := (beValue modulus).size - 1

/-- The encoded message has at most as many bytes as the modulus, and one less exactly when its
bits fill whole bytes. -/
lemma encodedSize_encodedBits {modulus : List UInt8} (h : RsaDer.OddField modulus) :
    encodedSize (encodedBits modulus) ≤ modulus.length ∧ 2 ^ encodedBits modulus ≤ beValue modulus ∧
      modulus.length * 8 ≤ encodedBits modulus + 8 := by
  have hne : beValue modulus ≠ 0 := Nat.ne_of_gt (Nat.lt_of_succ_lt h.one_lt)
  have hlength : modulus.length = byteLength (beValue modulus) := by
    have hminimal := congrArg List.length h.minimal
    rwa [Der.minBeBytes_of_ne_zero hne, length_beBytes] at hminimal
  have hpos : 0 < (beValue modulus).size := Nat.size_pos.mpr (Nat.pos_of_ne_zero hne)
  refine ⟨?_, Nat.lt_size.mp (by unfold encodedBits; omega), ?_⟩
  · rw [hlength]
    unfold encodedSize encodedBits byteLength
    omega
  · rw [hlength]
    unfold encodedBits byteLength
    omega

/-- The number that a signature stands for under a public key. All statements about accepted
signatures are about it. -/
def recovered (key : RsaPublicKeyMaterial) (signature : List UInt8) : ℕ :=
  beValue signature ^ beValue key.publicExponent % beValue key.modulus

/-- The check of the last bytes of the recovered number. What stands in front of those bytes is not
looked at by the source. -/
def EncodingVerifies (key : RsaPublicKeyMaterial) (pss : RsaPssParams)
    (message signature : List UInt8) : Prop :=
  RsaPss.VerifiesWith pss (encodedBits key.modulus) (digestOf pss.messageHash message)
    (beBytes (encodedSize (encodedBits key.modulus)) (recovered key signature))

instance (key : RsaPublicKeyMaterial) (pss : RsaPssParams) (message signature : List UInt8) :
    Decidable (EncodingVerifies key pss message signature) := by
  unfold EncodingVerifies
  infer_instance

section VerifyRsaPss

variable (params : VerifyParams) {publicKey : PublicKey} {key : RsaPublicKeyMaterial}

/-- Verification with an RSA key never fails. It accepts the signatures of the length of the
modulus, below the modulus, whose recovered number ends in an encoded message. -/
theorem verifyRsaPss_eq (hpublic : params.publicKey = some publicKey)
    (halgorithm : publicKey.algorithm = .rsa) (husage : publicKey.allows .verify = true)
    (hparse : parseRsaPublicKeyDer publicKey.material = .ok key)
    (hsum : digestSize (rsaPssParams params.algorithm params.rsaPss).messageHash +
      (rsaPssParams params.algorithm params.rsaPss).saltLength.toNat + 2 < 2 ^ 64)
    (message : List UInt8) :
    verifyRsaPss params message = .ok
      (if params.signature.length = key.modulus.length ∧
          beValue params.signature < beValue key.modulus ∧
          EncodingVerifies key (rsaPssParams params.algorithm params.rsaPss) message
            params.signature
        then .valid else .invalid) := by
  have hkey := RsaDer.parseRsaPublicKeyDer_valid hparse
  obtain ⟨hsize, -, -⟩ := encodedSize_encodedBits hkey.modulus
  have hguard : (publicKey.algorithm == .rsa && publicKey.allows .verify) = true := by
    rw [halgorithm, husage]
    rfl
  rw [verifyRsaPss, hpublic]
  -- The key is of the right kind, may verify and parses, so only the signature is in question.
  simp only [hguard, require_true, ok_bind, hparse]
  by_cases hlength : params.signature.length = key.modulus.length
  · rw [if_neg (not_not.mpr hlength)]
    by_cases hlt : beValue params.signature < beValue key.modulus
    · rw [Rsa.publicOperation_eq hkey hlt]
      have hbits : bitLength key.modulus - 1 = encodedBits key.modulus := by
        rw [bitLength_eq, encodedBits]
      -- The source looks at the last bytes of what it recovered, whatever stands in front of them.
      have hdrop : (beBytes key.modulus.length (recovered key params.signature)).drop
          (key.modulus.length - encodedSize (encodedBits key.modulus)) =
          beBytes (encodedSize (encodedBits key.modulus)) (recovered key params.signature) := by
        have h := drop_beBytes (key.modulus.length - encodedSize (encodedBits key.modulus))
          (encodedSize (encodedBits key.modulus)) (recovered key params.signature)
        rwa [Nat.sub_add_cancel hsize] at h
      simp only [hash_eq, ok_bind, hbits, length_beBytes]
      change (if encodedSize (encodedBits key.modulus) > key.modulus.length then _ else _) = _
      rw [if_neg (not_lt.mpr hsize)]
      change (do
        let valid ← emsaPssVerifySized ((beBytes key.modulus.length
          (recovered key params.signature)).drop _) (encodedSize (encodedBits key.modulus))
            (unusedBits (encodedBits key.modulus)) _ _
        _) = _
      rw [show (encodedBits key.modulus + 7) / 8 = encodedSize (encodedBits key.modulus) from rfl,
        hdrop, RsaPss.emsaPssVerifySized_eq (length_digestOf _ _) (length_beBytes _ _)
          (by rw [length_beBytes]; exact hsize.trans_lt hkey.modulus.length_lt) hsum, ok_bind]
      refine congrArg Except.ok ?_
      simp only [hlength, hlt, true_and, decide_eq_true_eq]
      rfl
    · rw [Rsa.publicOperation_error hkey (Nat.le_of_not_lt hlt), if_neg fun h => hlt h.2.1]
      rfl
  · rw [if_pos hlength, if_neg fun h => hlength h.1]
    rfl

end VerifyRsaPss

section SignRsaPss

variable {rng : Rng} {params : SignParams} {message signature : List UInt8}

/-- Two primes of at most 256 bytes give a modulus of at most 4096 bits, which `size_t` holds. -/
lemma toNat_encodedBits {key : RsaPrivateKeyMaterial} (hkey : Rsa.PrimeKey key) :
    (UInt64.ofNat (encodedBits key.modulus)).toNat = encodedBits key.modulus ∧
      encodedBits key.modulus + 7 < 2 ^ 64 := by
  have hsize : ∀ {prime : List UInt8}, prime.length ≤ 256 →
      (beValue prime).size ≤ 8 * 256 := by
    intro prime hlength
    rw [Nat.size_le]
    refine (beValue_lt prime).trans_le ?_
    rw [show (256 : ℕ) = 2 ^ 8 from rfl, ← pow_mul]
    exact Nat.pow_le_pow_right Nat.zero_lt_two (Nat.mul_le_mul_left 8 hlength)
  have hproduct : (beValue key.modulus).size ≤
      (beValue key.prime1).size + (beValue key.prime2).size := by
    rw [Nat.size_le, ← hkey.product, pow_add]
    exact Nat.mul_lt_mul'' (Nat.lt_size_self _) (Nat.lt_size_self _)
  have hbits : encodedBits key.modulus ≤ 8 * 256 + 8 * 256 :=
    (Nat.sub_le _ _).trans
      (hproduct.trans (Nat.add_le_add (hsize hkey.prime1_length) (hsize hkey.prime2_length)))
  refine ⟨?_, by omega⟩
  rw [UInt64.toNat_ofNat']
  exact Nat.mod_eq_of_lt (by omega)

/-- The encoder at the number of bits of a modulus, where the rounding of `size_t` is exact. -/
lemma emsaPssEncode_encodedBits {key : RsaPrivateKeyMaterial} (hkey : Rsa.PrimeKey key)
    (messageHash salt : List UInt8) (pss : RsaPssParams) :
    emsaPssEncode (UInt64.ofNat (encodedBits key.modulus)) messageHash salt pss =
      emsaPssEncodeSized (encodedSize (encodedBits key.modulus))
        (unusedBits (encodedBits key.modulus)) messageHash salt pss := by
  obtain ⟨hbits, hfits⟩ := toNat_encodedBits hkey
  rw [RsaPss.emsaPssEncode_eq_sized (by rwa [hbits]), hbits]

/-- Signing behind its guards: a salt is drawn, and where the modulus has room for it the encoding
goes to the private operation. -/
lemma signRsaPss_eq_bind {key : RsaPrivateKeyMaterial} {privateKey : PrivateKey}
    (hprivate : params.privateKey = some privateKey) (halgorithm : privateKey.algorithm = .rsa)
    (husage : privateKey.allows .sign = true)
    (hparse : parseRsaPrivateKeyDer privateKey.material = .ok key) (hkey : Rsa.PrimeKey key)
    (message : List UInt8) :
    let pss := rsaPssParams params.algorithm params.rsaPss
    signRsaPss rng params message = (do
      let salt ← drawSalt rng pss.saltLength.toNat
      if digestSize pss.messageHash + salt.toList.length + 2 ≤
          encodedSize (encodedBits key.modulus) then
        rsaPrivateCrtBlindedWithRng rng (if pss.saltLength.toNat = 0 then 0 else 1) key
          (RsaPss.encodeWith pss (encodedBits key.modulus) (digestOf pss.messageHash message)
            salt.toList)
      else .error (RsaPss.pssError .invalidArgument
        "RSA-PSS encoded message is too short for hash and salt")) := by
  intro pss
  have hguard : (privateKey.algorithm == .rsa && privateKey.allows .sign) = true := by
    rw [halgorithm, husage]
    rfl
  have hnonzero : (bitLength key.modulus != 0) = true := by
    have hpos : 0 < (beValue key.modulus).size :=
      Nat.size_pos.mpr (Nat.lt_of_succ_lt hkey.modulus.one_lt)
    rw [bitLength_eq, bne_iff_ne]
    exact hpos.ne'
  have hbits : bitLength key.modulus - 1 = encodedBits key.modulus := by
    rw [bitLength_eq, ← encodedBits]
  rw [signRsaPss, hprivate]
  simp only [hguard, require_true, ok_bind, hparse, hash_eq, hnonzero, hbits]
  refine congrArg _ (funext fun salt => ?_)
  rw [emsaPssEncode_encodedBits hkey,
    RsaPss.emsaPssEncodeSized_eq (length_digestOf _ _) Vector.length_toList]
  split <;> rfl

/-- The encoded message is a representative. -/
lemma beValue_encodeWith_lt {key : RsaPrivateKeyMaterial} (hkey : RsaDer.ValidPrivateKey key)
    {pss : RsaPssParams} (message : List UInt8) {salt : List UInt8}
    (hroom : digestSize pss.messageHash + salt.length + 2 ≤
      encodedSize (encodedBits key.modulus)) :
    beValue (RsaPss.encodeWith pss (encodedBits key.modulus) (digestOf pss.messageHash message)
      salt) < beValue key.modulus :=
  (beValue_encode_lt (length_digestOf _) (RsaPss.length_maskOf _) _ hroom).trans_le
    (encodedSize_encodedBits hkey.modulus).2.1

/-- What signing returns is the private power of an encoding of the message, for some salt of the
wanted length. -/
theorem signRsaPss_ok {key : RsaPrivateKeyMaterial} {privateKey : PrivateKey}
    (hprivate : params.privateKey = some privateKey)
    (hparse : parseRsaPrivateKeyDer privateKey.material = .ok key) (hkey : Rsa.PrimeKey key)
    (h : signRsaPss rng params message = .ok signature) :
    let pss := rsaPssParams params.algorithm params.rsaPss
    let bits := encodedBits key.modulus
    ∃ salt, salt.length = pss.saltLength.toNat ∧
      digestSize pss.messageHash + salt.length + 2 ≤ encodedSize bits ∧
      signature = Rsa.privateOutput key
        (beValue (RsaPss.encodeWith pss bits (digestOf pss.messageHash message) salt)) := by
  intro pss bits
  have hguard : privateKey.algorithm = .rsa ∧ privateKey.allows .sign = true := by
    rw [signRsaPss, hprivate] at h
    have hrequired := (require_bind_eq_ok.mp h).1
    rwa [Bool.and_eq_true, beq_iff_eq] at hrequired
  rw [signRsaPss_eq_bind hprivate hguard.1 hguard.2 hparse hkey] at h
  obtain ⟨salt, -, h⟩ := Loops.bind_eq_ok.mp h
  have hsalt : salt.toList.length = pss.saltLength.toNat := Vector.length_toList
  by_cases hfits : digestSize pss.messageHash + salt.toList.length + 2 ≤ encodedSize bits
  · rw [if_pos hfits] at h
    obtain ⟨factor, hop⟩ := blindingAttempts_ok h
    have hlt := beValue_encodeWith_lt hkey.toValidPrivateKey message hfits
    exact ⟨salt.toList, hsalt, hfits, hkey.privateCrtBlindedOperation_ok hlt hop⟩
  · rw [if_neg hfits] at h
    cases h

/-- Signing succeeds when the salt fits and the first blinding factor is invertible. -/
theorem signRsaPss_eq (params : SignParams) {key : RsaPrivateKeyMaterial}
    {privateKey : PrivateKey} (hprivate : params.privateKey = some privateKey)
    (halgorithm : privateKey.algorithm = .rsa)
    (husage : privateKey.allows .sign = true)
    (hparse : parseRsaPrivateKeyDer privateKey.material = .ok key) (hkey : Rsa.PrimeKey key)
    (salt : Vector UInt8 (rsaPssParams params.algorithm params.rsaPss).saltLength.toNat)
    (hsalt : drawSalt rng (rsaPssParams params.algorithm params.rsaPss).saltLength.toNat =
      .ok salt)
    (hfits : digestSize (rsaPssParams params.algorithm params.rsaPss).messageHash +
      salt.toList.length + 2 ≤ encodedSize (encodedBits key.modulus))
    (factor : Vector UInt8 key.modulus.length)
    (hfactor : rng.generate
      (if (rsaPssParams params.algorithm params.rsaPss).saltLength.toNat = 0 then 0 else 1)
      key.modulus.length = .ok factor)
    (hfactor1 : ¬ beValue key.prime1 ∣ beValue factor.toList)
    (hfactor2 : ¬ beValue key.prime2 ∣ beValue factor.toList) :
    signRsaPss rng params message = .ok (Rsa.privateOutput key
      (beValue (RsaPss.encodeWith (rsaPssParams params.algorithm params.rsaPss)
        (encodedBits key.modulus)
        (digestOf (rsaPssParams params.algorithm params.rsaPss).messageHash message)
        salt.toList))) := by
  have hlt := beValue_encodeWith_lt hkey.toValidPrivateKey message hfits
  rw [signRsaPss_eq_bind hprivate halgorithm husage hparse hkey, hsalt, ok_bind, if_pos hfits,
    rsaPrivateCrtBlindedWithRng, blindingAttempts, hfactor, ok_bind,
    hkey.privateCrtBlindedOperation_eq hlt hfactor1 hfactor2]

/-- The encoding that was signed is what a signature stands for: the public power undoes the private
one. -/
theorem recovered_privateOutput {key : RsaPrivateKeyMaterial} (hkey : Rsa.PrimeKey key) {x : ℕ}
    (hx : x < beValue key.modulus) :
    recovered ⟨key.modulus, key.publicExponent⟩ (Rsa.privateOutput key x) = x := by
  have hback := CrtExponentiation.pow_pow_mod_eq hkey.prime1_prime hkey.prime2_prime hkey.coprime
    hkey.inverse_exponents.1 hkey.inverse_exponents.2 (by rw [hkey.product]; exact hx)
  rw [hkey.product] at hback
  rw [recovered, Rsa.privateOutput, beValue_beBytes (hkey.private_lt _), hback]

end SignRsaPss

end NativeProvider

end CryptoCore
