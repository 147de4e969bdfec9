import CryptoCore.Properties.Ed25519
import CryptoCore.Properties.OaepCiphertexts
import CryptoCore.Properties.RsaPss
import CryptoCore.Properties.SignatureTwins
import CryptoCore.Properties.Signing

/-!
# Where accepted signatures come from

Under the public key of a private key, verification accepts the signatures that the equation of the
algorithm gives, and no others: RSA-PSS those of some salt, which signing returns when the generator
draws that salt, ECDSA and Ed25519 those of some nonce, of which signing takes one.

Each of the three theorems is an equivalence. One direction is that what is built in this way
verifies, which needs more than the round trip of signing, since the salt or the nonce is arbitrary.
The other direction finds the salt or the nonce of a signature that verifies: the salt is read off
the recovered block, and the nonce is the number that verification multiplies the base point by
(`exists_nonce_of_accepts`), or the discrete logarithm of the commitment (`verifies_iff_nonce`).

For RSA-PSS the generator is a parameter of signing, so that a salt is drawn by some generator;
`drawingRng` draws it, and then the blinding factor one. The signatures whose power does not fit the
encoded message, and salt lengths that make a size wrap around, are the exceptions that the theorem
names.
-/

namespace CryptoCore

open ByteStrings EmsaPss NativeProvider

/-! ## RSA-PSS -/

namespace NativeProvider

/-- A generator that draws the salt, and the blinding factor one, which is always usable. -/
def drawingRng (salt : List UInt8) : Rng where
  generate request size := .ok (Vector.ofFn fun i : Fin size =>
    (if request = 0 ∧ salt ≠ [] then salt else beBytes size 1).getD i.val 0)

lemma drawSalt_drawingRng {salt : List UInt8} {saltSize : ℕ} (h : salt.length = saltSize) :
    ∃ drawn, drawSalt (drawingRng salt) saltSize = .ok drawn ∧ drawn.toList = salt := by
  by_cases hempty : salt = []
  · subst hempty
    have hzero : saltSize = 0 := h.symm
    subst hzero
    exact ⟨_, rfl, rfl⟩
  · have hpos : saltSize ≠ 0 := by
      rw [← h, Ne, List.length_eq_zero_iff]
      exact hempty
    refine ⟨Vector.ofFn fun i : Fin saltSize => salt.getD i.val 0, ?_, toList_ofFn_getD h⟩
    rw [drawSalt, if_neg hpos, drawingRng]
    dsimp only
    rw [if_pos ⟨rfl, hempty⟩]

lemma drawingRng_factor {salt : List UInt8} {saltSize : ℕ} (h : salt.length = saltSize)
    (size : ℕ) :
    ∃ factor, (drawingRng salt).generate (if saltSize = 0 then 0 else 1) size = .ok factor ∧
      factor.toList = beBytes size 1 := by
  refine ⟨Vector.ofFn fun i : Fin size => (beBytes size 1).getD i.val 0, ?_,
    toList_ofFn_getD (length_beBytes _ _)⟩
  have hsalt : ¬((if saltSize = 0 then 0 else 1) = 0 ∧ salt ≠ []) := by
    rintro ⟨hrequest, hne⟩
    have hpos : saltSize ≠ 0 := by
      rw [← h, Ne, List.length_eq_zero_iff]
      exact hne
    rw [if_neg hpos] at hrequest
    cases hrequest
  rw [drawingRng]
  dsimp only
  rw [if_neg hsalt]

/-- The signature of a message under a salt: the private power of the encoding. -/
def pssSignature (pss : RsaPssParams) (key : RsaPrivateKeyMaterial) (message salt : List UInt8) :
    List UInt8 :=
  Rsa.privateOutput key (beValue (RsaPss.encodeWith pss (encodedBits key.modulus)
    (digestOf pss.messageHash message) salt))

/-- The salts that there is room for, with the length that the parameters ask for. -/
structure SaltFits (pss : RsaPssParams) (modulus salt : List UInt8) : Prop where
  length_eq : salt.length = pss.saltLength.toNat
  room : digestSize pss.messageHash + salt.length + 2 ≤ encodedSize (encodedBits modulus)

section RsaPss

variable {algorithm : SignatureAlgorithm} {pss : RsaPssParams} {privateKey : PrivateKey}
  {publicKey : PublicKey} {key : RsaPrivateKeyMaterial} {message signature salt : List UInt8}

lemma SaltFits.sizes (h : SaltFits pss key.modulus salt) (hkey : Rsa.PrimeKey key) :
    digestSize pss.messageHash + pss.saltLength.toNat + 2 < 2 ^ 64 := by
  obtain ⟨hsize, -, -⟩ := encodedSize_encodedBits hkey.modulus
  rw [← h.length_eq]
  exact h.room.trans_lt (hsize.trans_lt hkey.modulus.length_lt)

/-- What signing returns, over all generators. -/
lemma exists_signRsaPss_iff (halgorithm : privateKey.algorithm = .rsa)
    (husage : privateKey.allows .sign = true)
    (hparse : parseRsaPrivateKeyDer privateKey.material = .ok key) (hkey : Rsa.PrimeKey key) :
    (∃ rng, signRsaPss rng ⟨algorithm, some privateKey, pss⟩ message = .ok signature) ↔
      ∃ salt, SaltFits (rsaPssParams algorithm pss) key.modulus salt ∧
        signature = pssSignature (rsaPssParams algorithm pss) key message salt := by
  constructor
  · rintro ⟨rng, h⟩
    obtain ⟨salt, hlength, hroom, hsignature⟩ := signRsaPss_ok rfl hparse hkey h
    exact ⟨salt, ⟨hlength, hroom⟩, hsignature⟩
  · rintro ⟨salt, hsalt, rfl⟩
    obtain ⟨drawn, hdrawn, hdrawnSalt⟩ := drawSalt_drawingRng hsalt.length_eq
    obtain ⟨factor, hfactor, hone⟩ := drawingRng_factor hsalt.length_eq key.modulus.length
    have hvalue : beValue factor.toList = 1 := by
      have hwidth := beValue_lt key.modulus
      have hmodulus := hkey.modulus.one_lt
      rw [hone, beValue_beBytes (hmodulus.trans hwidth)]
    have hnot : ∀ {prime : ℕ}, prime.Prime → ¬ prime ∣ beValue factor.toList := by
      intro prime hprime
      rw [hvalue, Nat.dvd_one]
      exact hprime.ne_one
    have hroom := hsalt.room
    rw [← hdrawnSalt] at hroom
    refine ⟨drawingRng salt, ?_⟩
    rw [signRsaPss_eq ⟨algorithm, some privateKey, pss⟩ rfl halgorithm husage hparse hkey drawn
      hdrawn hroom factor hfactor (hnot hkey.prime1_prime) (hnot hkey.prime2_prime), hdrawnSalt]
    rfl

section Verify

variable (halgorithm : publicKey.algorithm = .rsa) (husage : publicKey.allows .verify = true)
  (hpair : parseRsaPublicKeyDer publicKey.material = .ok ⟨key.modulus, key.publicExponent⟩)
include halgorithm husage hpair

lemma verifyRsaPss_eq_valid_iff
    (hsum : digestSize (rsaPssParams algorithm pss).messageHash +
      (rsaPssParams algorithm pss).saltLength.toNat + 2 < 2 ^ 64) :
    verifyRsaPss ⟨algorithm, some publicKey, signature, pss⟩ message = .ok .valid ↔
      signature.length = key.modulus.length ∧ beValue signature < beValue key.modulus ∧
        EncodingVerifies ⟨key.modulus, key.publicExponent⟩ (rsaPssParams algorithm pss) message
          signature := by
  rw [verifyRsaPss_eq _ rfl halgorithm husage hpair hsum, Except.ok.injEq]
  constructor
  · intro h
    by_contra hnot
    rw [if_neg hnot] at h
    cases h
  · intro h
    rw [if_pos h]

variable (hkey : Rsa.PrimeKey key)
include hkey

/-- The signature of every salt verifies, and fits the encoded message. -/
lemma verifyRsaPss_pssSignature (hsalt : SaltFits (rsaPssParams algorithm pss) key.modulus salt) :
    verifyRsaPss ⟨algorithm, some publicKey,
        pssSignature (rsaPssParams algorithm pss) key message salt, pss⟩ message = .ok .valid ∧
      ¬ OverlongEncoding ⟨key.modulus, key.publicExponent⟩ (rsaPssParams algorithm pss) message
        (pssSignature (rsaPssParams algorithm pss) key message salt) := by
  set params := rsaPssParams algorithm pss with hparams
  set encoded := RsaPss.encodeWith params (encodedBits key.modulus)
    (digestOf params.messageHash message) salt with hencoded
  have hlt : beValue encoded < beValue key.modulus :=
    beValue_encodeWith_lt hkey.toValidPrivateKey message hsalt.room
  have hlength : encoded.length = encodedSize (encodedBits key.modulus) :=
    length_encode (length_digestOf _) (RsaPss.length_maskOf _) _ hsalt.room
  have hrecovered : recovered ⟨key.modulus, key.publicExponent⟩
      (pssSignature params key message salt) = beValue encoded :=
    recovered_privateOutput hkey hlt
  constructor
  · rw [verifyRsaPss_eq_valid_iff halgorithm husage hpair (hsalt.sizes hkey)]
    refine ⟨?_, ?_, ?_⟩
    · rw [pssSignature, Rsa.privateOutput, length_beBytes]
    · rw [pssSignature, Rsa.privateOutput, beValue_beBytes (hkey.private_lt _)]
      exact Nat.mod_lt _ (Nat.lt_of_succ_lt hkey.modulus.one_lt)
    · rw [EncodingVerifies, RsaPss.VerifiesWith, hrecovered]
      dsimp only
      rw [← eq_beBytes hlength rfl, ← hsalt.length_eq]
      exact verifies_encode (length_digestOf _) (RsaPss.length_maskOf _) _ hsalt.room
  · intro hover
    have hfits := beValue_lt encoded
    have hoverlong := hover.overlong
    rw [hrecovered] at hoverlong
    rw [hlength] at hfits
    exact Nat.not_le_of_lt hfits hoverlong

/-- A signature that verifies is that of a salt, if its power fits the encoded message. -/
lemma exists_salt_of_verify
    (hsum : digestSize (rsaPssParams algorithm pss).messageHash +
      (rsaPssParams algorithm pss).saltLength.toNat + 2 < 2 ^ 64)
    (hverify : verifyRsaPss ⟨algorithm, some publicKey, signature, pss⟩ message = .ok .valid)
    (hfits : ¬ OverlongEncoding ⟨key.modulus, key.publicExponent⟩ (rsaPssParams algorithm pss)
      message signature) :
    ∃ salt, SaltFits (rsaPssParams algorithm pss) key.modulus salt ∧
      signature = pssSignature (rsaPssParams algorithm pss) key message salt := by
  obtain ⟨hlength, hlt, hencoding⟩ :=
    (verifyRsaPss_eq_valid_iff halgorithm husage hpair hsum).mp hverify
  have hrecovered : recovered ⟨key.modulus, key.publicExponent⟩ signature <
      256 ^ encodedSize (encodedBits key.modulus) := by
    by_contra hover
    exact hfits ⟨hlength, hlt, Nat.le_of_not_lt hover, hencoding⟩
  obtain ⟨salt, hsalt, hencode⟩ := hencoding.eq_encode (RsaPss.length_maskOf _) _
    (length_beBytes _ _)
  refine ⟨salt, ⟨hsalt, ?_⟩, ?_⟩
  · rw [hsalt]
    exact hencoding.long_enough
  · have hvalue := congrArg beValue hencode
    dsimp only at hvalue
    rw [beValue_beBytes hrecovered] at hvalue
    rw [pssSignature, RsaPss.encodeWith, ← hvalue]
    exact (privateOutput_publicPower hkey hlength hlt).symm

end Verify

end RsaPss

end NativeProvider

/-- RSA-PSS with a key pair of prime factors of at most 256 bytes: a signature is one that signing
returns with some generator exactly when it verifies, its power fits the encoded message, and the
sizes of the parameters do not wrap. -/
theorem rsaPss_signed_iff_verifies (algorithm : SignatureAlgorithm)
    (hpss : isRsaPssAlgorithm algorithm = true) (pss : RsaPssParams) (privateKey : PrivateKey)
    (hprivate : privateKey.algorithm = .rsa) (hsigns : privateKey.allows .sign = true)
    (key : RsaPrivateKeyMaterial)
    (hparse : parseRsaPrivateKeyDer privateKey.material = .ok key)
    (hprime1 : (beValue key.prime1).Prime) (hprime2 : (beValue key.prime2).Prime)
    (hlength1 : key.prime1.length ≤ 256) (hlength2 : key.prime2.length ≤ 256)
    (publicKey : PublicKey) (hpublic : publicKey.algorithm = .rsa)
    (hverifies : publicKey.allows .verify = true)
    (hpair : parseRsaPublicKeyDer publicKey.material = .ok ⟨key.modulus, key.publicExponent⟩)
    (message signature : List UInt8) :
    (∃ rng, sign rng ⟨algorithm, some privateKey, pss⟩ message = .ok signature) ↔
      verify ⟨algorithm, some publicKey, signature, pss⟩ message = .ok .valid ∧
        ¬ OverlongEncoding ⟨key.modulus, key.publicExponent⟩ (rsaPssParams algorithm pss) message
          signature ∧
        digestSize (rsaPssParams algorithm pss).messageHash +
          (rsaPssParams algorithm pss).saltLength.toNat + 2 < 2 ^ 64 := by
  have hkey := Rsa.PrimeKey.of_parse hparse hprime1 hprime2 hlength1 hlength2
  have hsign : ∀ rng, sign rng ⟨algorithm, some privateKey, pss⟩ message =
      signRsaPss rng ⟨algorithm, some privateKey, pss⟩ message := by
    intro rng
    rw [sign_eq]
    cases algorithm <;> first | rfl | cases hpss
  have hverify : verify ⟨algorithm, some publicKey, signature, pss⟩ message =
      verifyRsaPss ⟨algorithm, some publicKey, signature, pss⟩ message := by
    rw [verify_eq]
    cases algorithm <;> first | rfl | cases hpss
  simp only [hsign, hverify]
  rw [exists_signRsaPss_iff hprivate hsigns hparse hkey]
  constructor
  · rintro ⟨salt, hsalt, rfl⟩
    obtain ⟨hvalid, hfits⟩ := verifyRsaPss_pssSignature hpublic hverifies hpair hkey hsalt
    exact ⟨hvalid, hfits, hsalt.sizes hkey⟩
  -- The salt of a verifying signature is read off its encoding, and the generator hands it out.
  · rintro ⟨hvalid, hfits, hsum⟩
    exact exists_salt_of_verify hpublic hverifies hpair hkey hsum hvalid hfits

/-- A signature that verifies under the key of 266 bits is one that signing returns. -/
theorem rsaPss_signed_iff_verifies_signingKey : ∃ signature,
    verify ⟨.rsaPss, some signingPublicKey, signature, unsaltedParams⟩ [0x61] = .ok .valid ∧
      ∃ rng, sign rng ⟨.rsaPss, some signingPrivateKey, unsaltedParams⟩ [0x61] =
        .ok signature := by
  have hpublic : signingPublicKey.algorithm = .rsa := rfl
  have hverifies : signingPublicKey.allows .verify = true := rfl
  have hkey := Rsa.PrimeKey.of_parse signingKeyDer_parse signingKey_prime1 signingKey_prime2
    (by decide) (by decide)
  have hsalt : SaltFits (rsaPssParams .rsaPss unsaltedParams) signingKey.modulus [] :=
    ⟨rfl, by decide +kernel⟩
  obtain ⟨hvalid, hfits⟩ :=
    verifyRsaPss_pssSignature hpublic hverifies signingPublicKeyDer_parse hkey hsalt
  exact ⟨_, hvalid, (rsaPss_signed_iff_verifies .rsaPss rfl unsaltedParams signingPrivateKey rfl rfl
    signingKey signingKeyDer_parse signingKey_prime1 signingKey_prime2 (by decide) (by decide)
    signingPublicKey rfl rfl signingPublicKeyDer_parse [0x61] _).mpr
      ⟨hvalid, hfits, by decide⟩⟩

/-! ## ECDSA -/

namespace Ecdsa

open EcDer P256Curve

variable {d e r s : ℕ}

/-- The numbers that a nonce gives are accepted, in either half. -/
lemma accepts_nonce {k : ℕ} (h : Serves d e k) :
    Accepts (d • G) e (nonceR k) (nonceS d e k) := by
  have hslt := nonceS_lt d e k
  have hspos := Nat.pos_of_ne_zero h.s_ne_zero
  have haccepts := accepts_of_serves h
  rcases min_choice (nonceS d e k) (n - nonceS d e k) with hmin | hmin
  · rwa [hmin] at haccepts
  · rw [hmin] at haccepts
    exact (accepts_twin_iff hspos hslt).mp haccepts

/-- What verification multiplies the base point by is a nonce that gives the numbers. -/
lemma exists_nonce_of_accepts (h : Accepts (d • G) e r s) :
    ∃ k, Serves d e k ∧ nonceR k = r ∧ nonceS d e k = s := by
  obtain ⟨⟨hrpos, -⟩, ⟨hspos, hslt⟩, hx⟩ := accepts_iff.mp h
  set k := (pointScalar d e r s : ZMod n).val with hk
  have hcast : (k : ZMod n) = pointScalar d e r s := ZMod.natCast_zmod_val _
  rw [← nsmul_G_of_cast hcast] at hx
  have hr : nonceR k = r := by
    rw [nonceR, hx]
    rfl
  -- the point is finite, so the nonce is not zero
  have hne : (k : ZMod n) ≠ 0 := by
    intro hzero
    have hinfinite : k • G = 0 := by
      rw [nsmul_G_of_cast (k := 0) (by rw [hzero, Nat.cast_zero]), zero_nsmul]
    rw [hinfinite] at hx
    cases hx
  have hs : nonceS d e k = s := by
    have hproduct : (k : ZMod n) = ((e : ZMod n) + r * d) * (s : ZMod n)⁻¹ :=
      hcast.trans cast_pointScalar
    have hsum : (e : ZMod n) + r * d ≠ 0 := by
      intro hzero
      rw [hzero, zero_mul] at hproduct
      exact hne hproduct
    rw [nonceS, hr, hproduct, mul_inv, inv_inv, mul_right_comm, inv_mul_cancel₀ hsum, one_mul,
      ZMod.val_natCast, Nat.mod_eq_of_lt hslt]
  have hpos : 0 < k := by
    apply Nat.pos_of_ne_zero
    intro hzero
    rw [hzero, Nat.cast_zero] at hne
    exact hne rfl
  refine ⟨k, ⟨hpos, ZMod.val_lt _, ?_, ?_⟩, hr, hs⟩
  · rw [hr]
    exact hrpos.ne'
  · rw [hs]
    exact hspos.ne'

end Ecdsa

open EcDer Ecdsa P256Curve in
/-- ECDSA with an accepted private key: verification under its public key accepts the signatures
that the equation gives for a nonce. -/
theorem ecdsa_verifies_iff_nonce {privateKeyDer : List UInt8} {key : EcPrivateKeyMaterial}
    (hkey : parseP256PrivateKeyDer privateKeyDer = .ok key) (digest signature : List UInt8) :
    verifyEcdsaP256Sha256Digest (spkiPublicKey (publicKeyOf (beValue key.privateScalar)))
        signature digest = .ok true ↔
      digest.length = 32 ∧ ∃ k, Serves (beValue key.privateScalar) (beValue digest) k ∧
        signature = signatureDer (nonceR k)
          (nonceS (beValue key.privateScalar) (beValue digest) k) := by
  classical
  by_cases hdigest : digest.length = 32
  · rw [verify_publicKeyOf (validPrivateScalar_of_parse hkey) hdigest, Except.ok.injEq,
      decide_eq_true_iff, and_iff_right hdigest]
    constructor
    · rintro ⟨r, s, rfl, haccepts⟩
      obtain ⟨k, hserves, rfl, rfl⟩ := exists_nonce_of_accepts haccepts
      exact ⟨k, hserves, rfl⟩
    · rintro ⟨k, hserves, rfl⟩
      exact ⟨_, _, rfl, accepts_nonce hserves⟩
  · rw [verify_of_length_ne hdigest]
    exact iff_of_false (by simp) fun h => hdigest h.1

open EcDer Ecdsa P256Curve in
/-- The signature of the nonce one under the key of the scalar one. -/
theorem ecdsa_verifies_iff_nonce_one :
    verifyEcdsaP256Sha256Digest (spkiPublicKey (publicKeyOf (beValue (beBytes 32 1))))
        (signatureDer (nonceR 1) (nonceS (beValue (beBytes 32 1))
          (beValue (List.replicate 32 0xFF)) 1)) (List.replicate 32 0xFF) = .ok true :=
  (ecdsa_verifies_iff_nonce (parseP256PrivateKeyDer_sec1 validPrivateScalar_one false) _ _).mpr
    ⟨List.length_replicate, 1, serves_one, rfl⟩

/-! ## Ed25519 -/

namespace Ed25519

open Ed25519Curve

/-- The signature of a message under a secret scalar and a nonce, by the equation of the verifier.
-/
def signatureWithNonce (a r : ℕ) (message : List UInt8) : List UInt8 :=
  encoding (r • B) ++
    leBytes 32 ((r + challenge (r • B) (a • B) message * a % order) % order)

/-- Under a multiple of the base point, the commitment of a signature is a multiple too. -/
lemma verifies_iff_nonce (a : ℕ) (signature message : List UInt8) :
    Verifies (a • B) signature message ↔
      ∃ r < order, signature = signatureWithNonce a r message := by
  constructor
  · rintro ⟨R, S, hS, rfl, hequation⟩
    set c := challenge R (a • B) message with hc
    -- the nonce is the scalar without the answer to the challenge
    set r := (S + (order - c * a % order)) % order with hr
    have hca : c * a % order < order := Nat.mod_lt _ prime_order.pos
    have hR : r • B = R := by
      have hsum : r • B + c • a • B = R + c • a • B := by
        rw [← hequation, ← mul_nsmul', ← add_nsmul, nsmul_B_eq_iff]
        calc r + c * a
            ≡ S + (order - c * a % order) + c * a % order [MOD order] :=
              (Nat.mod_modEq _ _).add (Nat.mod_modEq _ _).symm
          _ = S + order := by omega
          _ ≡ S [MOD order] := Nat.add_mod_right _ _
      exact add_right_cancel hsum
    -- the scalar is the one below the order
    have hscalar : r + c * a % order ≡ S [MOD order] := by
      calc r + c * a % order
          ≡ S + (order - c * a % order) + c * a % order [MOD order] :=
            (Nat.mod_modEq _ _).add_right _
        _ = S + order := by omega
        _ ≡ S [MOD order] := Nat.add_mod_right _ _
    rw [Nat.ModEq, Nat.mod_eq_of_lt hS] at hscalar
    refine ⟨r, Nat.mod_lt _ prime_order.pos, ?_⟩
    rw [signatureWithNonce, hR, ← hc, hscalar]
  · rintro ⟨r, -, rfl⟩
    exact ⟨r • B, _, Nat.mod_lt _ prime_order.pos, rfl, signature_equation _ _ _⟩

end Ed25519

open Ed25519Curve Ed25519 in
/-- Ed25519 with a seed: verification under its public key accepts the signatures that the equation
gives for a nonce, one for each nonce below the order, and signing takes the nonce of the
message. -/
theorem ed25519_verifies_iff_nonce (seed message : List UInt8) (hseed : seed.length = 32) :
    ∃ publicKey, ed25519PublicKeyOfSeed seed = .ok publicKey ∧
      (∀ signature, verifyEd25519 publicKey signature message = .ok true ↔
        ∃ r < order, signature = signatureWithNonce (secretScalar seed) r message) ∧
      (∀ r < order, ∀ r' < order, signatureWithNonce (secretScalar seed) r message =
        signatureWithNonce (secretScalar seed) r' message → r = r') ∧
      signEd25519Seed seed message =
        .ok (signatureWithNonce (secretScalar seed) (nonce seed message) message) := by
  refine ⟨_, ed25519PublicKeyOfSeed_eq seed, fun signature => ?_, fun r hr r' hr' h => ?_, ?_⟩
  · obtain ⟨valid, hverify, hiff⟩ :=
      verifyEd25519_eq (secretScalar seed • B) signature message
    rw [hverify, Except.ok.injEq, hiff, verifies_iff_nonce]
  · have hcommitment := (List.append_inj h
      ((length_encoding _).trans (length_encoding _).symm)).1
    have hmod := (nsmul_B_eq_iff r r').mp (encoding_injective hcommitment)
    rwa [Nat.ModEq, Nat.mod_eq_of_lt hr, Nat.mod_eq_of_lt hr'] at hmod
  · exact signEd25519Seed_eq hseed message

open Ed25519Curve Ed25519 in
/-- A message of two hash blocks under the seed of zeros, signed with the nonce seven. -/
theorem ed25519_verifies_iff_nonce_zero :
    ∃ publicKey, ed25519PublicKeyOfSeed (List.replicate 32 0) = .ok publicKey ∧
      verifyEd25519 publicKey (signatureWithNonce (secretScalar (List.replicate 32 0)) 7
        (List.replicate 200 0x61)) (List.replicate 200 0x61) = .ok true := by
  obtain ⟨publicKey, hpublic, hverifies, -, -⟩ :=
    ed25519_verifies_iff_nonce (List.replicate 32 0) (List.replicate 200 0x61) List.length_replicate
  exact ⟨publicKey, hpublic, (hverifies _).mpr ⟨7, by decide +kernel, rfl⟩⟩

end CryptoCore
