import CryptoCore.Construction.Ecdsa
import CryptoCore.Properties.EcDer
import CryptoCore.Properties.Hmac

/-!
# ECDSA over P-256

Signing takes the first nonce of the deterministic generator that serves, verification decides the
equation on the curve, and what is signed is verified.

The three theorems speak about keys as the parsers accept them and digests of 32 bytes, which is
what the callers of these functions pass. The generator is compared with the one of the framework,
instantiated with the order of the curve and with HMAC over the hash of the standard; the code keeps
its key and value in a state that is updated in place, and takes the candidates one after the other.

Whether a nonce serves (`Serves`) and which signature it gives (`nonceR`, `nonceS`) are defined in
the construction, over the points of the curve. `accepts_of_serves` is the algebra that joins the
two sides: the equation of the verifier is the definition of the second component, solved for the
nonce. Replacing the second component by its negative turns the point around, which leaves its first
coordinate alone.
-/

namespace CryptoCore

open ByteStrings EcDer Ecdsa P256Curve ShortWeierstrass

/-! ## Nonces -/

/-- The candidates of the deterministic generator for P-256 and HMAC over SHA-256, from the first
one on. -/
noncomputable def nonceCandidate (d : ℕ) (digest : List UInt8) : ℕ → ℕ :=
  DeterministicNonces.candidate n (standardMac .hmacSha256) 32 d digest

/-- For a valid scalar and a digest of 32 bytes, the generator returns the candidates of the
standard for the order of the curve, whose digest octets are the digest modulo that order; signing
with a key that holds the scalar takes the first of sixteen candidates that serves, and fails when
there is none. -/
theorem ecdsa_nonces (scalar digest : List UInt8) (hscalar : ValidPrivateScalar scalar)
    (hdigest : digest.length = 32) :
    DeterministicNonces.bits2octets n digest = beBytes 32 (beValue digest % n) ∧
    (∀ count : ℕ, ∃ final,
      (Rfc6979P256Sha256.create scalar digest >>= fun nonce => nonce.candidates count) =
        .ok ((List.range count).map fun i =>
          beBytes 32 (nonceCandidate (beValue scalar) digest i), final)) ∧
    (∀ privateKeyDer : List UInt8, parseP256PrivateKeyDer privateKeyDer = .ok ⟨scalar⟩ →
      (∀ i < 16, Serves (beValue scalar) (beValue digest)
          (nonceCandidate (beValue scalar) digest i) →
        (∀ j < i, ¬ Serves (beValue scalar) (beValue digest)
          (nonceCandidate (beValue scalar) digest j)) →
        signEcdsaP256Sha256Digest privateKeyDer digest =
          .ok (signatureWith (beValue scalar) (beValue digest)
            (nonceCandidate (beValue scalar) digest i))) ∧
      ((∃ e, signEcdsaP256Sha256Digest privateKeyDer digest = .error e ∧
          e.code = .providerError) ↔
        ∀ i < 16, ¬ Serves (beValue scalar) (beValue digest)
          (nonceCandidate (beValue scalar) digest i))) := by
  have hmac : hmacOf .sha256 = standardMac .hmacSha256 := hmacOf_eq .hmacSha256
  refine ⟨(Rfc6979P256Sha256.secret_eq hscalar.length hdigest).2, fun count => ?_,
    fun privateKeyDer hkey => ?_⟩
  · have hcandidates := Rfc6979P256Sha256.candidates_ofState
      (DeterministicNonces.start n (hmacOf .sha256) 32 (beValue scalar) digest) count
    rw [Rfc6979P256Sha256.create_eq hscalar.length hdigest, ok_bind, hcandidates]
    rw [hmac]
    exact ⟨_, rfl⟩
  · have hsign := sign_eq hkey hscalar hdigest
    rw [hmac] at hsign
    -- The attempts are a search for the first candidate that serves; its two outcomes are the two
    -- parts.
    constructor
    · intro i hi hserves hbefore
      have hfirst := DeterministicNonces.firstSuccess_eq_some_iff.mpr
        ⟨i, show i < maxAttempts from hi, attempt_of_serves hserves,
          fun j hj => attempt_eq_none_iff.mpr (hbefore j hj)⟩
      rw [nonceCandidate] at hfirst
      rw [hsign, hfirst, nonceCandidate]
    · simp only [nonceCandidate, ← attempt_eq_none_iff]
      rw [← DeterministicNonces.firstSuccess_eq_none_iff, hsign]
      rw [maxAttempts]
      cases DeterministicNonces.firstSuccess (attempt (beValue scalar) (beValue digest)
          (DeterministicNonces.candidate n (standardMac .hmacSha256) 32 (beValue scalar) digest))
          0 16 with
      | none => exact iff_of_true ⟨_, rfl, rfl⟩ rfl
      | some signature =>
          refine iff_of_false ?_ (Option.some_ne_none _)
          rintro ⟨e, he, -⟩
          cases he

lemma validPrivateScalar_one : ValidPrivateScalar (beBytes 32 1) where
  length := length_beBytes 32 1
  pos := by
    rw [beValue_beBytes (by norm_num)]
    exact one_pos
  lt := by
    rw [beValue_beBytes (by norm_num)]
    exact prime_n.one_lt

/-- Signing takes the first of sixteen candidates that serves, and fails if there is none: the key
of the scalar one, in the container that stands alone, and a digest above the order. There are more
candidates than signing takes. -/
theorem ecdsa_nonces_one :
    (∃ final, (Rfc6979P256Sha256.create (beBytes 32 1) (List.replicate 32 0xFF) >>= fun nonce =>
        nonce.candidates 17) =
      .ok ((List.range 17).map fun i =>
        beBytes 32 (nonceCandidate (beValue (beBytes 32 1)) (List.replicate 32 0xFF) i), final)) ∧
    ((∃ i < 16, signEcdsaP256Sha256Digest (sec1PrivateKey (beBytes 32 1) true false)
        (List.replicate 32 0xFF) = .ok (signatureWith (beValue (beBytes 32 1))
          (beValue (List.replicate 32 0xFF))
          (nonceCandidate (beValue (beBytes 32 1)) (List.replicate 32 0xFF) i))) ∨
      ∃ e, signEcdsaP256Sha256Digest (sec1PrivateKey (beBytes 32 1) true false)
        (List.replicate 32 0xFF) = .error e ∧ e.code = .providerError) := by
  classical
  obtain ⟨-, hcandidates, hsign⟩ := ecdsa_nonces (beBytes 32 1) (List.replicate 32 0xFF)
    validPrivateScalar_one List.length_replicate
  refine ⟨hcandidates 17, ?_⟩
  obtain ⟨hfirst, hnone⟩ := hsign _ (parseP256PrivateKeyDer_sec1 validPrivateScalar_one false)
  by_cases hserves : ∃ i, i < 16 ∧ Serves (beValue (beBytes 32 1))
      (beValue (List.replicate 32 0xFF))
      (nonceCandidate (beValue (beBytes 32 1)) (List.replicate 32 0xFF) i)
  · obtain ⟨hi, hi'⟩ := Nat.find_spec hserves
    refine .inl ⟨_, hi, hfirst _ hi hi' fun j hj hj' => ?_⟩
    exact Nat.find_min hserves hj ⟨hj.trans hi, hj'⟩
  · exact .inr (hnone.mpr fun i hi hi' => hserves ⟨i, hi, hi'⟩)

/-! ## Verification -/

/-- A signature that a nonce gives satisfies the equation of the verifier, whichever of the two
signs the second component has. -/
lemma accepts_of_serves {d e k : ℕ} (h : Serves d e k) :
    Accepts (d • G) e (nonceR k) (min (nonceS d e k) (n - nonceS d e k)) := by
  have hslt := nonceS_lt d e k
  have hspos := Nat.pos_of_ne_zero h.s_ne_zero
  obtain ⟨-, hr⟩ := xModN_eq_some h.pos h.lt
  refine ⟨Nat.pos_of_ne_zero h.r_ne_zero, nonceR_lt k, by omega, by omega, ?_⟩
  set s' := min (nonceS d e k) (n - nonceS d e k) with hs'
  have hk : (k : ZMod n) ≠ 0 := by
    rw [Ne, ZMod.natCast_eq_zero_iff]
    exact Nat.not_dvd_of_pos_of_lt h.pos h.lt
  have hs : (nonceS d e k : ZMod n) = (k : ZMod n)⁻¹ * (e + nonceR k * d) := by
    rw [nonceS, ZMod.natCast_zmod_val]
  have hs0 : (nonceS d e k : ZMod n) ≠ 0 := by
    rw [Ne, ZMod.natCast_eq_zero_iff]
    exact Nat.not_dvd_of_pos_of_lt hspos hslt
  have hequation : (k : ZMod n) * nonceS d e k = e + nonceR k * d := by
    rw [hs, mul_inv_cancel_left₀ hk]
  -- The two multiples are one multiple of the base point.
  have hsum : ∀ u v : ZMod n, u.val • G + v.val • d • G = (u.val + v.val * d) • G := by
    intro u v
    rw [add_nsmul, mul_nsmul']
  have hcast : ∀ u v : ZMod n, ((u.val + v.val * d : ℕ) : ZMod n) = u + v * d := by
    intro u v
    rw [Nat.cast_add, Nat.cast_mul, ZMod.natCast_zmod_val, ZMod.natCast_zmod_val]
  have hcases : (s' : ZMod n) = nonceS d e k ∨ (s' : ZMod n) = -(nonceS d e k : ZMod n) := by
    rcases min_cases (nonceS d e k) (n - nonceS d e k) with ⟨hmin, -⟩ | ⟨hmin, -⟩
    · exact Or.inl (by rw [hs', hmin])
    · refine Or.inr ?_
      rw [hs', hmin, Nat.cast_sub hslt.le, ZMod.natCast_self, zero_sub]
  rw [hsum]
  rcases hcases with hplus | hminus
  · rw [nsmul_G_of_cast (k := k), hr]
    rw [hcast, hplus, ← mul_right_comm, ← add_mul, ← hequation, mul_inv_cancel_right₀ hs0]
  · rw [nsmul_G_of_cast_neg (k := k), xModN_neg, hr]
    rw [hcast, hminus, inv_neg, ← mul_right_comm, ← add_mul, ← hequation, mul_neg,
      mul_inv_cancel_right₀ hs0]

/-- With an accepted public key and a digest of 32 bytes, verification never fails. It accepts
exactly the encodings of pairs in range for which the sum of the multiples of the base point and of
the public point is a finite point with the first component as its first coordinate modulo the
order. -/
theorem ecdsa_verify_exact (publicKeyDer signatureDer digest : List UInt8)
    (key : EcPublicKeyMaterial) (hkey : parseP256PublicKeyDer publicKeyDer = .ok key)
    (hdigest : digest.length = 32) :
    ∃ (Q : Point) (accepted : Bool), encodePoint Q = ⟨key.x, key.y, false⟩ ∧
      verifyEcdsaP256Sha256Digest publicKeyDer signatureDer digest = .ok accepted ∧
      (accepted = true ↔ ∃ r s : ℕ, signatureDer = EcDer.signatureDer r s ∧
        (1 ≤ r ∧ r ≤ n - 1) ∧ (1 ≤ s ∧ s ≤ n - 1) ∧
        ∃ x y, IsAt (((beValue digest : ZMod n) * (s : ZMod n)⁻¹).val • G +
          ((r : ZMod n) * (s : ZMod n)⁻¹).val • Q) x y ∧ x.val ≡ r [MOD n]) := by
  classical
  obtain ⟨Q, hQ, hpoint⟩ := publicKeyPoint_eq hkey
  refine ⟨Q, _, hQ, verify_eq hpoint hdigest signatureDer, ?_⟩
  have hpos := prime_n.pos
  rw [decide_eq_true_iff]
  constructor
  · rintro ⟨r, s, hder, h⟩
    obtain ⟨x, y, hat, hx⟩ := xModN_eq_some_iff.mp h.x_eq
    refine ⟨r, s, hder, ⟨h.r_pos, Nat.le_sub_one_of_lt h.r_lt⟩,
      ⟨h.s_pos, Nat.le_sub_one_of_lt h.s_lt⟩, x, y, hat, ?_⟩
    rw [Nat.ModEq, hx, Nat.mod_eq_of_lt h.r_lt]
  · rintro ⟨r, s, hder, ⟨hr, hrn⟩, ⟨hs, hsn⟩, x, y, hat, hx⟩
    have hrlt : r < n := by omega
    rw [Nat.ModEq, Nat.mod_eq_of_lt hrlt] at hx
    exact ⟨r, s, hder, hr, hrlt, hs, by omega, xModN_eq_some_iff.mpr ⟨x, y, hat, hx⟩⟩

/-- The first coordinate of the base point is below the order. -/
lemma nonceR_one :
    nonceR 1 = 0x6B17D1F2E12C4247F8BCE6E563A440F277037D812DEB33A0F4A13945D898C296 := by
  have hx : xModN G = some (gx.val % n) := xModN_eq_some_iff.mpr ⟨gx, gy, isAt_G, rfl⟩
  rw [nonceR, one_nsmul, hx]
  decide +kernel

/-- The nonce one serves for the scalar one and the digest of ones. -/
lemma serves_one : Serves (beValue (beBytes 32 1)) (beValue (List.replicate 32 0xFF)) 1 where
  pos := one_pos
  lt := prime_n.one_lt
  r_ne_zero := by
    rw [nonceR_one]
    norm_num
  s_ne_zero := by
    rw [nonceS, nonceR_one, beValue_beBytes (by norm_num), Nat.cast_one, inv_one, one_mul, mul_one,
      ← Nat.cast_add, ZMod.val_natCast]
    decide +kernel

/-- The signature of the nonce one under the public key of the scalar one. -/
theorem ecdsa_verify_exact_one :
    verifyEcdsaP256Sha256Digest (spkiPublicKey (publicKeyOf (beValue (beBytes 32 1))))
      (signatureWith (beValue (beBytes 32 1)) (beValue (List.replicate 32 0xFF)) 1)
      (List.replicate 32 0xFF) = .ok true := by
  obtain ⟨x, y, hcurve, hencode, hpublic⟩ := publicKeyOf_eq validPrivateScalar_one.nsmul_ne_zero
  obtain ⟨Q, accepted, hQ, hverify, hiff⟩ := ecdsa_verify_exact
    (spkiPublicKey (publicKeyOf (beValue (beBytes 32 1))))
    (signatureWith (beValue (beBytes 32 1)) (beValue (List.replicate 32 0xFF)) 1)
    (List.replicate 32 0xFF) (publicKeyOf (beValue (beBytes 32 1)))
    (parseP256PublicKey_eq_ok_iff.mpr ⟨validPublicPoint_iff.mpr ⟨x, y, hcurve, hpublic⟩, rfl⟩)
    List.length_replicate
  obtain rfl : Q = beValue (beBytes 32 1) • G := by
    apply encodePoint_injective
    rw [hQ, hencode, hpublic]
  have haccepts := accepts_of_serves serves_one
  obtain ⟨x', y', hat, hx⟩ := xModN_eq_some_iff.mp haccepts.x_eq
  rw [hverify, hiff.mpr]
  refine ⟨_, _, rfl, ⟨haccepts.r_pos, Nat.le_sub_one_of_lt haccepts.r_lt⟩,
    ⟨haccepts.s_pos, Nat.le_sub_one_of_lt haccepts.s_lt⟩, x', y', hat, ?_⟩
  rw [Nat.ModEq, hx, Nat.mod_eq_of_lt haccepts.r_lt]

/-! ## Signing and verifying -/

lemma low_le_half {s : ℕ} (h : s < n) : min s (n - s) ≤ (n - 1) / 2 := by
  obtain ⟨-, -, hodd⟩ := order_values
  omega

/-- With an accepted private key and a digest of 32 bytes, what signing returns is a signature with
both components in range and the second one in the lower half, and verification with the public key
of the scalar accepts it. -/
theorem ecdsa_sign_verifies (privateKeyDer digest : List UInt8) (key : EcPrivateKeyMaterial)
    (hkey : parseP256PrivateKeyDer privateKeyDer = .ok key) (hdigest : digest.length = 32) :
    (∃ e, signEcdsaP256Sha256Digest privateKeyDer digest = .error e) ∨
    ∃ (signature : List UInt8) (r s : ℕ),
      signEcdsaP256Sha256Digest privateKeyDer digest = .ok signature ∧
      parseEcdsaSignatureDer signature = .ok ⟨minBeBytes r, minBeBytes s⟩ ∧
      (1 ≤ r ∧ r ≤ n - 1) ∧ (1 ≤ s ∧ s ≤ (n - 1) / 2) ∧
      verifyEcdsaP256Sha256Digest (spkiPublicKey (publicKeyOf (beValue key.privateScalar)))
        signature digest = .ok true := by
  classical
  have hscalar := validPrivateScalar_of_parse hkey
  set d := beValue key.privateScalar with hd
  rw [sign_eq hkey hscalar hdigest]
  generalize DeterministicNonces.candidate n (hmacOf .sha256) 32 d digest = candidate
  cases hfirst : DeterministicNonces.firstSuccess (attempt d (beValue digest) candidate) 0
      maxAttempts with
  | none => exact Or.inl ⟨_, rfl⟩
  | some signature =>
      obtain ⟨i, -, hi, -⟩ := DeterministicNonces.firstSuccess_eq_some_iff.mp hfirst
      have hserves : Serves d (beValue digest) (candidate i) := by
        by_contra hnot
        rw [attempt_eq_none_iff.mpr hnot] at hi
        cases hi
      rw [attempt_of_serves hserves, Option.some.injEq] at hi
      -- What signing computed from the nonce is what verification checks, low `s` included.
      have haccepts := accepts_of_serves hserves
      refine Or.inr ⟨signature, _, _, rfl, ?_,
        ⟨haccepts.r_pos, Nat.le_sub_one_of_lt haccepts.r_lt⟩,
        ⟨haccepts.s_pos, low_le_half (nonceS_lt _ _ _)⟩, ?_⟩
      · refine parseEcdsaSignature_eq_ok_iff.mpr ⟨_, _, rfl, ?_, hi.symm⟩
        exact length_signatureBody_lt (haccepts.r_lt.trans n_lt) (haccepts.s_lt.trans n_lt)
      · obtain ⟨x, y, hcurve, hencode, hpublic⟩ := publicKeyOf_eq hscalar.nsmul_ne_zero
        have hparse : parseP256PublicKeyDer (spkiPublicKey (publicKeyOf d)) =
            .ok (publicKeyOf d) :=
          parseP256PublicKey_eq_ok_iff.mpr
            ⟨validPublicPoint_iff.mpr ⟨x, y, hcurve, hpublic⟩, rfl⟩
        obtain ⟨Q, hQ, hpoint⟩ := publicKeyPoint_eq hparse
        -- The key that was parsed back is the multiple of the base point that signed.
        have hQd : Q = d • G := by
          apply encodePoint_injective
          rw [hQ, hencode, hpublic]
        rw [verify_eq hpoint hdigest, hQd]
        refine congrArg Except.ok ?_
        rw [decide_eq_true_iff]
        exact ⟨_, _, hi.symm, haccepts⟩

/-- The key of the scalar one, in the container that stands alone. -/
theorem ecdsa_sign_verifies_one :
    (∃ e, signEcdsaP256Sha256Digest (sec1PrivateKey (beBytes 32 1) true false)
      (List.replicate 32 0xFF) = .error e) ∨
    ∃ (signature : List UInt8) (r s : ℕ),
      signEcdsaP256Sha256Digest (sec1PrivateKey (beBytes 32 1) true false)
        (List.replicate 32 0xFF) = .ok signature ∧
      parseEcdsaSignatureDer signature = .ok ⟨minBeBytes r, minBeBytes s⟩ ∧
      (1 ≤ r ∧ r ≤ n - 1) ∧ (1 ≤ s ∧ s ≤ (n - 1) / 2) ∧
      verifyEcdsaP256Sha256Digest (spkiPublicKey (publicKeyOf (beValue (beBytes 32 1))))
        signature (List.replicate 32 0xFF) = .ok true :=
  ecdsa_sign_verifies _ _ ⟨beBytes 32 1⟩
    (parseP256PrivateKeyDer_sec1 validPrivateScalar_one false) List.length_replicate

end CryptoCore
