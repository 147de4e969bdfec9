import CryptoCore.Properties.Ecdsa

/-!
# The other signature

An ECDSA signature `(r, s)` has a twin `(r, n - s)`. Under the public key of a private key,
verification decides the same for both, and accepts no third second component with the same `r`
unless `r + n` is a first coordinate too. Signing returns the twin in the lower half only.

So a signature can be changed into another one by anybody, and a caller that takes signatures for
unique identifiers of what was signed is mistaken; the lower half is a convention of the signer that
the verifier does not enforce.

Everything is about one scalar. Under the public key of `d` the verifier compares `r` with the first
coordinate of a multiple of the base point, and `pointScalar` is its factor. The twin negates the
factor modulo the order, hence the point, and a point and its negative have one first coordinate.
Conversely two points over one first coordinate are equal or opposite, so that their factors are,
and the second components with them. The exception is where two first coordinates have the same
remainder `r`, which needs `r + n` to be below the prime of the field.
-/

namespace CryptoCore

open ByteStrings EcDer Ecdsa P256Curve ShortWeierstrass

namespace EcDer

/-- The encoding of a signature determines its numbers. -/
lemma signatureDer_inj {r s r' s' : ℕ} (hr : r < n) (hs : s < n) (hr' : r' < n) (hs' : s' < n)
    (h : signatureDer r s = signatureDer r' s') : r = r' ∧ s = s' := by
  have hbody := length_signatureBody_lt (hr.trans n_lt) (hs.trans n_lt)
  have hbody' := length_signatureBody_lt (hr'.trans n_lt) (hs'.trans n_lt)
  have hparse := parseEcdsaSignature_eq_ok_iff.mpr ⟨r, s, rfl, hbody, rfl⟩
  have hparse' := parseEcdsaSignature_eq_ok_iff.mpr ⟨r', s', rfl, hbody', rfl⟩
  rw [h, hparse', Except.ok.injEq, EcdsaSignatureMaterial.mk.injEq] at hparse
  exact ⟨minBeBytes_injective hparse.1.symm, minBeBytes_injective hparse.2.symm⟩

end EcDer

namespace Ecdsa

variable {d e r s t : ℕ}

/-! ## Multiples of the base point -/

lemma cast_eq_of_nsmul_G {j k : ℕ} (h : j • G = k • G) : (j : ZMod n) = (k : ZMod n) := by
  rw [ZMod.natCast_eq_natCast_iff, ← addOrderOf_G]
  exact nsmul_eq_nsmul_iff_modEq.mp h

lemma cast_eq_neg_of_nsmul_G {j k : ℕ} (h : j • G = -(k • G)) :
    (j : ZMod n) = -(k : ZMod n) := by
  have hzero : (j + k) • G = 0 • G := by
    rw [add_nsmul, h, neg_add_cancel, zero_nsmul]
  have hcast := cast_eq_of_nsmul_G hzero
  rw [Nat.cast_add, Nat.cast_zero] at hcast
  exact eq_neg_of_add_eq_zero_left hcast

/-- The multiple of the base point that verification under the key of `d` compares with `r`, as a
number. -/
noncomputable def pointScalar (d e r s : ℕ) : ℕ :=
  ((e : ZMod n) * (s : ZMod n)⁻¹).val + ((r : ZMod n) * (s : ZMod n)⁻¹).val * d

lemma cast_pointScalar :
    (pointScalar d e r s : ZMod n) = ((e : ZMod n) + r * d) * (s : ZMod n)⁻¹ := by
  rw [pointScalar, Nat.cast_add, Nat.cast_mul, ZMod.natCast_zmod_val, ZMod.natCast_zmod_val]
  ring

lemma accepts_iff :
    Accepts (d • G) e r s ↔
      (0 < r ∧ r < n) ∧ (0 < s ∧ s < n) ∧ xModN (pointScalar d e r s • G) = some r := by
  have hpoint : ((e : ZMod n) * (s : ZMod n)⁻¹).val • G +
      ((r : ZMod n) * (s : ZMod n)⁻¹).val • d • G = pointScalar d e r s • G := by
    rw [pointScalar, add_nsmul, mul_nsmul']
  constructor
  · intro h
    refine ⟨⟨h.r_pos, h.r_lt⟩, ⟨h.s_pos, h.s_lt⟩, ?_⟩
    rw [← hpoint]
    exact h.x_eq
  · rintro ⟨⟨hr, hrn⟩, ⟨hs, hsn⟩, hx⟩
    refine ⟨hr, hrn, hs, hsn, ?_⟩
    rw [hpoint]
    exact hx

/-! ## Twins -/

lemma cast_twin (h : s < n) : ((n - s : ℕ) : ZMod n) = -(s : ZMod n) := by
  rw [Nat.cast_sub h.le, ZMod.natCast_self, zero_sub]

/-- The twin leads to the negated point, which has the same first coordinate. -/
lemma accepts_twin_iff (hpos : 0 < s) (hlt : s < n) :
    Accepts (d • G) e r (n - s) ↔ Accepts (d • G) e r s := by
  have hscalar : (pointScalar d e r (n - s) : ZMod n) = -(pointScalar d e r s : ZMod n) := by
    rw [cast_pointScalar, cast_pointScalar, cast_twin hlt, inv_neg, mul_neg]
  have hrange : 0 < n - s ∧ n - s < n := by omega
  rw [accepts_iff, accepts_iff, nsmul_G_of_cast_neg hscalar, xModN_neg]
  exact and_congr_right fun _ => and_congr_left fun _ => iff_of_true hrange ⟨hpos, hlt⟩

/-- When `r + n` is too large for a coordinate, `r` is the first coordinate itself. -/
lemma isAt_of_xModN {P : Point} (hr : p ≤ r + n) (h : xModN P = some r) :
    ∃ y, IsAt P (r : Coordinate) y := by
  obtain ⟨x, y, hat, hx⟩ := xModN_eq_some_iff.mp h
  have hlt : x.val < p := ZMod.val_lt x
  have hvalue : x.val = r := by
    have hdiv := Nat.mod_add_div x.val n
    rw [hx] at hdiv
    rcases Nat.eq_zero_or_pos (x.val / n) with hzero | hmore
    · rw [hzero, mul_zero, add_zero] at hdiv
      exact hdiv.symm
    · have hn : n ≤ n * (x.val / n) := Nat.le_mul_of_pos_right n hmore
      omega
  refine ⟨y, ?_⟩
  rw [← hvalue, ZMod.natCast_zmod_val]
  exact hat

/-- Two points over one first coordinate. -/
lemma eq_or_eq_neg_of_isAt {P Q : Point} {x y y' : Coordinate} (hP : IsAt P x y)
    (hQ : IsAt Q x y') : P = Q ∨ P = -Q := by
  by_cases hy : y + y' = 0
  · right
    exact eq_neg_of_add_eq_zero_left (hP.add_eq_zero hQ hy)
  · left
    rw [hP.eq_of_add_ne_zero hQ hy] at hP
    exact hP.unique hQ

lemma cast_inj {j k : ℕ} (hj : j < n) (hk : k < n) (h : (j : ZMod n) = (k : ZMod n)) : j = k := by
  rwa [ZMod.natCast_eq_natCast_iff, Nat.ModEq, Nat.mod_eq_of_lt hj, Nat.mod_eq_of_lt hk] at h

/-- There is no third one: the points are equal or opposite, and so are the second components. -/
lemma eq_or_eq_twin_of_accepts (hr : p ≤ r + n) (hs : Accepts (d • G) e r s)
    (ht : Accepts (d • G) e r t) : t = s ∨ t = n - s := by
  obtain ⟨-, ⟨hspos, hslt⟩, hsx⟩ := accepts_iff.mp hs
  obtain ⟨-, ⟨htpos, htlt⟩, htx⟩ := accepts_iff.mp ht
  obtain ⟨y, hP⟩ := isAt_of_xModN hr hsx
  obtain ⟨y', hQ⟩ := isAt_of_xModN hr htx
  -- the common factor of the two multiples is not zero, for the points are finite
  have hfactor : (e : ZMod n) + r * d ≠ 0 := by
    intro hzero
    have hmultiple : (pointScalar d e r s : ZMod n) = ((0 : ℕ) : ZMod n) := by
      rw [cast_pointScalar, hzero, zero_mul, Nat.cast_zero]
    apply hP.ne_zero
    rw [nsmul_G_of_cast hmultiple, zero_nsmul]
  rcases eq_or_eq_neg_of_isAt hQ hP with hsame | hnegated
  · left
    have hcast := cast_eq_of_nsmul_G hsame
    rw [cast_pointScalar, cast_pointScalar, mul_right_inj' hfactor, inv_inj] at hcast
    exact cast_inj htlt hslt hcast
  · right
    have hcast := cast_eq_neg_of_nsmul_G hnegated
    rw [cast_pointScalar, cast_pointScalar, ← mul_neg, mul_right_inj' hfactor, ← inv_neg,
      inv_inj, ← cast_twin hslt] at hcast
    exact cast_inj htlt (by omega) hcast

/-! ## Verification -/

/-- A digest of another length is refused, whatever the signature. -/
lemma verify_of_length_ne {publicKeyDer signature digest : List UInt8}
    (h : digest.length ≠ 32) :
    verifyEcdsaP256Sha256Digest publicKeyDer signature digest =
      .error (ecdsaError .invalidArgument "SHA-256 digest must be 32 bytes") := by
  have hsize : (!(digest.length != sha256DigestSize)) = false := by
    rw [Bool.not_eq_false', bne_iff_ne]
    exact h
  rw [verifyEcdsaP256Sha256Digest, hsize]
  rfl

open Classical in
/-- Verification under the public key of a private scalar decides whether a signature is an accepted
pair. -/
lemma verify_publicKeyOf {scalar digest : List UInt8} (hscalar : ValidPrivateScalar scalar)
    (hdigest : digest.length = 32) (signature : List UInt8) :
    verifyEcdsaP256Sha256Digest (spkiPublicKey (publicKeyOf (beValue scalar))) signature digest =
      .ok (decide (∃ r s : ℕ, signature = signatureDer r s ∧
        Accepts (beValue scalar • G) (beValue digest) r s)) := by
  obtain ⟨x, y, hcurve, hencode, hpublic⟩ := publicKeyOf_eq hscalar.nsmul_ne_zero
  have hparse : parseP256PublicKeyDer (spkiPublicKey (publicKeyOf (beValue scalar))) =
      .ok (publicKeyOf (beValue scalar)) :=
    parseP256PublicKey_eq_ok_iff.mpr ⟨validPublicPoint_iff.mpr ⟨x, y, hcurve, hpublic⟩, rfl⟩
  obtain ⟨Q, hQ, hpoint⟩ := publicKeyPoint_eq hparse
  have hpoints : Q = beValue scalar • G := by
    apply encodePoint_injective
    rw [hQ, hencode, hpublic]
  rw [hpoints] at hpoint
  exact verify_eq hpoint hdigest signature

open Classical in
lemma verify_signatureDer {scalar digest : List UInt8} (hscalar : ValidPrivateScalar scalar)
    (hdigest : digest.length = 32) (hr : r < n) (hs : s < n) :
    verifyEcdsaP256Sha256Digest (spkiPublicKey (publicKeyOf (beValue scalar)))
        (signatureDer r s) digest =
      .ok (decide (Accepts (beValue scalar • G) (beValue digest) r s)) := by
  rw [verify_publicKeyOf hscalar hdigest]
  refine congrArg Except.ok (decide_eq_decide.mpr ?_)
  constructor
  · rintro ⟨r', s', hder, h⟩
    obtain ⟨rfl, rfl⟩ := signatureDer_inj hr hs h.r_lt h.s_lt hder
    exact h
  · intro h
    exact ⟨r, s, rfl, h⟩

lemma accepts_of_verify {scalar digest : List UInt8} (hscalar : ValidPrivateScalar scalar)
    (hr : r < n) (hs : s < n)
    (h : verifyEcdsaP256Sha256Digest (spkiPublicKey (publicKeyOf (beValue scalar)))
      (signatureDer r s) digest = .ok true) :
    Accepts (beValue scalar • G) (beValue digest) r s := by
  classical
  by_cases hdigest : digest.length = 32
  · rw [verify_signatureDer hscalar hdigest hr hs, Except.ok.injEq] at h
    exact of_decide_eq_true h
  · rw [verify_of_length_ne hdigest] at h
    cases h

/-! ## Signing -/

variable {privateKeyDer digest signature : List UInt8} {key : EcPrivateKeyMaterial}

/-- A signature comes from a nonce that serves. -/
lemma exists_serves_of_sign (hkey : parseP256PrivateKeyDer privateKeyDer = .ok key)
    (hdigest : digest.length = 32)
    (hsign : signEcdsaP256Sha256Digest privateKeyDer digest = .ok signature) :
    ∃ k, Serves (beValue key.privateScalar) (beValue digest) k ∧
      signature = signatureWith (beValue key.privateScalar) (beValue digest) k := by
  rw [sign_eq hkey (validPrivateScalar_of_parse hkey) hdigest] at hsign
  split at hsign
  next found hfirst =>
    cases hsign
    obtain ⟨i, -, hi, -⟩ := DeterministicNonces.firstSuccess_eq_some_iff.mp hfirst
    rw [attempt] at hi
    split at hi
    next hserves => exact ⟨_, hserves, (Option.some.inj hi).symm⟩
    next => cases hi
  next => cases hsign

/-- Only digests of 32 bytes are signed, by a pair that verification accepts, with the second
number in the lower half. -/
lemma exists_accepts_of_sign (hkey : parseP256PrivateKeyDer privateKeyDer = .ok key)
    (hsign : signEcdsaP256Sha256Digest privateKeyDer digest = .ok signature) :
    digest.length = 32 ∧ ∃ r s, signature = signatureDer r s ∧
      Accepts (beValue key.privateScalar • G) (beValue digest) r s ∧ s ≤ (n - 1) / 2 := by
  have hdigest : digest.length = 32 := by
    obtain ⟨hsize, -⟩ := require_bind_eq_ok.mp hsign
    rw [Bool.not_eq_true', bne_eq_false_iff_eq] at hsize
    exact hsize
  obtain ⟨k, hserves, rfl⟩ := exists_serves_of_sign hkey hdigest hsign
  exact ⟨hdigest, _, _, rfl, accepts_of_serves hserves, low_le_half (nonceS_lt _ _ _)⟩

end Ecdsa

/-- With the public key of an accepted private key, verification takes a signature and its twin
alike, and nothing else with the same first number when that number plus the order is no
coordinate. What signing returns verifies, and so does its twin, which signing returns for no
digest. -/
theorem ecdsaSignature_twins {privateKeyDer : List UInt8} {key : EcPrivateKeyMaterial}
    (hkey : parseP256PrivateKeyDer privateKeyDer = .ok key) (digest : List UInt8) :
    let publicKeyDer := spkiPublicKey (publicKeyOf (beValue key.privateScalar))
    (∀ r s, 0 < r → r < n → 0 < s → s < n →
      verifyEcdsaP256Sha256Digest publicKeyDer (signatureDer r (n - s)) digest =
        verifyEcdsaP256Sha256Digest publicKeyDer (signatureDer r s) digest) ∧
    (∀ r s t, r < n → s < n → t < n → p ≤ r + n →
      verifyEcdsaP256Sha256Digest publicKeyDer (signatureDer r s) digest = .ok true →
      verifyEcdsaP256Sha256Digest publicKeyDer (signatureDer r t) digest = .ok true →
        t = s ∨ t = n - s) ∧
    ∀ signature, signEcdsaP256Sha256Digest privateKeyDer digest = .ok signature →
      ∃ r s, signature = signatureDer r s ∧
        verifyEcdsaP256Sha256Digest publicKeyDer signature digest = .ok true ∧
        verifyEcdsaP256Sha256Digest publicKeyDer (signatureDer r (n - s)) digest = .ok true ∧
        ∀ other, signEcdsaP256Sha256Digest privateKeyDer other ≠ .ok (signatureDer r (n - s)) := by
  classical
  have hscalar := validPrivateScalar_of_parse hkey
  refine ⟨fun r s _ hrn hs hsn => ?_, fun r s t hrn hsn htn hr hverify hverify' => ?_,
    fun signature hsign => ?_⟩
  · by_cases hdigest : digest.length = 32
    · rw [verify_signatureDer hscalar hdigest hrn (by omega),
        verify_signatureDer hscalar hdigest hrn hsn]
      exact congrArg Except.ok (decide_eq_decide.mpr (accepts_twin_iff hs hsn))
    · rw [verify_of_length_ne hdigest, verify_of_length_ne hdigest]
  · apply eq_or_eq_twin_of_accepts hr
    · exact accepts_of_verify hscalar hrn hsn hverify
    · exact accepts_of_verify hscalar hrn htn hverify'
  · obtain ⟨hdigest, r, s, rfl, haccepts, hlow⟩ := exists_accepts_of_sign hkey hsign
    have hspos := haccepts.s_pos
    have hslt := haccepts.s_lt
    have htwin := (accepts_twin_iff hspos hslt).mpr haccepts
    refine ⟨r, s, rfl, ?_, ?_, fun other hother => ?_⟩
    · rw [verify_signatureDer hscalar hdigest haccepts.r_lt hslt, decide_eq_true haccepts]
    · rw [verify_signatureDer hscalar hdigest haccepts.r_lt htwin.s_lt, decide_eq_true htwin]
    · -- the twin lies in the upper half, for the order is odd
      obtain ⟨-, r', s', hder, haccepts', hlow'⟩ := exists_accepts_of_sign hkey hother
      obtain ⟨-, rfl⟩ :=
        signatureDer_inj haccepts.r_lt htwin.s_lt haccepts'.r_lt haccepts'.s_lt hder
      obtain ⟨-, -, hodd⟩ := order_values
      omega

/-- The key of the scalar one, in the container that stands alone, and the pair of ones. -/
theorem ecdsaSignature_twins_one :
    verifyEcdsaP256Sha256Digest (spkiPublicKey (publicKeyOf (beValue (beBytes 32 1))))
        (signatureDer 1 (n - 1)) (List.replicate 32 0xFF) =
      verifyEcdsaP256Sha256Digest (spkiPublicKey (publicKeyOf (beValue (beBytes 32 1))))
        (signatureDer 1 1) (List.replicate 32 0xFF) :=
  (ecdsaSignature_twins (parseP256PrivateKeyDer_sec1 validPrivateScalar_one false)
    (List.replicate 32 0xFF)).1 1 1 one_pos prime_n.one_lt one_pos prime_n.one_lt

end CryptoCore
