import CryptoCore.Construction.Ed25519

/-!
# Ed25519

The point arithmetic is the group of the curve on every pair of points and every scalar, decoding
and encoding are inverse to each other, what is signed verifies, and the verification accepts
exactly the signatures, of which there is at most one for a commitment.

The arithmetic is stated for extended coordinates that satisfy the representation invariant, and
relates them to points of the curve by `Represents`. There is no exceptional pair, because the curve
is complete, and no bound on a scalar, because the loop has as many rounds as the scalar has bits.

For the encodings the uniqueness is what takes work. A decoded point has one encoding: the second
coordinate has to be below the field's order, and the sign of a first coordinate that is zero has to
be positive. With that, a public key and a commitment are points, and the equation is one between
points of the group. The check that the scalar is below the order of the base point makes it the
only one, since two such scalars with the same multiple are equal.
-/

namespace CryptoCore

open ByteStrings TwistedEdwards Ed25519Curve

/-- Addition and multiplication keep the representation invariant and compute in the group of the
curve, without an exceptional pair and for scalars of any length. -/
theorem ed25519_arithmetic_complete :
    (∀ point : Ed25519.ExtendedPoint, point.Valid →
      ∃ A : Point, (Ed25519.lower point).Represents A) ∧
    (∀ lhs rhs : Ed25519.ExtendedPoint, lhs.Valid → rhs.Valid →
      ∃ sum, Ed25519.pointAdd lhs rhs = .ok sum ∧ sum.Valid ∧
        ∀ A A' : Point, (Ed25519.lower lhs).Represents A → (Ed25519.lower rhs).Represents A' →
          (Ed25519.lower sum).Represents (A + A') ∧
          1 + d * A.x * A'.x * A.y * A'.y ≠ 0 ∧ 1 - d * A.x * A'.x * A.y * A'.y ≠ 0) ∧
    (∀ (scalar : List UInt8) (point : Ed25519.ExtendedPoint), point.Valid →
      ∃ product, Ed25519.scalarMultiply scalar point = .ok product ∧ product.Valid ∧
        ∀ A : Point, (Ed25519.lower point).Represents A →
          (Ed25519.lower product).Represents (leValue scalar • A)) := by
  have hpoint : ∀ point : Ed25519.ExtendedPoint, point.Valid →
      ∃ A : Point, (Ed25519.lower point).Represents A :=
    fun point h => (Extended.valid_iff_exists_represents _).mp h.coordinates
  refine ⟨hpoint, ?_, ?_⟩
  · intro lhs rhs hlhs hrhs
    obtain ⟨P, hP⟩ := hpoint lhs hlhs
    obtain ⟨Q, hQ⟩ := hpoint rhs hrhs
    refine ⟨_, Ed25519.pointAdd_eq lhs rhs, Ed25519.valid_lift (hP.add hQ), ?_⟩
    intro A A' hA hA'
    rw [Ed25519.lower_lift]
    exact ⟨hA.add hA', one_add_cross_ne_zero A.onCurve A'.onCurve,
      one_sub_cross_ne_zero A.onCurve A'.onCurve⟩
  · intro scalar point hvalid
    have hmultiply : ∀ A : Point, (Ed25519.lower point).Represents A →
        ∃ E : Extended Coordinate, Ed25519.scalarMultiply scalar point = .ok (Ed25519.lift E) ∧
          E.Represents (leValue scalar • A) := by
      intro A hA
      rw [hvalid.eq_lift]
      exact Ed25519.scalarMultiply_represents scalar hA
    obtain ⟨P, hP⟩ := hpoint point hvalid
    obtain ⟨E, hE, hrep⟩ := hmultiply P hP
    refine ⟨_, hE, Ed25519.valid_lift hrep, ?_⟩
    intro A hA
    rw [Ed25519.lower_lift, hA.unique hP]
    exact hrep

/-- Decoding and encoding are inverse to each other, up to the choice of extended coordinates, and
what is decoded are the canonical encodings. -/
theorem ed25519_encoding_inverse :
    (∀ encoded point, Ed25519.decodePoint encoded = .ok point →
      Ed25519.encodePoint point = .ok encoded) ∧
    (∀ point : Ed25519.ExtendedPoint,
      let x := Ed25519.toField point.x
      let y := Ed25519.toField point.y
      let z := Ed25519.toField point.z
      z ≠ 0 → (y * y - x * x) * (z * z) = z * z * (z * z) + d * (x * x) * (y * y) →
        ∃ encoded decoded, Ed25519.encodePoint point = .ok encoded ∧
          Ed25519.decodePoint encoded = .ok decoded ∧
          Ed25519.pointsEqual point decoded = .ok true ∧
          Ed25519.toField decoded.z ≠ 0) ∧
    (∀ encoded : List UInt8, encoded.length = 32 →
      ((∃ point, Ed25519.decodePoint encoded = .ok point) ↔
        leValue encoded % 2 ^ 255 < p ∧
          ∃ x : Coordinate, OnCurve d x ((leValue encoded % 2 ^ 255 : ℕ) : Coordinate) ∧
            x.val % 2 = leValue encoded / 2 ^ 255)) := by
  refine ⟨?_, ?_, ?_⟩
  · intro encoded point h
    obtain ⟨A, rfl, rfl⟩ := (Ed25519.decodePoint_eq_ok_iff _ _).mp h
    exact Ed25519.encodePoint_lift (Extended.Represents.affine A)
  · intro point x y z hz hcurve
    -- The last coordinate plays no part, so the product of the others may stand in for it.
    obtain ⟨A, hA⟩ := (Extended.valid_iff_exists_represents ⟨x, y, z, x * y / z⟩).mp
      ⟨hz, (mul_div_cancel₀ _ hz).symm, hcurve⟩
    have hx : x = A.x * z := hA.x_eq
    have hy : y = A.y * z := hA.y_eq
    refine ⟨encoding A, _, Ed25519.encodePoint_eq hz hx hy, Ed25519.decodePoint_encoding A, ?_, ?_⟩
    · rw [Ed25519.pointsEqual_eq, Ed25519.lower_lift]
      refine congrArg Except.ok (decide_eq_true ⟨?_, ?_⟩)
      · exact (mul_one x).trans hx
      · exact (mul_one y).trans hy
    · exact (Ed25519.toField_ofField 1).symm ▸ one_ne_zero
  · intro encoded hlength
    have hexists := exists_encoding_iff encoded
    constructor
    · rintro ⟨point, h⟩
      obtain ⟨A, hA, -⟩ := (Ed25519.decodePoint_eq_ok_iff _ _).mp h
      exact (hexists.mp ⟨A, hA⟩).2
    · intro h
      obtain ⟨A, rfl⟩ := hexists.mpr ⟨hlength, h⟩
      exact ⟨_, Ed25519.decodePoint_encoding A⟩

/-- The public key of a seed: the encoding of the base point times the clamped low half of the
digest. The source has no function for it; it is put together from those that signing calls. -/
def ed25519PublicKeyOfSeed (seed : List UInt8) : Result ByteBuffer := do
  let digest ← Ed25519.sha512 seed
  let base ← Ed25519.decodePoint Ed25519.basePointBytes
  let point ← Ed25519.scalarMultiply (Ed25519.clampScalar (digest.take 32)) base
  Ed25519.encodePoint point

lemma ed25519PublicKeyOfSeed_eq (seed : List UInt8) :
    ed25519PublicKeyOfSeed seed = .ok (encoding (Ed25519.secretScalar seed • B)) := by
  obtain ⟨E, hE, hrep⟩ := Ed25519.scalarMultiply_represents
    (Ed25519.clampScalar ((sha512Digest seed).take 32)) (Extended.Represents.affine B)
  rw [ed25519PublicKeyOfSeed, Ed25519.sha512_eq, ok_bind, Ed25519.basePointBytes_eq,
    Ed25519.decodePoint_encoding, ok_bind, hE, ok_bind, Ed25519.encodePoint_lift hrep]
  rfl

/-- The scalar of a signature answers the challenge: reduced modulo the order, it still is the sum
of the nonce and the product. -/
lemma signature_equation (r k a : ℕ) :
    ((r + k * a % order) % order) • B = r • B + k • a • B := by
  rw [nsmul_B_mod, add_nsmul, nsmul_B_mod, mul_nsmul']

/-- For one commitment at most one scalar is accepted, and it has one encoding. -/
lemma verifies_unique {A : Point} {commitment s t message : List UInt8}
    (hcommitment : commitment.length = 32)
    (hs : Ed25519.Verifies A (commitment ++ s) message)
    (ht : Ed25519.Verifies A (commitment ++ t) message) : s = t := by
  obtain ⟨R, S, hS, hsplit, hequation⟩ := hs
  obtain ⟨R', S', hS', hsplit', hequation'⟩ := ht
  obtain ⟨hR, hscalar⟩ := List.append_inj hsplit (hcommitment.trans (length_encoding R).symm)
  obtain ⟨hR', hscalar'⟩ := List.append_inj hsplit' (hcommitment.trans (length_encoding R').symm)
  obtain rfl : R = R' := encoding_injective (hR.symm.trans hR')
  have hmod := (nsmul_B_eq_iff S S').mp (hequation.trans hequation'.symm)
  rw [Nat.ModEq, Nat.mod_eq_of_lt hS, Nat.mod_eq_of_lt hS'] at hmod
  rw [hscalar, hscalar', hmod]

/-- Under a public key that decodes, the verification accepts exactly the encodings of a point
followed by a canonical scalar that satisfies the equation, and rejects everything else. For one
commitment at most one scalar is accepted. -/
theorem ed25519_verify_exact (publicKey : List UInt8) (point : Ed25519.ExtendedPoint)
    (hkey : Ed25519.decodePoint publicKey = .ok point) :
    ∃ A : Point, publicKey = encoding A ∧ (Ed25519.lower point).Represents A ∧
      (∀ signature message, ∃ valid,
        Ed25519.verifyEd25519 publicKey signature message = .ok valid ∧
        (valid = true ↔ ∃ (R : Point) (S : ℕ), S < order ∧
          signature = encoding R ++ leBytes 32 S ∧
          S • B = R + (leValue (sha512Digest (encoding R ++ publicKey ++ message)) % order) • A)) ∧
      ∀ commitment s t message, commitment.length = 32 →
        Ed25519.verifyEd25519 publicKey (commitment ++ s) message = .ok true →
        Ed25519.verifyEd25519 publicKey (commitment ++ t) message = .ok true → s = t := by
  obtain ⟨A, rfl, rfl⟩ := (Ed25519.decodePoint_eq_ok_iff _ _).mp hkey
  refine ⟨A, rfl, ?_, fun signature message => Ed25519.verifyEd25519_eq A signature message, ?_⟩
  · rw [Ed25519.lower_lift]
    exact Extended.Represents.affine A
  · intro commitment s t message hcommitment hs ht
    have hverifies : ∀ signature, Ed25519.verifyEd25519 (encoding A) signature message = .ok true →
        Ed25519.Verifies A signature message := by
      intro signature h
      obtain ⟨valid, hverify, hiff⟩ := Ed25519.verifyEd25519_eq A signature message
      rw [hverify] at h
      exact hiff.mp (Except.ok.inj h)
    exact verifies_unique hcommitment (hverifies _ hs) (hverifies _ ht)

/-- The base point as a public key, which is the key of the scalar one. -/
theorem ed25519_verify_exact_base :
    ∃ A : Point, encoding B = encoding A ∧
      (Ed25519.lower (Ed25519.lift (Extended.ofAffine B.x B.y))).Represents A ∧
      (∀ signature message, ∃ valid,
        Ed25519.verifyEd25519 (encoding B) signature message = .ok valid ∧
        (valid = true ↔ ∃ (R : Point) (S : ℕ), S < order ∧
          signature = encoding R ++ leBytes 32 S ∧
          S • B = R +
            (leValue (sha512Digest (encoding R ++ encoding B ++ message)) % order) • A)) ∧
      ∀ commitment s t message, commitment.length = 32 →
        Ed25519.verifyEd25519 (encoding B) (commitment ++ s) message = .ok true →
        Ed25519.verifyEd25519 (encoding B) (commitment ++ t) message = .ok true → s = t :=
  ed25519_verify_exact (encoding B) _ (Ed25519.decodePoint_encoding B)

end CryptoCore
