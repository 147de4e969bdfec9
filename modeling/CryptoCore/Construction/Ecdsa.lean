import CryptoCore.Construction.EcDer
import CryptoCore.Construction.Hmac
import CryptoCore.Framework.DeterministicNonces

/-!
# ECDSA over P-256

Signing with the nonces of a deterministic generator and a low second component, and verifying. A
call of the generator returns the state that it leaves; a failed call ends the signing, and so does
running out of the sixteen attempts.

The generator is the one of `Framework/DeterministicNonces.lean` at the HMAC of
`Construction/Hmac.lean`: `create_eq`, `next_ofState` and `reject_ofState` say that each function of
the source does to a state what the library does, and `candidates_ofState` that the calls return the
candidates in order. That a state of the source is one of the library is all that later proofs use.

What one nonce gives is described without the code: `Serves` says that a nonce is in range and makes
neither component vanish, and `signatureWith` is the encoded pair. `signAttempts_succ` is the step
of the loop and `signAttempts_eq` the whole of it, the first serving candidate among those left;
`sign_eq` is the same for the public function. Verification is the decision of `Accepts`, the
equation of the scheme over the group (`verify_eq`), and never fails once the key was accepted.
`Properties/Ecdsa.lean` puts signing and verifying together, and `Properties/SignatureOrigins.lean`
and `Properties/SignatureTwins.lean` study `Accepts` by itself.
-/

namespace CryptoCore

open ByteStrings

namespace Ecdsa

def sha256DigestSize : ℕ := 32

/-- The order of the group, and half of it rounded down, as the bytes that the comparisons of the
second component read. -/
def p256GroupOrder : List UInt8 :=
  [0xFF, 0xFF, 0xFF, 0xFF, 0x00, 0x00, 0x00, 0x00,
    0xFF, 0xFF, 0xFF, 0xFF, 0xFF, 0xFF, 0xFF, 0xFF,
    0xBC, 0xE6, 0xFA, 0xAD, 0xA7, 0x17, 0x9E, 0x84,
    0xF3, 0xB9, 0xCA, 0xC2, 0xFC, 0x63, 0x25, 0x51]

def p256GroupOrderHalf : List UInt8 :=
  [0x7F, 0xFF, 0xFF, 0xFF, 0x80, 0x00, 0x00, 0x00,
    0x7F, 0xFF, 0xFF, 0xFF, 0xFF, 0xFF, 0xFF, 0xFF,
    0xDE, 0x73, 0x7D, 0x56, 0xD3, 0x8B, 0xCF, 0x42,
    0x79, 0xDC, 0xE5, 0x61, 0x7E, 0x31, 0x92, 0xA8]

/-- The error of this file; the errors of the parsers and of the curve are passed on as they are. -/
def ecdsaError (code : ErrorCode) (message : String) : Error :=
  makeError code "ecdsa" message

/-- One HMAC computation of the generator, over a concatenated input. -/
def hmacSha256 (key input : List UInt8) : Result ByteBuffer := do
  let context := HmacContext.create .sha256 key
  require context.initialized (ecdsaError .providerError "failed to initialize RFC6979 HMAC")
  let (update, context) := context.update input
  update
  context.final.1

/-- The digest as octets below the order, which is how it enters the generator. -/
def bitsToOctets (digest : List UInt8) : Result ByteBuffer :=
  P256Fixed.scalarReduceFixed32 digest

/-! ## The low second component -/

/-- The last 32 bytes of a number, padded in front. -/
def fixed32 (value : List UInt8) : List UInt8 :=
  let copySize := min value.length 32
  List.replicate (32 - copySize) 0 ++ value.drop (value.length - copySize)

/-- The order of the standard library on byte strings. On strings of one length it is that of the
numbers. -/
def lexicographicalCompare : List UInt8 → List UInt8 → Bool
  | [], [] => false
  | [], _ :: _ => true
  | _ :: _, [] => false
  | l :: lhs, r :: rhs => l < r || (!(r < l) && lexicographicalCompare lhs rhs)

/-- The comparison of two numbers of 32 bytes, by their bytes. -/
def greaterThan32 (lhs rhs : List UInt8) : Bool :=
  lexicographicalCompare rhs lhs

/-- One byte of the subtraction: the difference and the new borrow. -/
def subtractByte (lhs rhs : UInt8) (borrow : UInt16) : UInt8 × UInt16 :=
  let left := lhs.toUInt16
  let right := rhs.toUInt16 + borrow
  if left ≥ right then ((left - right).toUInt8, 0)
  else ((left + 0x100 - right).toUInt8, 1)

/-- The loop runs from the last byte to the first. -/
def subtract32 (lhs rhs : List UInt8) : List UInt8 :=
  let (output, _) := (lhs.zip rhs).foldr
    (fun (left, right) (output, borrow) =>
      let (byte, borrow) := subtractByte left right borrow
      (byte :: output, borrow))
    (([], 0) : List UInt8 × UInt16)
  output

/-- The second component, replaced by its negative when it is above half of the order. -/
def lowS (s : List UInt8) : List UInt8 :=
  let fixed := fixed32 s
  if greaterThan32 fixed p256GroupOrderHalf then subtract32 p256GroupOrder fixed
  else fixed

end Ecdsa

/-! ## The generator -/

open Ecdsa

/-- The state of the generator: the key and the value of the standard's description. -/
structure Rfc6979P256Sha256 where
  k : List UInt8
  v : List UInt8

namespace Rfc6979P256Sha256

/-- The generator for a private scalar and a digest, after the two rounds of set-up. -/
def create (privateScalar digest : List UInt8) : Result Rfc6979P256Sha256 := do
  let digestOctets ← bitsToOctets digest
  let k := List.replicate sha256DigestSize 0x00
  let v := List.replicate sha256DigestSize 0x01
  let input := v ++ [0x00] ++ privateScalar ++ digestOctets
  let k ← hmacSha256 k input
  let v ← hmacSha256 k v
  let input := v ++ [0x01] ++ privateScalar ++ digestOctets
  let k ← hmacSha256 k input
  let v ← hmacSha256 k v
  return ⟨k, v⟩

/-- The next candidate. For this order and this hash one code is exactly as long as a candidate. -/
def next (nonce : Rfc6979P256Sha256) : Result (ByteBuffer × Rfc6979P256Sha256) := do
  let v ← hmacSha256 nonce.k nonce.v
  return (v, { nonce with v })

/-- The step between two candidates, with the byte zero in the input. -/
def reject (nonce : Rfc6979P256Sha256) : Result Rfc6979P256Sha256 := do
  let k ← hmacSha256 nonce.k (nonce.v ++ [0x00])
  let v ← hmacSha256 k nonce.v
  return ⟨k, v⟩

/-- A number of calls of `next`, with `reject` between them: what they return, and the state
after the last `reject`. -/
def candidates (nonce : Rfc6979P256Sha256) : ℕ → Result (List ByteBuffer × Rfc6979P256Sha256)
  | 0 => .ok ([], nonce)
  | count + 1 => do
      let (earlier, nonce) ← candidates nonce count
      let (candidate, nonce) ← nonce.next
      let nonce ← nonce.reject
      return (earlier ++ [candidate], nonce)

end Rfc6979P256Sha256

/-! ## Signing -/

namespace Ecdsa

/-- The loop over the attempts; `attempts` of them are left. -/
def signAttempts (privateScalar digest : List UInt8) :
    ℕ → Rfc6979P256Sha256 → Result ByteBuffer
  | 0, _ => .error (ecdsaError .providerError "failed to generate ECDSA signature")
  | attempts + 1, nonce => do
      let (kBytes, nonce) ← nonce.next
      let kValid ← P256Fixed.scalarIsValidNonzero kBytes
      -- A candidate that does not serve is rejected, which steps the generator and costs an
      -- attempt.
      if !kValid then
        signAttempts privateScalar digest attempts (← nonce.reject)
      else
        let point ← P256Fixed.basePointMultiply kBytes
        if point.infinity then
          signAttempts privateScalar digest attempts (← nonce.reject)
        else
          let r ← P256Fixed.xModOrder point
          let rValid ← P256Fixed.scalarIsValidNonzero r
          if !rValid then
            signAttempts privateScalar digest attempts (← nonce.reject)
          else
            let rd ← P256Fixed.scalarMultiplyMod r privateScalar
            let sum ← P256Fixed.scalarAddMod digest rd
            let kInverse ← P256Fixed.scalarInverse kBytes
            let s ← P256Fixed.scalarMultiplyMod kInverse sum
            let sValid ← P256Fixed.scalarIsValidNonzero s
            if !sValid then
              signAttempts privateScalar digest attempts (← nonce.reject)
            else
              let canonicalS := lowS s
              encodeEcdsaSignatureDer r canonicalS

/-- The number of candidates that signing tries before it gives up. -/
def maxAttempts : ℕ := 16

/-- The answer about a signature that cannot be read or is out of range: invalid, and no failure. -/
def invalidSignature : Result Bool := .ok false

def invalidPublicKey {α : Type} : Result α :=
  .error (ecdsaError .invalidKey "invalid P-256 public key")

/-- The point of a public key. Its coordinates were checked by the parser and are checked again
here. -/
def publicKeyPoint (publicKeyDer : List UInt8) : Result P256Point := do
  let publicKey ← parseP256PublicKeyDer publicKeyDer
  match P256Fixed.pointFromCoordinates publicKey.x publicKey.y with
  | .error _ => invalidPublicKey
  | .ok parsedPoint =>
      match P256Fixed.isOnCurve parsedPoint with
      | .error _ => invalidPublicKey
      | .ok onCurve => if onCurve then .ok parsedPoint else invalidPublicKey

end Ecdsa

/-- Signing a digest. The key is parsed and its scalar checked before the generator is set up. -/
def signEcdsaP256Sha256Digest (privateKeyDer digest : List UInt8) : Result ByteBuffer := do
  require (!(digest.length != sha256DigestSize))
    (ecdsaError .invalidArgument "SHA-256 digest must be 32 bytes")
  let privateKey ← parseP256PrivateKeyDer privateKeyDer
  let privateScalarValid ← P256Fixed.scalarIsValidNonzero privateKey.privateScalar
  require privateScalarValid (ecdsaError .invalidKey "invalid P-256 private scalar")
  let nonce ← Rfc6979P256Sha256.create privateKey.privateScalar digest
  signAttempts privateKey.privateScalar digest maxAttempts nonce

/-! ## Verifying -/

/-- What is left to do with a signature that could be read. -/
def Ecdsa.verifySignature (point : P256Point) (signature : EcdsaSignatureMaterial)
    (digest : List UInt8) : Result Bool := do
  let rValid ← P256Fixed.scalarIsValidNonzero signature.r
  if !rValid then invalidSignature
  else
    let sValid ← P256Fixed.scalarIsValidNonzero signature.s
    if !sValid then invalidSignature
    else
      match P256Fixed.scalarInverse signature.s with
      | .error _ => invalidSignature
      | .ok w => do
          let u1 ← P256Fixed.scalarMultiplyMod digest w
          let u2 ← P256Fixed.scalarMultiplyMod signature.r w
          let u1G ← P256Fixed.basePointMultiply u1
          let u2Q ← P256Fixed.scalarMultiply u2 point
          let rPoint ← P256Fixed.pointAdd u1G u2Q
          if rPoint.infinity then invalidSignature
          else
            let xModOrder ← P256Fixed.xModOrder rPoint
            return xModOrder == signature.r

/-- Verification of a signature over a digest. A key that cannot be parsed is a failure; a signature
that cannot be parsed is merely invalid. -/
def verifyEcdsaP256Sha256Digest (publicKeyDer signatureDer digest : List UInt8) : Result Bool := do
  require (!(digest.length != sha256DigestSize))
    (ecdsaError .invalidArgument "SHA-256 digest must be 32 bytes")
  let point ← publicKeyPoint publicKeyDer
  match parseEcdsaSignatureDer signatureDer with
  | .error _ => invalidSignature
  | .ok signature => verifySignature point signature digest

/-! ## What the byte operations compute -/

namespace Ecdsa

/-- The 32 bytes of a number that has no more. -/
lemma fixed32_eq {value : List UInt8} (h : value.length ≤ 32) :
    fixed32 value = beBytes 32 (beValue value) := by
  have hzero : beValue (List.replicate (32 - value.length) 0) = 0 := by
    rw [beValue_eq_zero_iff]
    simp
  rw [fixed32, min_eq_left h, Nat.sub_self, List.drop_zero]
  apply eq_beBytes
  · rw [List.length_append, List.length_replicate]
    omega
  · rw [beValue_append, hzero, zero_mul, zero_add]

/-- Byte strings of one length are ordered as their values. -/
lemma lexicographicalCompare_iff {lhs rhs : List UInt8} (h : lhs.length = rhs.length) :
    lexicographicalCompare lhs rhs = true ↔ beValue lhs < beValue rhs := by
  induction lhs generalizing rhs with
  | nil =>
      obtain rfl := List.length_eq_zero_iff.mp h.symm
      simp [lexicographicalCompare]
  | cons l lhs ih =>
      obtain _ | ⟨r, rhs⟩ := rhs
      · cases h
      · rw [List.length_cons, List.length_cons, Nat.succ_inj] at h
        have hl := beValue_lt lhs
        have hr := beValue_lt rhs
        rw [lexicographicalCompare, Bool.or_eq_true, Bool.and_eq_true, Bool.not_eq_true',
          decide_eq_true_iff, decide_eq_false_iff_not, ih h, beValue_cons, beValue_cons, h,
          UInt8.lt_iff_toNat_lt, UInt8.lt_iff_toNat_lt]
        rw [h] at hl
        set base := 256 ^ rhs.length
        constructor
        · rintro (hlt | ⟨hle, htail⟩)
          · have := Nat.mul_le_mul_right base (Nat.succ_le_of_lt hlt)
            rw [Nat.succ_mul] at this
            omega
          · have := Nat.mul_le_mul_right base (not_lt.mp hle)
            omega
        · intro hlt
          rcases lt_trichotomy l.toNat r.toNat with hhead | hhead | hhead
          · exact Or.inl hhead
          · rw [hhead] at hlt
            exact Or.inr ⟨by omega, by omega⟩
          · have := Nat.mul_le_mul_right base (Nat.succ_le_of_lt hhead)
            rw [Nat.succ_mul] at this
            omega

lemma subtractByte_spec (lhs rhs : UInt8) {borrow : UInt16} (h : borrow.toNat ≤ 1) :
    (subtractByte lhs rhs borrow).2.toNat ≤ 1 ∧
      (subtractByte lhs rhs borrow).1.toNat + rhs.toNat + borrow.toNat =
        lhs.toNat + 256 * (subtractByte lhs rhs borrow).2.toNat := by
  have hl := lhs.toNat_lt
  have hr := rhs.toNat_lt
  have hright : (rhs.toUInt16 + borrow).toNat = rhs.toNat + borrow.toNat := by
    rw [UInt16.toNat_add, UInt8.toNat_toUInt16]
    omega
  unfold subtractByte
  dsimp only
  split
  next hge =>
    rw [ge_iff_le, UInt16.le_iff_toNat_le, hright, UInt8.toNat_toUInt16] at hge
    have hdiff : (lhs.toUInt16 - (rhs.toUInt16 + borrow)).toNat =
        lhs.toNat - (rhs.toNat + borrow.toNat) := by
      rw [UInt16.toNat_sub_of_le _ _ (by
        rwa [UInt16.le_iff_toNat_le, hright, UInt8.toNat_toUInt16]), hright, UInt8.toNat_toUInt16]
    rw [UInt16.toNat_toUInt8, hdiff]
    exact ⟨Nat.zero_le _, by rw [UInt16.toNat_zero]; omega⟩
  next hlt =>
    rw [ge_iff_le, UInt16.le_iff_toNat_le, hright, UInt8.toNat_toUInt16] at hlt
    have hsum : (lhs.toUInt16 + 0x100).toNat = lhs.toNat + 256 := by
      rw [UInt16.toNat_add, UInt8.toNat_toUInt16, show (0x100 : UInt16).toNat = 256 from rfl]
      omega
    have hdiff : (lhs.toUInt16 + 0x100 - (rhs.toUInt16 + borrow)).toNat =
        lhs.toNat + 256 - (rhs.toNat + borrow.toNat) := by
      rw [UInt16.toNat_sub_of_le _ _ (by
        rw [UInt16.le_iff_toNat_le, hright, hsum]; omega), hright, hsum]
    rw [UInt16.toNat_toUInt8, hdiff]
    exact ⟨le_rfl, by rw [UInt16.toNat_one]; omega⟩

/-- The difference, with the borrow that is left in front. -/
lemma subtract_spec {lhs rhs : List UInt8} (h : lhs.length = rhs.length) :
    ∃ (output : List UInt8) (borrow : UInt16),
      (lhs.zip rhs).foldr
        (fun (left, right) (output, borrow) =>
          let (byte, borrow) := subtractByte left right borrow
          (byte :: output, borrow))
        (([], 0) : List UInt8 × UInt16) = (output, borrow) ∧
      output.length = lhs.length ∧ borrow.toNat ≤ 1 ∧
      beValue output + beValue rhs = beValue lhs + borrow.toNat * 256 ^ lhs.length := by
  induction lhs generalizing rhs with
  | nil =>
      obtain rfl := List.length_eq_zero_iff.mp h.symm
      exact ⟨[], 0, rfl, rfl, by decide, by simp⟩
  | cons l lhs ih =>
      obtain _ | ⟨r, rhs⟩ := rhs
      · cases h
      · rw [List.length_cons, List.length_cons, Nat.succ_inj] at h
        obtain ⟨output, borrow, hfold, hlen, hborrow, hvalue⟩ := ih h
        obtain ⟨hnew, hbyte⟩ := subtractByte_spec l r hborrow
        refine ⟨_, _, by rw [List.zip_cons_cons, List.foldr_cons, hfold], by simp [hlen], hnew, ?_⟩
        rw [beValue_cons, beValue_cons, beValue_cons, hlen, List.length_cons, ← h, pow_succ]
        set base := 256 ^ lhs.length
        set byte := (subtractByte l r borrow).1.toNat
        set carry := (subtractByte l r borrow).2.toNat
        calc byte * base + beValue output + (r.toNat * base + beValue rhs)
            = (byte + r.toNat) * base + (beValue output + beValue rhs) := by ring
          _ = (byte + r.toNat + borrow.toNat) * base + beValue lhs := by rw [hvalue]; ring
          _ = l.toNat * base + beValue lhs + carry * (base * 256) := by rw [hbyte]; ring

/-- The subtraction of byte strings is that of their values, for operands in order. -/
lemma subtract32_eq {lhs rhs : List UInt8} (h : lhs.length = rhs.length)
    (hle : beValue rhs ≤ beValue lhs) :
    subtract32 lhs rhs = beBytes lhs.length (beValue lhs - beValue rhs) := by
  obtain ⟨output, borrow, hfold, hlen, -, hvalue⟩ := subtract_spec h
  rw [subtract32, hfold]
  refine eq_beBytes hlen (show beValue output = beValue lhs - beValue rhs from ?_)
  have hlt := beValue_lt output
  rw [hlen] at hlt
  -- A borrow left in front would make the difference as long as the operands.
  have hzero : borrow.toNat = 0 := by
    by_contra hne
    have := Nat.le_mul_of_pos_left (256 ^ lhs.length) (Nat.pos_of_ne_zero hne)
    omega
  rw [hzero] at hvalue
  omega

open P256Curve

/-- The two constants are the order and its half, and the order is odd. -/
lemma order_values : beValue p256GroupOrder = n ∧ beValue p256GroupOrderHalf = n / 2 ∧
    n % 2 = 1 := by
  decide +kernel

/-- The component is replaced by its negative when that is smaller, so that the result is the
smaller of the two in 32 bytes. -/
theorem lowS_minBeBytes {s : ℕ} (h : s < n) :
    lowS (minBeBytes s) = beBytes 32 (min s (n - s)) := by
  obtain ⟨horder, hhalf, hodd⟩ := order_values
  have hlt : s < 256 ^ 32 := h.trans n_lt
  have hfixed : fixed32 (minBeBytes s) = beBytes 32 s := by
    rw [fixed32_eq ((length_minBeBytes_le_iff (by norm_num)).mpr hlt), beValue_minBeBytes]
  have hgreater : greaterThan32 (beBytes 32 s) p256GroupOrderHalf = true ↔ n / 2 < s := by
    rw [greaterThan32, lexicographicalCompare_iff (by rw [length_beBytes]; rfl), hhalf,
      beValue_beBytes hlt]
  rw [lowS, hfixed]
  split
  next hhigh =>
    rw [hgreater] at hhigh
    have hvalue := beValue_beBytes hlt
    rw [subtract32_eq (by rw [length_beBytes]; rfl) (by rw [hvalue, horder]; exact h.le), hvalue,
      horder, min_eq_right (by omega)]
    rfl
  next hlow =>
    rw [hgreater] at hlow
    rw [min_eq_left (by omega)]

end Ecdsa

/-! ## What the generator computes -/

namespace Rfc6979P256Sha256

open P256Curve

/-- The HMAC of the generator never fails, whatever the length of its input. -/
lemma hmacSha256_eq (key input : List UInt8) :
    hmacSha256 key input = .ok (hmacOf .sha256 key input) := by
  obtain ⟨next, hnext, hafter⟩ := (HmacContext.after_create .sha256 key).update input
  obtain ⟨closed, hclosed, _⟩ := hafter.final
  simp only [hmacSha256, (HmacContext.after_create .sha256 key).initialized, require_true, ok_bind,
    hnext, hclosed, List.nil_append]

/-- A state of the generator that the library describes, in the words of the source. -/
def ofState (state : DeterministicNonces.State) : Rfc6979P256Sha256 :=
  ⟨state.key, state.value⟩

/-- The order has 256 bits, so that digests of 32 bytes are neither cut nor shifted. -/
lemma size_n : n.size = 256 := by
  have hle : n.size ≤ 256 := Nat.size_le.mpr n_lt
  have hlt : 255 < n.size := Nat.lt_size.mpr (by decide +kernel)
  omega

lemma octetLength_n : DeterministicNonces.octetLength n = 32 := by
  rw [DeterministicNonces.octetLength, size_n]

lemma bits2int_of_length {bits : List UInt8} (h : bits.length = 32) :
    DeterministicNonces.bits2int n bits = beValue bits := by
  rw [DeterministicNonces.bits2int, size_n, h]
  exact Nat.div_one _

/-- The two octet strings that the key is first made from. -/
lemma secret_eq {scalar digest : List UInt8} (hscalar : scalar.length = 32)
    (hdigest : digest.length = 32) :
    DeterministicNonces.int2octets n (beValue scalar) = scalar ∧
      DeterministicNonces.bits2octets n digest = beBytes 32 (beValue digest % n) := by
  rw [DeterministicNonces.bits2octets, DeterministicNonces.int2octets,
    DeterministicNonces.int2octets, octetLength_n, bits2int_of_length hdigest]
  refine ⟨?_, rfl⟩
  have hbytes := beBytes_beValue scalar
  rwa [hscalar] at hbytes

/-- The set-up of the source is that of the library for 32-byte scalars and digests. -/
theorem create_eq {scalar digest : List UInt8} (hscalar : scalar.length = 32)
    (hdigest : digest.length = 32) :
    create scalar digest =
      .ok (ofState (DeterministicNonces.start n (hmacOf .sha256) 32 (beValue scalar) digest)) := by
  have hvalue : beValue digest < 2 ^ 256 := by
    have := beValue_lt digest
    rwa [hdigest] at this
  obtain ⟨hx, hh⟩ := secret_eq hscalar hdigest
  simp only [create, bitsToOctets, P256Fixed.scalarReduceFixed32_eq hvalue, ok_bind,
    hmacSha256_eq, DeterministicNonces.start, hx, hh, List.append_assoc, sha256DigestSize]
  rfl

/-- One code is as long as the order, so that a candidate takes one round. -/
lemma rounds_n : DeterministicNonces.rounds n 32 = 1 := by
  rw [DeterministicNonces.rounds, size_n]

lemma next_eq (state : DeterministicNonces.State) :
    DeterministicNonces.next n (hmacOf .sha256) 32 state =
      (beValue (hmacOf .sha256 state.key state.value),
        ⟨state.key, hmacOf .sha256 state.key state.value⟩) := by
  have hlen : (hmacOf .sha256 state.key state.value).length = 32 := length_hmacOf .sha256 _ _
  simp only [DeterministicNonces.next, rounds_n, DeterministicNonces.collect, List.nil_append,
    bits2int_of_length hlen]

/-- The next candidate of the source is that of the library, as 32 bytes. -/
theorem next_ofState (state : DeterministicNonces.State) :
    (ofState state).next =
      .ok (beBytes 32 (DeterministicNonces.next n (hmacOf .sha256) 32 state).1,
        ofState (DeterministicNonces.next n (hmacOf .sha256) 32 state).2) := by
  have hbytes := beBytes_beValue (hmacOf .sha256 state.key state.value)
  rw [length_hmacOf .sha256, show digestSize .sha256 = 32 from rfl] at hbytes
  rw [next_eq, hbytes, next, ofState, hmacSha256_eq, ok_bind]
  rfl

/-- A candidate has at most 256 bits, with no further reduction. -/
lemma candidateFrom_lt (state : DeterministicNonces.State) (i : ℕ) :
    DeterministicNonces.candidateFrom n (hmacOf .sha256) 32 state i < 2 ^ 256 := by
  have hlt : ∀ key value, beValue (hmacOf .sha256 key value) < 2 ^ 256 := by
    intro key value
    have := beValue_lt (hmacOf .sha256 key value)
    rwa [length_hmacOf .sha256] at this
  rw [DeterministicNonces.candidateFrom, next_eq]
  exact hlt _ _

/-- The step between two candidates is that of the library. -/
theorem reject_ofState (state : DeterministicNonces.State) :
    (ofState state).reject =
      .ok (ofState (DeterministicNonces.reject (hmacOf .sha256) state)) := by
  simp only [reject, hmacSha256_eq, ok_bind, ofState, DeterministicNonces.reject]
  rfl

/-- The calls of the source return the candidates of the generator. -/
theorem candidates_ofState (state : DeterministicNonces.State) (count : ℕ) :
    (ofState state).candidates count =
      .ok ((List.range count).map fun i =>
          beBytes 32 (DeterministicNonces.candidateFrom n (hmacOf .sha256) 32 state i),
        ofState (DeterministicNonces.stateAt n (hmacOf .sha256) 32 state count)) := by
  induction count with
  | zero => rfl
  | succ count ih =>
      rw [candidates, ih]
      simp only [ok_bind, next_ofState, reject_ofState, List.range_succ, List.map_append,
        List.map_singleton]
      rfl

end Rfc6979P256Sha256

/-! ## Signatures and the nonces that serve -/

namespace Ecdsa

open P256Curve

/-- The first component for a nonce: zero where there is none, so that the definition is total. -/
noncomputable def nonceR (k : ℕ) : ℕ :=
  (xModN (k • G)).getD 0

/-- The second component for a scalar, a hash and a nonce. -/
noncomputable def nonceS (d e k : ℕ) : ℕ :=
  ((k : ZMod n)⁻¹ * ((e : ZMod n) + (nonceR k : ZMod n) * (d : ZMod n))).val

/-- The nonces that give a signature: they are in range, and neither of the two numbers is zero. -/
structure Serves (d e k : ℕ) : Prop where
  pos : 0 < k
  lt : k < n
  r_ne_zero : nonceR k ≠ 0
  s_ne_zero : nonceS d e k ≠ 0

lemma nonceR_lt (k : ℕ) : nonceR k < n := by
  rw [nonceR]
  cases k • G with
  | zero => exact prime_n.pos
  | some x y h => exact Nat.mod_lt _ prime_n.pos

lemma nonceS_lt (d e k : ℕ) : nonceS d e k < n :=
  ZMod.val_lt _

/-- The encoding of the signature that a nonce gives, with the second number in the lower half. -/
noncomputable def signatureWith (d e k : ℕ) : List UInt8 :=
  EcDer.signatureDer (nonceR k) (min (nonceS d e k) (n - nonceS d e k))

/-- A nonce in range gives a finite point, whose coordinate is its first component. -/
lemma xModN_eq_some {k : ℕ} (hpos : 0 < k) (hlt : k < n) :
    (encodePoint (k • G)).infinity = false ∧ xModN (k • G) = some (nonceR k) := by
  have hne : k • G ≠ 0 := by
    rw [Ne, nsmul_G_eq_zero_iff]
    exact Nat.not_dvd_of_pos_of_lt hpos hlt
  rw [← Bool.not_eq_true, encodePoint_infinity_iff, nonceR]
  refine ⟨hne, ?_⟩
  cases hP : k • G with
  | zero => exact absurd hP hne
  | some x y h => rfl

/-- What the inversion of the source returns, as an inverse of residues. -/
lemma scalarInverse_ok {k : List UInt8} (hpos : 0 < beValue k) (hlt : beValue k < n) :
    P256Fixed.scalarInverse k = .ok (minBeBytes ((beValue k : ZMod n)⁻¹).val) := by
  have hne : beValue k % n ≠ 0 := by
    rw [Nat.mod_eq_of_lt hlt]
    exact hpos.ne'
  rw [P256Fixed.scalarInverse_eq (hlt.trans n_lt), if_neg hne,
    ← Primality.pow_sub_two_eq_inv (by decide +kernel), ← ZMod.val_natCast, Nat.cast_pow,
    ZMod.natCast_mod]

lemma val_lt_two_pow (v : ZMod n) : v.val < 2 ^ 256 :=
  (ZMod.val_lt v).trans n_lt

/-- What the multiplications of the source return, as a residue. -/
lemma scalarMultiplyMod_ok {lhs rhs : List UInt8} (hl : beValue lhs < 2 ^ 256)
    (hr : beValue rhs < 2 ^ 256) :
    P256Fixed.scalarMultiplyMod lhs rhs =
      .ok (minBeBytes ((beValue lhs : ZMod n) * (beValue rhs : ZMod n)).val) := by
  rw [P256Fixed.scalarMultiplyMod_eq hl hr, ← ZMod.val_natCast, Nat.cast_mul]

/-- What the addition of the source returns, as a residue. -/
lemma scalarAddMod_ok {lhs rhs : List UInt8} (hl : beValue lhs < 2 ^ 256)
    (hr : beValue rhs < 2 ^ 256) :
    P256Fixed.scalarAddMod lhs rhs =
      .ok (minBeBytes ((beValue lhs : ZMod n) + (beValue rhs : ZMod n)).val) := by
  rw [P256Fixed.scalarAddMod_eq hl hr, ← ZMod.val_natCast, Nat.cast_add]

variable {scalar digest : List UInt8} {nonce accepted rejected : Rfc6979P256Sha256}
  {kBytes : ByteBuffer}

open Classical in
/-- One attempt: a nonce that serves ends the loop, any other is rejected. -/
theorem signAttempts_succ (hscalar : EcDer.ValidPrivateScalar scalar) (hdigest : digest.length = 32)
    (hnext : nonce.next = .ok (kBytes, accepted)) (hreject : accepted.reject = .ok rejected)
    (attempts : ℕ) :
    signAttempts scalar digest (attempts + 1) nonce =
      if Serves (beValue scalar) (beValue digest) (beValue kBytes) then
        .ok (signatureWith (beValue scalar) (beValue digest) (beValue kBytes))
      else signAttempts scalar digest attempts rejected := by
  have hdlt : beValue scalar < 2 ^ 256 := hscalar.lt.trans n_lt
  have helt : beValue digest < 2 ^ 256 := by
    have := beValue_lt digest
    rwa [hdigest] at this
  rw [signAttempts, hnext]
  simp only [ok_bind, P256Fixed.scalarIsValidNonzero_eq, P256Fixed.basePointMultiply_eq]
  -- The three tests below are the places at which the source rejects a candidate and goes on to the
  -- next one; each is one condition of `Serves`.
  by_cases hk : 0 < beValue kBytes ∧ beValue kBytes < n
  swap
  · have hserves : ¬ Serves (beValue scalar) (beValue digest) (beValue kBytes) :=
      fun h => hk ⟨h.pos, h.lt⟩
    rw [decide_eq_false hk, if_neg hserves, Bool.not_false, if_pos rfl, hreject, ok_bind]
  obtain ⟨hpos, hlt⟩ := hk
  obtain ⟨hfinite, hr⟩ := xModN_eq_some hpos hlt
  have hrlt := nonceR_lt (beValue kBytes)
  rw [decide_eq_true ⟨hpos, hlt⟩, Bool.not_true, if_neg Bool.false_ne_true, hfinite,
    if_neg Bool.false_ne_true, P256Fixed.xModOrder_encodePoint hr, ok_bind, beValue_minBeBytes]
  by_cases hr0 : nonceR (beValue kBytes) = 0
  · have hserves : ¬ Serves (beValue scalar) (beValue digest) (beValue kBytes) :=
      fun h => h.r_ne_zero hr0
    rw [decide_eq_false (by omega), if_neg hserves, Bool.not_false, if_pos rfl, hreject, ok_bind]
  rw [decide_eq_true ⟨Nat.pos_of_ne_zero hr0, hrlt⟩, Bool.not_true, if_neg Bool.false_ne_true,
    scalarMultiplyMod_ok (by rw [beValue_minBeBytes]; exact hrlt.trans n_lt) hdlt, ok_bind,
    scalarAddMod_ok helt (by rw [beValue_minBeBytes]; exact val_lt_two_pow _), ok_bind,
    scalarInverse_ok hpos hlt, ok_bind,
    scalarMultiplyMod_ok (by rw [beValue_minBeBytes]; exact val_lt_two_pow _)
      (by rw [beValue_minBeBytes]; exact val_lt_two_pow _), ok_bind]
  simp only [beValue_minBeBytes, ZMod.natCast_zmod_val]
  rw [← nonceS]
  have hslt := nonceS_lt (beValue scalar) (beValue digest) (beValue kBytes)
  by_cases hs0 : nonceS (beValue scalar) (beValue digest) (beValue kBytes) = 0
  · have hserves : ¬ Serves (beValue scalar) (beValue digest) (beValue kBytes) :=
      fun h => h.s_ne_zero hs0
    rw [decide_eq_false (by omega), if_neg hserves, Bool.not_false, if_pos rfl, hreject, ok_bind]
  -- What is encoded is the smaller of `s` and `n - s`.
  have hlow : min (nonceS (beValue scalar) (beValue digest) (beValue kBytes))
      (n - nonceS (beValue scalar) (beValue digest) (beValue kBytes)) < 2 ^ 256 :=
    lt_of_le_of_lt (min_le_left _ _) (hslt.trans n_lt)
  have hencode := EcDer.encodeEcdsaSignatureDer_eq (r := minBeBytes (nonceR (beValue kBytes)))
    (s := lowS (minBeBytes (nonceS (beValue scalar) (beValue digest) (beValue kBytes))))
  rw [lowS_minBeBytes hslt, beValue_minBeBytes, beValue_beBytes hlow] at hencode
  rw [decide_eq_true ⟨Nat.pos_of_ne_zero hs0, hslt⟩, Bool.not_true, if_neg Bool.false_ne_true,
    if_pos ⟨hpos, hlt, hr0, hs0⟩, lowS_minBeBytes hslt]
  exact hencode (EcDer.length_signatureBody_lt (hrlt.trans n_lt) hlow)

open Classical in
/-- The signature that an attempt gives, if its candidate serves. -/
noncomputable def attempt (d e : ℕ) (candidate : ℕ → ℕ) (i : ℕ) : Option (List UInt8) :=
  if Serves d e (candidate i) then some (signatureWith d e (candidate i)) else none

lemma attempt_of_serves {d e : ℕ} {candidate : ℕ → ℕ} {i : ℕ} (h : Serves d e (candidate i)) :
    attempt d e candidate i = some (signatureWith d e (candidate i)) :=
  if_pos h

/-- A candidate that does not serve gives nothing, and only such a one does. -/
lemma attempt_eq_none_iff {d e : ℕ} {candidate : ℕ → ℕ} {i : ℕ} :
    attempt d e candidate i = none ↔ ¬ Serves d e (candidate i) := by
  rw [attempt]
  split
  next h => simp [h]
  next h => simp [h]

/-- The loop returns the first success among its attempts, and the error of the source if there is
none. -/
theorem signAttempts_eq (hscalar : EcDer.ValidPrivateScalar scalar) (hdigest : digest.length = 32)
    (start : DeterministicNonces.State) (first attempts : ℕ) :
    signAttempts scalar digest attempts (Rfc6979P256Sha256.ofState
        (DeterministicNonces.stateAt n (hmacOf .sha256) 32 start first)) =
      match DeterministicNonces.firstSuccess (attempt (beValue scalar) (beValue digest)
          (DeterministicNonces.candidateFrom n (hmacOf .sha256) 32 start)) first attempts with
      | some signature => .ok signature
      | none => .error (ecdsaError .providerError "failed to generate ECDSA signature") := by
  induction attempts generalizing first with
  | zero => rfl
  | succ attempts ih =>
      have hbytes := beValue_beBytes (w := 32) (Rfc6979P256Sha256.candidateFrom_lt start first)
      rw [DeterministicNonces.candidateFrom] at hbytes
      rw [signAttempts_succ hscalar hdigest (Rfc6979P256Sha256.next_ofState _)
        (Rfc6979P256Sha256.reject_ofState _), DeterministicNonces.firstSuccess_succ, hbytes,
        attempt,
        DeterministicNonces.candidateFrom]
      split
      · rfl
      · rw [Option.none_or]
        exact ih (first + 1)

/-- Signing with an accepted key: the first of the attempts that gives a signature. No other error
is possible once the key has been parsed. -/
theorem sign_eq {privateKeyDer : List UInt8} {key : EcPrivateKeyMaterial}
    (hkey : parseP256PrivateKeyDer privateKeyDer = .ok key)
    (hscalar : EcDer.ValidPrivateScalar key.privateScalar) (hdigest : digest.length = 32) :
    signEcdsaP256Sha256Digest privateKeyDer digest =
      match DeterministicNonces.firstSuccess
          (attempt (beValue key.privateScalar) (beValue digest)
            (DeterministicNonces.candidate n (hmacOf .sha256) 32 (beValue key.privateScalar)
              digest))
          0 maxAttempts with
      | some signature => .ok signature
      | none => .error (ecdsaError .providerError "failed to generate ECDSA signature") := by
  have hsize : (!(digest.length != sha256DigestSize)) = true := by
    rw [hdigest]
    rfl
  have hvalid : decide (0 < beValue key.privateScalar ∧ beValue key.privateScalar < n) = true :=
    decide_eq_true ⟨hscalar.pos, hscalar.lt⟩
  rw [signEcdsaP256Sha256Digest, hsize, require_true, ok_bind, hkey, ok_bind,
    P256Fixed.scalarIsValidNonzero_eq, hvalid, ok_bind, require_true, ok_bind,
    Rfc6979P256Sha256.create_eq hscalar.length hdigest, ok_bind]
  exact signAttempts_eq hscalar hdigest _ 0 maxAttempts

/-! ## What verification decides -/

/-- The signatures of a hash under a public point: both components in range and the equation of the
scheme. It is the specification of verification, with no byte in it. -/
structure Accepts (Q : Point) (e r s : ℕ) : Prop where
  r_pos : 0 < r
  r_lt : r < n
  s_pos : 0 < s
  s_lt : s < n
  x_eq : xModN (((e : ZMod n) * (s : ZMod n)⁻¹).val • G +
    ((r : ZMod n) * (s : ZMod n)⁻¹).val • Q) = some r

/-- The multiples of a public point, for scalars of any length. -/
lemma scalarMultiply_encodePoint (k : List UInt8) (Q : Point) :
    P256Fixed.scalarMultiply k (encodePoint Q) = .ok (encodePoint (beValue k • Q)) := by
  have h := P256Fixed.scalarMultiply_toOption k (encodePoint Q)
  rw [decodePoint_encodePoint] at h
  exact toOption_eq_some.mp h

open Classical in
/-- Behind the parsing, verification decides `Accepts`. Infinity as the sum of the two multiples is
one of the ways of not accepting. -/
theorem verifySignature_eq (Q : Point) (hdigest : digest.length = 32) (r s : ℕ) :
    verifySignature (encodePoint Q) ⟨minBeBytes r, minBeBytes s⟩ digest =
      .ok (decide (Accepts Q (beValue digest) r s)) := by
  have helt : beValue digest < 2 ^ 256 := by
    have := beValue_lt digest
    rwa [hdigest] at this
  rw [verifySignature]
  simp only [P256Fixed.scalarIsValidNonzero_eq, ok_bind, beValue_minBeBytes]
  -- A component out of range makes the signature invalid, not the call an error.
  by_cases hr : 0 < r ∧ r < n
  swap
  · have haccepts : ¬ Accepts Q (beValue digest) r s := fun h => hr ⟨h.r_pos, h.r_lt⟩
    rw [decide_eq_false hr, decide_eq_false haccepts]
    rfl
  rw [decide_eq_true hr, Bool.not_true, if_neg Bool.false_ne_true]
  by_cases hs : 0 < s ∧ s < n
  swap
  · have haccepts : ¬ Accepts Q (beValue digest) r s := fun h => hs ⟨h.s_pos, h.s_lt⟩
    rw [decide_eq_false hs, decide_eq_false haccepts]
    rfl
  have hinverse : P256Fixed.scalarInverse (minBeBytes s) =
      .ok (minBeBytes ((s : ZMod n)⁻¹).val) := by
    have h := scalarInverse_ok (k := minBeBytes s)
    rw [beValue_minBeBytes] at h
    exact h hs.1 hs.2
  have hw : beValue (minBeBytes ((s : ZMod n)⁻¹).val) < 2 ^ 256 := by
    rw [beValue_minBeBytes]
    exact val_lt_two_pow _
  rw [decide_eq_true hs, Bool.not_true, if_neg Bool.false_ne_true, hinverse]
  simp only
  rw [scalarMultiplyMod_ok helt hw, ok_bind,
    scalarMultiplyMod_ok (by rw [beValue_minBeBytes]; exact hr.2.trans n_lt) hw, ok_bind,
    P256Fixed.basePointMultiply_eq, ok_bind, scalarMultiply_encodePoint, ok_bind,
    P256Fixed.pointAdd_encodePoint, ok_bind]
  simp only [beValue_minBeBytes, ZMod.natCast_zmod_val]
  -- The point that both products and their sum come to, whatever bytes carry them.
  set R := ((beValue digest : ZMod n) * (s : ZMod n)⁻¹).val • G +
    ((r : ZMod n) * (s : ZMod n)⁻¹).val • Q with hR
  cases hx : xModN R with
  | none =>
      have haccepts : ¬ Accepts Q (beValue digest) r s := by
        intro h
        have heq := h.x_eq
        rw [← hR, hx] at heq
        cases heq
      have hzero : R = 0 := by
        cases hzero : R with
        | zero => rfl
        | some x y h =>
            rw [hzero] at hx
            cases hx
      rw [(encodePoint_infinity_iff R).mpr hzero, if_pos rfl, decide_eq_false haccepts]
      rfl
  | some x =>
      have hfinite : (encodePoint R).infinity = false := by
        rw [← Bool.not_eq_true, encodePoint_infinity_iff]
        intro hzero
        rw [hzero] at hx
        cases hx
      have haccepts : Accepts Q (beValue digest) r s ↔ x = r := by
        constructor
        · intro h
          have heq := h.x_eq
          rw [← hR, hx] at heq
          exact Option.some.inj heq
        · rintro rfl
          exact ⟨hr.1, hr.2, hs.1, hs.2, by rw [← hR, hx]⟩
      rw [hfinite, if_neg Bool.false_ne_true, P256Fixed.xModOrder_encodePoint hx, ok_bind]
      refine congrArg Except.ok ?_
      rw [Bool.eq_iff_iff, decide_eq_true_iff, haccepts, beq_iff_eq]
      exact ⟨fun h => minBeBytes_injective h, fun h => by rw [h]⟩

/-- The point of an accepted public key, which verification decodes without an error. -/
theorem publicKeyPoint_eq {publicKeyDer : List UInt8} {key : EcPublicKeyMaterial}
    (h : parseP256PublicKeyDer publicKeyDer = .ok key) :
    ∃ Q : Point, encodePoint Q = ⟨key.x, key.y, false⟩ ∧
      publicKeyPoint publicKeyDer = .ok (encodePoint Q) := by
  obtain ⟨hkey, -⟩ := EcDer.parseP256PublicKey_eq_ok_iff.mp h
  obtain ⟨x, y, hcurve, rfl⟩ := EcDer.validPublicPoint_iff.mp hkey
  have hencode := encodePoint_of_isAt (isAt_pointAt hcurve)
  refine ⟨pointAt hcurve, hencode, ?_⟩
  have hpoint : P256Fixed.pointFromCoordinates (coordinateBytes x) (coordinateBytes y) =
      .ok (encodePoint (pointAt hcurve)) := by
    rw [← toOption_eq_some, P256Fixed.pointFromCoordinates_toOption,
      decodePoint_of_isAt (isAt_pointAt hcurve), Option.map_some]
  have honcurve : P256Fixed.isOnCurve (encodePoint (pointAt hcurve)) = .ok true := by
    rw [← toOption_eq_some, P256Fixed.isOnCurve_toOption, hencode, if_neg Bool.false_ne_true,
      coordinateOf_coordinateBytes, coordinateOf_coordinateBytes]
    exact congrArg some (decide_eq_true hcurve)
  rw [publicKeyPoint, h, ok_bind]
  simp only [hpoint, honcurve, if_true]

open Classical in
/-- With an accepted key and a hash of the right size, verification decides and never fails: it
accepts the canonical encodings of the pairs that satisfy the equation. -/
theorem verify_eq {publicKeyDer : List UInt8} {Q : Point}
    (hpoint : publicKeyPoint publicKeyDer = .ok (encodePoint Q)) (hdigest : digest.length = 32)
    (signatureDer : List UInt8) :
    verifyEcdsaP256Sha256Digest publicKeyDer signatureDer digest =
      .ok (decide (∃ r s : ℕ, signatureDer = EcDer.signatureDer r s ∧
        Accepts Q (beValue digest) r s)) := by
  have hsize : (!(digest.length != sha256DigestSize)) = true := by
    rw [hdigest]
    rfl
  rw [verifyEcdsaP256Sha256Digest, hsize, require_true, ok_bind, hpoint, ok_bind]
  cases hparse : parseEcdsaSignatureDer signatureDer with
  | error e =>
      have hnone : ¬ ∃ r s : ℕ, signatureDer = EcDer.signatureDer r s ∧
          Accepts Q (beValue digest) r s := by
        rintro ⟨r, s, hder, h⟩
        have hbody := EcDer.length_signatureBody_lt (h.r_lt.trans n_lt) (h.s_lt.trans n_lt)
        rw [parseEcdsaSignatureDer,
          EcDer.parseEcdsaSignature_eq_ok_iff.mpr ⟨r, s, rfl, hbody, hder⟩] at hparse
        cases hparse
      rw [decide_eq_false hnone]
      rfl
  | ok signature =>
      obtain ⟨r, s, rfl, hbody, hder⟩ := EcDer.parseEcdsaSignature_eq_ok_iff.mp hparse
      simp only [verifySignature_eq Q hdigest]
      refine congrArg Except.ok ?_
      rw [decide_eq_decide]
      constructor
      · intro h
        exact ⟨r, s, hder, h⟩
      · rintro ⟨r', s', hder', h⟩
        have hbody' := EcDer.length_signatureBody_lt (h.r_lt.trans n_lt) (h.s_lt.trans n_lt)
        rw [parseEcdsaSignatureDer,
          EcDer.parseEcdsaSignature_eq_ok_iff.mpr ⟨r', s', rfl, hbody', hder'⟩] at hparse
        simp only [Except.ok.injEq, EcdsaSignatureMaterial.mk.injEq] at hparse
        rwa [← minBeBytes_injective hparse.1, ← minBeBytes_injective hparse.2]

end Ecdsa

end CryptoCore
