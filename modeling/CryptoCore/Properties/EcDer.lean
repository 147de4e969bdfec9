import CryptoCore.Construction.EcDer

/-!
# The P-256 containers

Each parser accepts exactly the encodings of its container, and reading a signature is the inverse
of writing one.

For the keys the encodings are written down beside the parsers, and the theorem has one equivalence
for each of the three containers. The parts of the SEC1 structure that may be missing appear as
Boolean arguments of the encoding, so that one sees which of them each container may lack: the curve
has to be named where the structure stands alone, and may be where the algorithm identifier around
it names it already. The point of the public key may always be missing; where it is there, it is the
one of the scalar.

A signature is a pair of numbers. The writer takes them as byte strings of any length and with any
leading zeros, the empty string included, and drops the zeros; `stripped` is what the reader gives
back. The length bound is that of the machine: an encoding of `2 ^ 64` bytes cannot be a vector.
-/

namespace CryptoCore

open ByteStrings EcDer P256Curve

/-! ## Keys -/

/-- The key parsers accept the encodings of the valid keys, with the explicit curve required where
the SEC1 structure stands alone and optional inside a PKCS#8 one, and an explicit public key only
where it belongs to the scalar. -/
theorem p256_keys_exact :
    (∀ (der : List UInt8) (key : EcPublicKeyMaterial),
      parseP256PublicKeyDer der = .ok key ↔ ValidPublicPoint key ∧ der = spkiPublicKey key) ∧
    (∀ (der : List UInt8) (key : EcPrivateKeyMaterial),
      parseP256Sec1PrivateKeyDer der = .ok key ↔
        ValidPrivateScalar key.privateScalar ∧
          ∃ publicKey : Bool, der = sec1PrivateKey key.privateScalar true publicKey) ∧
    (∀ (der : List UInt8) (key : EcPrivateKeyMaterial),
      parseP256Pkcs8PrivateKeyDer der = .ok key ↔
        ValidPrivateScalar key.privateScalar ∧ ∃ parameters publicKey : Bool,
          der = pkcs8PrivateKey (sec1PrivateKey key.privateScalar parameters publicKey)) := by
  refine ⟨fun der key => parseP256PublicKey_eq_ok_iff, fun der key => ?_,
    fun der key => parsePkcs8P256PrivateKey_eq_ok_iff⟩
  rw [parseP256Sec1PrivateKeyDer, parseSec1P256PrivateKey_eq_ok_iff]
  constructor
  · rintro ⟨hkey, parameters, publicKey, hrequired, hder⟩
    rw [hrequired rfl] at hder
    exact ⟨hkey, publicKey, hder⟩
  · rintro ⟨hkey, publicKey, hder⟩
    exact ⟨hkey, true, publicKey, fun _ => rfl, hder⟩

/-! ## Signatures -/

/-- A number without its leading zero bytes; zero, and the empty byte string, is one zero byte. -/
def stripped (bytes : List UInt8) : List UInt8 :=
  if bytes.dropWhile (· == 0) = [] then [0] else bytes.dropWhile (· == 0)

lemma stripped_eq (bytes : List UInt8) : stripped bytes = minBeBytes (beValue bytes) :=
  (minBeBytes_beValue bytes).symm

/-- Writing and reading are inverse to each other. Writing succeeds for any two byte strings, also
for empty ones and for ones with leading zeros, and what it writes, when its length is one that the
machine can hold, is read back as the same two numbers without their leading zeros. What is read is
written again as it was. So no two byte strings are read as the same signature. -/
theorem ecdsaSignature_roundTrip :
    (∀ r s : List UInt8, ∃ der, encodeEcdsaSignatureDer r s = .ok der ∧
      (der.length < 2 ^ 64 → parseEcdsaSignatureDer der = .ok ⟨stripped r, stripped s⟩)) ∧
    (∀ (der : List UInt8) (signature : EcdsaSignatureMaterial),
      parseEcdsaSignatureDer der = .ok signature →
        encodeEcdsaSignatureDer signature.r signature.s = .ok der) ∧
    (∀ (der der' : List UInt8) (signature : EcdsaSignatureMaterial),
      parseEcdsaSignatureDer der = .ok signature →
        parseEcdsaSignatureDer der' = .ok signature → der = der') := by
  have hread : ∀ {r s der : List UInt8}, encodeEcdsaSignatureDer r s = .ok der →
      der.length < 2 ^ 64 → parseEcdsaSignatureDer der = .ok ⟨stripped r, stripped s⟩ := by
    intro r s der h hder
    obtain ⟨hbody, rfl⟩ := eq_signatureDer_of_encode h hder
    refine parseEcdsaSignature_eq_ok_iff.mpr ⟨beValue r, beValue s, ?_, hbody, rfl⟩
    rw [stripped_eq, stripped_eq]
  have hwritten : ∀ (der : List UInt8) (signature : EcdsaSignatureMaterial),
      parseEcdsaSignatureDer der = .ok signature →
        encodeEcdsaSignatureDer signature.r signature.s = .ok der := by
    intro der signature h
    obtain ⟨r, s, rfl, hbody, rfl⟩ := parseEcdsaSignature_eq_ok_iff.mp h
    have hencode := encodeEcdsaSignatureDer_eq (r := minBeBytes r) (s := minBeBytes s)
      (by rwa [beValue_minBeBytes, beValue_minBeBytes])
    rwa [beValue_minBeBytes, beValue_minBeBytes] at hencode
  refine ⟨fun r s => ?_, hwritten, fun der der' signature h h' => ?_⟩
  · -- the writer has no error path, so there is always something to read back
    obtain ⟨der, hder⟩ : ∃ der, encodeEcdsaSignatureDer r s = .ok der := ⟨_, rfl⟩
    exact ⟨der, hder, hread hder⟩
  · have hder := hwritten der signature h
    rw [hwritten der' signature h'] at hder
    exact (Except.ok.inj hder).symm

end CryptoCore
