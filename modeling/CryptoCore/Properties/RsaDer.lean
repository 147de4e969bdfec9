import CryptoCore.Construction.RsaDer

/-!
# The RSA containers

Each parser accepts exactly the encodings of its container around a key that satisfies the
arithmetic.

The statement has one equivalence for each of the four containers: a public or a private key, on its
own or inside the structure that names the algorithm. On the right are the conditions on the key,
which are the same for both containers of a kind, and the encoding, which is a function of the key.
So a key has one encoding in each container, and a byte string is read as at most one key.

`ValidPublicKey` and `ValidPrivateKey` have the checks of the fields, such as an odd modulus above
one, and for a private key the six relations between its numbers. The relations are computed by the
parser with its own integers; that this computation decides them is part of the construction. What
is not among them is that the two factors of the modulus are prime, which no parser checks. The
length of the input is bounded because a reader with 64-bit sizes cannot be given more.
-/

namespace CryptoCore

open ByteStrings RsaDer

/-- On byte strings that the machine can hold, each key parser returns a key exactly when its fields
are the shortest encodings of numbers in the required ranges, the numbers of a private key satisfy
the relations, and the bytes are the encoding of the container around these fields. -/
theorem rsa_keys_exact :
    (∀ (der : List UInt8) (key : RsaPublicKeyMaterial), der.length < 2 ^ 64 →
      (parseRsaPkcs1PublicKeyDer der = .ok key ↔
        ValidPublicKey key ∧ der = pkcs1PublicKey key)) ∧
    (∀ (der : List UInt8) (key : RsaPublicKeyMaterial), der.length < 2 ^ 64 →
      (parseRsaSpkiPublicKeyDer der = .ok key ↔
        ValidPublicKey key ∧ der = spkiPublicKey key)) ∧
    (∀ (der : List UInt8) (key : RsaPrivateKeyMaterial), der.length < 2 ^ 64 →
      (parseRsaPkcs1PrivateKeyDer der = .ok key ↔
        ValidPrivateKey key ∧ der = pkcs1PrivateKey key)) ∧
    (∀ (der : List UInt8) (key : RsaPrivateKeyMaterial), der.length < 2 ^ 64 →
      (parseRsaPkcs8PrivateKeyDer der = .ok key ↔
        ValidPrivateKey key ∧ der = pkcs8PrivateKey key)) := by
  -- The elements of a sequence are shorter than the sequence.
  have hbody : ∀ {der body : List UInt8}, der.length < 2 ^ 64 → der = Der.tlv derSequence body →
      body.length < Der.maxLength := by
    rintro der body hlt rfl
    exact (Der.length_le_length_tlv derSequence body).trans hlt
  refine ⟨fun der key hlt => ?_, fun der key hlt => ?_, fun der key hlt => ?_,
    fun der key hlt => ?_⟩
  · rw [parseRsaPkcs1PublicKeyDer, parsePkcs1PublicKey_eq_ok_iff]
    exact and_congr_right fun _ => and_iff_right_of_imp (hbody hlt)
  · rw [parseRsaSpkiPublicKeyDer, parseSpkiPublicKey_eq_ok_iff]
    exact and_congr_right fun _ => and_iff_right_of_imp (hbody hlt)
  · rw [parseRsaPkcs1PrivateKeyDer, parsePkcs1PrivateKey_eq_ok_iff]
    exact and_congr_right fun _ => and_iff_right_of_imp (hbody hlt)
  · rw [parseRsaPkcs8PrivateKeyDer, parsePkcs8PrivateKey_eq_ok_iff]
    exact and_congr_right fun _ => and_iff_right_of_imp (hbody hlt)

end CryptoCore
