import CryptoCore.Construction.Rsa

/-!
# The private operations agree

The three private-key operations are three implementations of one function: the power `x ^ d mod n`,
written at the width of the modulus. The public operation takes it back.

The plain operation computes the power as it stands. The other two work modulo each prime with the
reduced exponents of the key and recombine by Garner's formula, and the blinded one multiplies the
input by a power of the blinding factor before and by its inverse after. That all give the same
number rests on the relations that the parser of the key checks, and on the primes being prime,
which it does not check and which is therefore a hypothesis. The blinding factor has to be
invertible modulo both.

The factors have at most 256 bytes, the width of the fixed-size integers in which the powers are
computed. The bytes are those of the power with leading zeros, so that the output has the width of
the modulus whatever the power is.
-/

namespace CryptoCore

open ByteStrings

/-- On every parsed key with prime factors, every representative below the modulus and every
invertible blinding factor, the plain, the CRT and the blinded CRT operation return
`x ^ d mod n`, and the public operation on that returns `x`. -/
theorem rsaPrivateOperations_agree (der : List UInt8) (key : RsaPrivateKeyMaterial)
    (hparse : parseRsaPrivateKeyDer der = .ok key)
    (hprime1 : (beValue key.prime1).Prime) (hprime2 : (beValue key.prime2).Prime)
    (hlength1 : key.prime1.length ≤ 256) (hlength2 : key.prime2.length ≤ 256)
    (input blindingFactor : List UInt8) (hinput : beValue input < beValue key.modulus)
    (hblinding1 : beValue blindingFactor % beValue key.prime1 ≠ 0)
    (hblinding2 : beValue blindingFactor % beValue key.prime2 ≠ 0) :
    let output := beBytes key.modulus.length
      (beValue input ^ beValue key.privateExponent % beValue key.modulus)
    rsaPrivateOperation key input = .ok output ∧
      rsaPrivateCrtOperation key input = .ok output ∧
      rsaPrivateCrtBlindedOperation key input blindingFactor = .ok output ∧
      rsaPublicOperation ⟨key.modulus, key.publicExponent⟩ output =
        .ok (beBytes key.modulus.length (beValue input)) := by
  intro output
  have hkey := Rsa.PrimeKey.of_parse hparse hprime1 hprime2 hlength1 hlength2
  have hout : beValue output =
      beValue input ^ beValue key.privateExponent % beValue key.modulus :=
    beValue_beBytes (hkey.private_lt _)
  have hlt : beValue output < beValue key.modulus := by
    rw [hout]
    exact Nat.mod_lt _ (Nat.lt_of_succ_lt hkey.modulus.one_lt)
  refine ⟨hkey.privateOperation_eq hinput, hkey.privateCrtOperation_eq hinput,
    hkey.privateCrtBlindedOperation_eq hinput (fun h => hblinding1 (Nat.mod_eq_zero_of_dvd h))
      (fun h => hblinding2 (Nat.mod_eq_zero_of_dvd h)), ?_⟩
  rw [Rsa.publicOperation_eq
    (show RsaDer.ValidPublicKey ⟨key.modulus, key.publicExponent⟩ from
      ⟨hkey.modulus, hkey.publicExponent⟩) hlt, hout]
  have hback := CrtExponentiation.pow_pow_mod_eq hkey.prime1_prime hkey.prime2_prime hkey.coprime
    hkey.inverse_exponents.1 hkey.inverse_exponents.2 (by rw [hkey.product]; exact hinput)
  rw [hkey.product] at hback
  rw [hback]

/-- The smallest test key: `n = 61 * 53`, `e = 17`. -/
def smallKey : RsaPrivateKeyMaterial where
  modulus := [0x0C, 0xA1]
  publicExponent := [0x11]
  privateExponent := [0x0A, 0xC1]
  prime1 := [0x3D]
  prime2 := [0x35]
  exponent1 := [0x35]
  exponent2 := [0x31]
  coefficient := [0x26]

def smallKeyDer : List UInt8 :=
  [0x30, 0x1D, 0x02, 0x01, 0x00, 0x02, 0x02, 0x0C, 0xA1, 0x02, 0x01, 0x11, 0x02, 0x02, 0x0A, 0xC1,
    0x02, 0x01, 0x3D, 0x02, 0x01, 0x35, 0x02, 0x01, 0x35, 0x02, 0x01, 0x31, 0x02, 0x01, 0x26]

lemma smallKeyDer_parse : parseRsaPrivateKeyDer smallKeyDer = .ok smallKey := by
  rfl

lemma smallKey_output : beBytes smallKey.modulus.length
    (beValue [0x0A, 0xE6] ^ beValue smallKey.privateExponent % beValue smallKey.modulus) =
      [0x00, 0x41] := by
  decide +kernel

/-- The representative of the native primitive test, blinded by 5. -/
theorem rsaPrivateOperations_agree_smallKey :
    rsaPrivateOperation smallKey [0x0A, 0xE6] = .ok [0x00, 0x41] ∧
      rsaPrivateCrtOperation smallKey [0x0A, 0xE6] = .ok [0x00, 0x41] ∧
      rsaPrivateCrtBlindedOperation smallKey [0x0A, 0xE6] [0x05] = .ok [0x00, 0x41] ∧
      rsaPublicOperation ⟨smallKey.modulus, smallKey.publicExponent⟩ [0x00, 0x41] =
        .ok (beBytes smallKey.modulus.length (beValue [0x0A, 0xE6])) := by
  have h := rsaPrivateOperations_agree smallKeyDer smallKey smallKeyDer_parse
    (show Nat.Prime 61 by norm_num) (show Nat.Prime 53 by norm_num) (by decide) (by decide)
    [0x0A, 0xE6] [0x05] (by decide) (by decide) (by decide)
  simp only [smallKey_output] at h
  exact h

end CryptoCore
