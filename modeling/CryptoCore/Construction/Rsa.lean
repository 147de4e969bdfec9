import CryptoCore.Framework.CrtExponentiation
import CryptoCore.Construction.RsaDer
import CryptoCore.Construction.RsaFixedBigInt

/-!
# The RSA primitives

The public operation, the private operation on the full modulus, and the two CRT operations, the
second with a blinding factor, after `rsa.cpp`. The public operation and the recombination run on
`BigInt`, the two exponentiations modulo the primes on fixed-width integers; `fixedModExpToBigint`
is the bridge between the two, and `crtRecombine` is Garner's formula.

Two conditions on a key matter. `ValidPrivateKey` is what the parser has checked; under it alone the
guards of the blinded operation decide whether it fails, and behind them nothing does
(`privateCrtBlindedOperation_usable`). `PrimeKey` adds that the two factors are prime, which nothing
in the source tests, and that they fit into the 64 limbs of the fixed integers; under it all three
private operations return the same power, `privateOutput`.

The arithmetic behind this is that of `Framework/CrtExponentiation.lean`: exponents reduced modulo
`p - 1`, and numbers glued from their residues. The blinded operation needs one more fact, that the
factor is taken off again by Fermat's inverse modulo each prime (`unblinded_modEq`); a factor that
one of the primes divides never gets there, since the guards refuse it, and an operation that
succeeds therefore returns the same power whatever the factor was
(`PrimeKey.privateCrtBlindedOperation_ok`).
-/

namespace CryptoCore

open ByteStrings

namespace Rsa

/-- The error of the primitives. Its code tells a caller whether the key or the input was at fault.
-/
def rsaError (code : ErrorCode) (message : String) : Error :=
  makeError code "rsa" message

/-- The bytes of an output at the width of the modulus. A wider output would be an internal error;
none occurs on reduced numbers. -/
def leftPadToWidth (value : BigInt) (width : ℕ) : Result ByteBuffer :=
  let bytes := value.toBeBytes
  if bytes.length > width then
    .error (rsaError .internalError "RSA output is wider than modulus")
  else if bytes.length = width then .ok bytes
  else .ok (List.replicate (width - bytes.length) 0 ++ bytes)

/-- The error of an import that fails. No byte string makes it fail, but the source has the branch.
-/
def importError : Error :=
  rsaError .invalidKey "RSA integer import failed"

/-- The error of an input that is not below the modulus. Decryption turns it into its coarse error.
-/
def representativeError : Error :=
  rsaError .invalidArgument "RSA representative must be less than modulus"

/-- A power modulo the modulus with a public exponent, by the textbook exponentiation. -/
def rsaOperation (modulusBytes exponentBytes input : List UInt8) : Result ByteBuffer := do
  let modulus ← orError (BigInt.fromBeBytes modulusBytes) importError
  let exponent ← orError (BigInt.fromBeBytes exponentBytes) importError
  let representative ← orError (BigInt.fromBeBytes input) importError
  require (!modulus.isZero) (rsaError .invalidKey "RSA modulus must be non-zero")
  require (!exponent.isZero) (rsaError .invalidKey "RSA exponent must be non-zero")
  require (!(representative.compare modulus ≥ 0)) representativeError
  let output ← BigInt.modExp representative exponent modulus
  leftPadToWidth output modulusBytes.length

/-- A field of the key as a number, which must not vanish; the name is the text of the error. -/
def importNonZero (bytes : List UInt8) (name : String) : Result BigInt := do
  let value ← orError (BigInt.fromBeBytes bytes) importError
  require (!value.isZero) (rsaError .invalidKey name)
  return value

/-- A power modulo a prime factor on fixed-width integers. The width is that of the bytes of the
factor, and the number of rounds is its number of bits. -/
def fixedModExpToBigint (baseBytes exponentBytes modulusBytes : List UInt8) (exponentBits : ℕ) :
    Result BigInt := do
  let fixedWidth := (modulusBytes.length + 3) / 4
  require (!(fixedWidth == 0 || fixedWidth > RsaFixedBigInt.kMaxLimbs))
    (rsaError .invalidKey "RSA fixed-width modulus is not supported")
  let modulus ← RsaFixedBigInt.fromBeBytes modulusBytes fixedWidth
  let base ← RsaFixedBigInt.fromBeBytesMod baseBytes modulus
  let output ← RsaFixedBigInt.montgomeryModExpSecret base exponentBytes modulus exponentBits
  let outputBytes := output.toBeBytes
  require (!(outputBytes.length < modulusBytes.length))
    (rsaError .internalError "RSA fixed-width output is too short")
  let reducedBytes := outputBytes.drop (outputBytes.length - modulusBytes.length)
  BigInt.fromBeBytes reducedBytes

/-- Garner's formula: the difference of the two residues modulo the first prime, times the
coefficient, times the second prime, on top of the second residue. -/
def crtRecombine (message1 message2 prime1 prime2 coefficient modulus : BigInt) (width : ℕ) :
    Result ByteBuffer := do
  let difference ← BigInt.modSubtract message1 message2 prime1
  let h ← BigInt.modMultiply coefficient difference prime1
  let qh ← BigInt.modMultiply prime2 h modulus
  let output ← BigInt.modAdd message2 qh modulus
  leftPadToWidth output width

end Rsa

open Rsa

def rsaPublicOperation (key : RsaPublicKeyMaterial) (input : List UInt8) : Result ByteBuffer :=
  rsaOperation key.modulus key.publicExponent input

/-- The private operation on the full modulus. The ladder has as many rounds as the exponent has
bits in its bytes. -/
def rsaPrivateOperation (key : RsaPrivateKeyMaterial) (input : List UInt8) :
    Result ByteBuffer := do
  let modulus ← orError (BigInt.fromBeBytes key.modulus) importError
  let exponent ← orError (BigInt.fromBeBytes key.privateExponent) importError
  let representative ← orError (BigInt.fromBeBytes input) importError
  require (!modulus.isZero) (rsaError .invalidKey "RSA modulus must be non-zero")
  require (!exponent.isZero) (rsaError .invalidKey "RSA exponent must be non-zero")
  require (!(representative.compare modulus ≥ 0)) representativeError
  let output ← BigInt.modExpSecret representative exponent modulus (key.privateExponent.length * 8)
  leftPadToWidth output key.modulus.length

/-- The private operation by the two primes. The input is reduced inside the fixed exponentiations.
-/
def rsaPrivateCrtOperation (key : RsaPrivateKeyMaterial) (input : List UInt8) :
    Result ByteBuffer := do
  let modulus ← importNonZero key.modulus "RSA modulus must be non-zero"
  let representative ← orError (BigInt.fromBeBytes input) importError
  let prime1 ← importNonZero key.prime1 "RSA prime1 must be non-zero"
  let prime2 ← importNonZero key.prime2 "RSA prime2 must be non-zero"
  let _ ← importNonZero key.exponent1 "RSA exponent1 must be non-zero"
  let _ ← importNonZero key.exponent2 "RSA exponent2 must be non-zero"
  let coefficient ← importNonZero key.coefficient "RSA coefficient must be non-zero"
  require (!(representative.compare modulus ≥ 0)) representativeError
  let message1 ← fixedModExpToBigint input key.exponent1 key.prime1 (key.prime1.length * 8)
  let message2 ← fixedModExpToBigint input key.exponent2 key.prime2 (key.prime2.length * 8)
  crtRecombine message1 message2 prime1 prime2 coefficient modulus key.modulus.length

/-- The private operation on a blinded input. The factor is refused when it is zero or a multiple of
one of the primes, and taken off from each half before they are recombined. -/
def rsaPrivateCrtBlindedOperation (key : RsaPrivateKeyMaterial)
    (input blindingFactor : List UInt8) : Result ByteBuffer := do
  let modulus ← importNonZero key.modulus "RSA modulus must be non-zero"
  let publicExponent ← importNonZero key.publicExponent "RSA public exponent must be non-zero"
  let representative ← orError (BigInt.fromBeBytes input) importError
  let blinding ← orError (BigInt.fromBeBytes blindingFactor) importError
  let prime1 ← importNonZero key.prime1 "RSA prime1 must be non-zero"
  let prime2 ← importNonZero key.prime2 "RSA prime2 must be non-zero"
  let _ ← importNonZero key.exponent1 "RSA exponent1 must be non-zero"
  let _ ← importNonZero key.exponent2 "RSA exponent2 must be non-zero"
  let coefficient ← importNonZero key.coefficient "RSA coefficient must be non-zero"
  require (!(representative.compare modulus ≥ 0)) representativeError
  require (!blinding.isZero) (rsaError .invalidArgument "RSA blinding factor must be non-zero")
  let constantError := rsaError .internalError "RSA constant import failed"
  let one ← orError (BigInt.fromBeBytes [0x01]) constantError
  let two ← orError (BigInt.fromBeBytes [0x02]) constantError
  let blindingModPrime1 ← BigInt.modMultiply blinding one prime1
  let blindingModPrime2 ← BigInt.modMultiply blinding one prime2
  require (!(blindingModPrime1.isZero || blindingModPrime2.isZero))
    (rsaError .invalidArgument "RSA blinding factor must be invertible")
  -- Blinded modulo `n` by the power of the factor, and unblinded modulo each prime by its inverse.
  let blindingPower ← BigInt.modExp blinding publicExponent modulus
  let blindedRepresentative ← BigInt.modMultiply representative blindingPower modulus
  let blindedRepresentativeBytes := blindedRepresentative.toBeBytes
  let blindedMessage1 ← fixedModExpToBigint blindedRepresentativeBytes key.exponent1 key.prime1
    (key.prime1.length * 8)
  let blindedMessage2 ← fixedModExpToBigint blindedRepresentativeBytes key.exponent2 key.prime2
    (key.prime2.length * 8)
  -- The inverses are powers with the exponent `prime - 2`.
  let prime1MinusTwo ← BigInt.modSubtract prime1 two prime1
  let prime2MinusTwo ← BigInt.modSubtract prime2 two prime2
  let inverse1 ← fixedModExpToBigint blindingModPrime1.toBeBytes prime1MinusTwo.toBeBytes
    key.prime1 (key.prime1.length * 8)
  let inverse2 ← fixedModExpToBigint blindingModPrime2.toBeBytes prime2MinusTwo.toBeBytes
    key.prime2 (key.prime2.length * 8)
  let message1 ← BigInt.modMultiply blindedMessage1 inverse1 prime1
  let message2 ← BigInt.modMultiply blindedMessage2 inverse2 prime2
  crtRecombine message1 message2 prime1 prime2 coefficient modulus key.modulus.length

/-! ## What the operations compute -/

namespace Rsa

/-- The padding on numbers that fit: the bytes of the number at that width. -/
lemma leftPadToWidth_eq {v : BigInt} {w : ℕ} (hw : 0 < w) (h : v.toNat < 256 ^ w) :
    leftPadToWidth v w = .ok (beBytes w v.toNat) := by
  have hlen := (length_minBeBytes_le_iff hw).mpr h
  have hpad := replicate_append_minBeBytes hlen
  rw [leftPadToWidth, BigInt.toBeBytes_eq]
  simp only [if_neg (not_lt.mpr hlen)]
  split
  next heq => rw [← hpad, heq, Nat.sub_self, List.replicate_zero, List.nil_append]
  next => rw [hpad]

/-- The import of a field that does not vanish is its number. -/
lemma importNonZero_eq {bytes : List UInt8} (name : String) (h : beValue bytes ≠ 0) :
    importNonZero bytes name = .ok (BigInt.ofNat (beValue bytes)) := by
  rw [importNonZero, BigInt.fromBeBytes_eq, orError_ok, ok_bind,
    BigInt.isZero_eq_false (by rwa [BigInt.toNat_ofNat])]
  rfl

lemma require_representative {x m : BigInt} (h : x.toNat < m.toNat) (e : Error) :
    require (!(x.compare m ≥ 0)) e = .ok () := by
  have hcmp : (decide (x.compare m ≥ 0)) = false := by
    rw [decide_eq_false_iff_not, BigInt.compare_nonneg_iff]
    omega
  rw [hcmp]
  rfl

/-- The fixed-width exponentiation is the power modulo an odd modulus of at most 256 bytes. The
bytes of the base may be longer than those of the modulus. -/
theorem fixedModExpToBigint_eq {modulusBytes : List UInt8} (base exponent : List UInt8)
    (hodd : beValue modulusBytes % 2 = 1) (hone : 1 < beValue modulusBytes)
    (hlen : modulusBytes.length ≤ 256)
    (hexp : beValue exponent < 2 ^ (modulusBytes.length * 8)) :
    fixedModExpToBigint base exponent modulusBytes (modulusBytes.length * 8) =
      .ok (BigInt.ofNat (beValue base ^ beValue exponent % beValue modulusBytes)) := by
  set k := modulusBytes.length with hk
  set w := (k + 3) / 4 with hw
  have hkpos : 0 < k := by
    rcases Nat.eq_zero_or_pos k with h0 | h0
    · rw [List.length_eq_zero_iff.mp h0, beValue_nil] at hone
      omega
    · exact h0
  have hwidth : RsaFixedBigInt.ValidWidth w := by
    unfold RsaFixedBigInt.ValidWidth RsaFixedBigInt.kMaxLimbs
    omega
  have hmlt : beValue modulusBytes < 256 ^ k := beValue_lt modulusBytes
  have hfit : beValue modulusBytes < 2 ^ (32 * w) := by
    refine hmlt.trans_le ?_
    rw [show (256 : ℕ) = 2 ^ 8 from rfl, ← pow_mul]
    exact Nat.pow_le_pow_right (by norm_num) (by omega)
  obtain ⟨m, hm, hmw, hmval⟩ := RsaFixedBigInt.fromBeBytes_spec hwidth hfit
  have hmont : RsaFixedBigInt.MontgomeryModulus m := ⟨by rw [hmval]; exact hodd, by
    rw [hmval]
    exact hone⟩
  obtain ⟨b, hb, hb'⟩ := RsaFixedBigInt.fromBeBytesMod_spec hmont base
  obtain ⟨out, hout, houtw, houtval⟩ := RsaFixedBigInt.montgomeryModExpSecret_spec hmont hb'
    (Nat.mod_lt _ hmont.pos) exponent (k * 8)
  set v := beValue base ^ beValue exponent % beValue modulusBytes with hv
  have hval : out.toNat = v := by
    rw [houtval, hmval, Nat.mod_eq_of_lt hexp, hv, ← Nat.pow_mod]
  have hguard : (!(w == 0 || decide (w > RsaFixedBigInt.kMaxLimbs))) = true := by
    have h0 : ¬ w = 0 := by have := hwidth.1; omega
    have h64 : ¬ w > RsaFixedBigInt.kMaxLimbs := not_lt.mpr hwidth.2
    simp [h0, h64]
  have hbytes : out.toBeBytes = beBytes (4 * w) v := by
    rw [RsaFixedBigInt.toBeBytes_eq, houtw, hmw, hval]
  have hlong : (!(decide ((beBytes (4 * w) v).length < k))) = true := by
    rw [length_beBytes, Bool.not_eq_true', decide_eq_false_iff_not]
    omega
  -- the last bytes hold the whole value
  have hdrop : (beBytes (4 * w) v).drop ((beBytes (4 * w) v).length - k) = beBytes k v := by
    rw [length_beBytes]
    have := drop_beBytes (4 * w - k) k v
    rwa [Nat.sub_add_cancel (by omega)] at this
  have hvlt : v < 256 ^ k := (Nat.mod_lt _ (by omega)).trans hmlt
  simp only [fixedModExpToBigint, ← hk, ← hw, hguard, require_true, ok_bind, hm, hb, hout, hbytes,
    hlong, hdrop, BigInt.fromBeBytes_eq, beValue_beBytes hvlt]

/-- Garner's formula on the two residues of a number below the modulus gives that number. -/
theorem crtRecombine_eq {m₁ m₂ p q c n : BigInt} {w y : ℕ} (hw : 0 < w) (hp : 0 < p.toNat)
    (hn : p.toNat * q.toNat = n.toNat) (hnw : n.toNat < 256 ^ w)
    (hc : q.toNat * c.toNat % p.toNat = 1 % p.toNat) (h₁ : m₁.toNat ≡ y [MOD p.toNat])
    (h₂ : m₂.toNat ≡ y [MOD q.toNat]) (hy : y < n.toNat) :
    crtRecombine m₁ m₂ p q c n w = .ok (beBytes w y) := by
  have hn0 : n.toNat ≠ 0 := by omega
  have hgarner := CrtExponentiation.garner hp hc h₁ h₂ (by rw [hn]; exact hy)
  rw [hn] at hgarner
  rw [crtRecombine, BigInt.modSubtract_eq _ _ hp.ne', ok_bind, BigInt.modMultiply_eq _ _ hp.ne',
    ok_bind, BigInt.modMultiply_eq _ _ hn0, ok_bind, BigInt.modAdd_eq _ _ hn0, ok_bind]
  simp only [BigInt.toNat_ofNat]
  rw [hgarner, leftPadToWidth_eq hw (by rw [BigInt.toNat_ofNat]; omega), BigInt.toNat_ofNat]

/-- Garner's formula never fails on numbers below a modulus that fits, whatever the residues stand
for. -/
lemma crtRecombine_ok (m₁ m₂ q c : BigInt) {p n : BigInt} {w : ℕ} (hw : 0 < w) (hp : p.toNat ≠ 0)
    (hn : n.toNat ≠ 0) (hnw : n.toNat < 256 ^ w) :
    ∃ y, crtRecombine m₁ m₂ p q c n w = .ok (beBytes w y) := by
  rw [crtRecombine, BigInt.modSubtract_eq _ _ hp, ok_bind, BigInt.modMultiply_eq _ _ hp,
    ok_bind, BigInt.modMultiply_eq _ _ hn, ok_bind, BigInt.modAdd_eq _ _ hn, ok_bind]
  refine ⟨_, leftPadToWidth_eq hw ?_⟩
  rw [BigInt.toNat_ofNat]
  exact (Nat.mod_lt _ (Nat.pos_of_ne_zero hn)).trans hnw

/-- One half of the blinded operation: the residue of the private power modulo a prime. The blinded
power is a product with the factor itself, which Fermat's inverse removes. -/
lemma unblinded_modEq {p n e f r : ℕ} (hp : p.Prime) (hr : ¬ p ∣ r) (hef : e * f % (p - 1) = 1)
    (hpn : p ∣ n) (x : ℕ) :
    (x * (r ^ e % n) % n) ^ f % p * ((r % p) ^ (p - 2) % p) % p ≡ x ^ f [MOD p] := by
  have hblinded : (x * (r ^ e % n) % n) ^ f % p ≡ (x * r ^ e) ^ f [MOD p] :=
    (Nat.mod_modEq _ _).trans
      (((Nat.mod_modEq _ _).trans ((Nat.mod_modEq _ _).mul_left _)).of_dvd hpn |>.pow _)
  have hinverse : (r % p) ^ (p - 2) % p ≡ r ^ (p - 2) [MOD p] :=
    (Nat.mod_modEq _ _).trans ((Nat.mod_modEq _ _).pow _)
  exact (Nat.mod_modEq _ _).trans
    ((hblinded.mul hinverse).trans (CrtExponentiation.unblind_modEq hp hr hef))

/-- The halves of the blinded operation, with the factor taken off. Without primality it is a number
of no particular meaning. -/
def unblindedMessage (key : RsaPrivateKeyMaterial) (prime exponent : List UInt8) (x r : ℕ) : ℕ :=
  (x * (r ^ beValue key.publicExponent % beValue key.modulus) % beValue key.modulus) ^
      beValue exponent % beValue prime *
    ((r % beValue prime) ^ (beValue prime - 2) % beValue prime) % beValue prime

end Rsa

namespace RsaDer

section ValidPrivateKey

variable {key : RsaPrivateKeyMaterial} (hkey : ValidPrivateKey key)
include hkey

/-- The modulus of a parsed key has at least one byte. -/
lemma ValidPrivateKey.width_pos : 0 < key.modulus.length := by
  by_contra h
  have := hkey.modulus.one_lt
  rw [List.length_eq_zero_iff.mp (Nat.eq_zero_of_not_pos h), beValue_nil] at this
  omega

/-- The reduced exponents fit in the rounds of the ladder, since they are below the primes. -/
lemma ValidPrivateKey.exponent1_lt : beValue key.exponent1 < 2 ^ (key.prime1.length * 8) := by
  have h1 := hkey.prime1.one_lt
  have hlt : beValue key.exponent1 < beValue key.prime1 - 1 := by
    rw [← hkey.exponent1_eq]
    exact Nat.mod_lt _ (by omega)
  have := beValue_lt key.prime1
  rw [show (256 : ℕ) = 2 ^ 8 from rfl, ← pow_mul, mul_comm] at this
  omega

lemma ValidPrivateKey.exponent2_lt : beValue key.exponent2 < 2 ^ (key.prime2.length * 8) := by
  have h1 := hkey.prime2.one_lt
  have hlt : beValue key.exponent2 < beValue key.prime2 - 1 := by
    rw [← hkey.exponent2_eq]
    exact Nat.mod_lt _ (by omega)
  have := beValue_lt key.prime2
  rw [show (256 : ℕ) = 2 ^ 8 from rfl, ← pow_mul, mul_comm] at this
  omega

end ValidPrivateKey

/-! ### The blinded operation on a parsed key

What holds without primality: the guards decide whether the operation fails, and behind them
nothing does. -/

section Blinded

variable {key : RsaPrivateKeyMaterial} (hkey : ValidPrivateKey key)
  {input blindingFactor : List UInt8}
include hkey

/-- The fields are imported as their numbers: none of them vanishes. -/
lemma ValidPrivateKey.imports :
    (∀ name, importNonZero key.modulus name = .ok (BigInt.ofNat (beValue key.modulus))) ∧
    (∀ name, importNonZero key.publicExponent name =
      .ok (BigInt.ofNat (beValue key.publicExponent))) ∧
    (∀ name, importNonZero key.prime1 name = .ok (BigInt.ofNat (beValue key.prime1))) ∧
    (∀ name, importNonZero key.prime2 name = .ok (BigInt.ofNat (beValue key.prime2))) ∧
    (∀ name, importNonZero key.exponent1 name = .ok (BigInt.ofNat (beValue key.exponent1))) ∧
    (∀ name, importNonZero key.exponent2 name = .ok (BigInt.ofNat (beValue key.exponent2))) ∧
    (∀ name, importNonZero key.coefficient name =
      .ok (BigInt.ofNat (beValue key.coefficient))) :=
  ⟨fun name => importNonZero_eq name (Nat.ne_of_gt (Nat.lt_of_succ_lt hkey.modulus.one_lt)),
    fun name => importNonZero_eq name (Nat.ne_of_gt (Nat.lt_of_succ_lt hkey.publicExponent.one_lt)),
    fun name => importNonZero_eq name (Nat.ne_of_gt (Nat.lt_of_succ_lt hkey.prime1.one_lt)),
    fun name => importNonZero_eq name (Nat.ne_of_gt (Nat.lt_of_succ_lt hkey.prime2.one_lt)),
    fun name => importNonZero_eq name (Nat.ne_of_gt hkey.exponent1.pos),
    fun name => importNonZero_eq name (Nat.ne_of_gt hkey.exponent2.pos),
    fun name => importNonZero_eq name (Nat.ne_of_gt hkey.coefficient.pos)⟩

/-- The operation refuses a representative that is not below the modulus. -/
lemma ValidPrivateKey.privateCrtBlindedOperation_large
    (hinput : beValue key.modulus ≤ beValue input) :
    rsaPrivateCrtBlindedOperation key input blindingFactor = .error representativeError := by
  obtain ⟨hn, he, hp, hq, hdp, hdq, hqi⟩ := hkey.imports
  have hguard : (BigInt.ofNat (beValue input)).compare (BigInt.ofNat (beValue key.modulus)) ≥
      0 := by
    rw [BigInt.compare_nonneg_iff, BigInt.toNat_ofNat, BigInt.toNat_ofNat]
    exact hinput
  rw [rsaPrivateCrtBlindedOperation]
  simp only [hn, he, hp, hq, hdp, hdq, hqi, BigInt.fromBeBytes_eq, orError_ok, ok_bind, hguard,
    decide_true, Bool.not_true, require_false, error_bind]

variable (hinput : beValue input < beValue key.modulus)
include hinput

/-- The operation refuses a factor that one of the primes divides, with the code at which the loop
over the attempts draws another one. -/
lemma ValidPrivateKey.privateCrtBlindedOperation_unusable
    (hfactor : beValue key.prime1 ∣ beValue blindingFactor ∨
      beValue key.prime2 ∣ beValue blindingFactor) :
    ∃ e, rsaPrivateCrtBlindedOperation key input blindingFactor = .error e ∧
      e.code = .invalidArgument := by
  obtain ⟨hn, he, hp, hq, hdp, hdq, hqi⟩ := hkey.imports
  have hp1 := hkey.prime1.one_lt
  have hq1 := hkey.prime2.one_lt
  rw [rsaPrivateCrtBlindedOperation]
  simp only [hn, he, hp, hq, hdp, hdq, hqi, BigInt.fromBeBytes_eq, orError_ok, ok_bind,
    beValue_singleton, UInt8.toNat_one]
  rw [require_representative (by simpa only [BigInt.toNat_ofNat] using hinput), ok_bind]
  cases hzero : (BigInt.ofNat (beValue blindingFactor)).isZero with
  | true => exact ⟨_, rfl, rfl⟩
  | false =>
      have hguard : ((BigInt.ofNat (beValue blindingFactor % beValue key.prime1)).isZero ||
          (BigInt.ofNat (beValue blindingFactor % beValue key.prime2)).isZero) = true := by
        rw [Bool.or_eq_true, BigInt.isZero_iff, BigInt.isZero_iff, BigInt.toNat_ofNat,
          BigInt.toNat_ofNat]
        exact hfactor.imp Nat.mod_eq_zero_of_dvd Nat.mod_eq_zero_of_dvd
      rw [Bool.not_false, require_true, ok_bind,
        BigInt.modMultiply_eq _ _ (by rw [BigInt.toNat_ofNat]; omega), ok_bind,
        BigInt.modMultiply_eq _ _ (by rw [BigInt.toNat_ofNat]; omega), ok_bind]
      simp only [BigInt.toNat_ofNat, mul_one]
      rw [hguard]
      exact ⟨_, rfl, rfl⟩

/-- Behind the guards the operation recombines its two halves; no other step fails. -/
lemma ValidPrivateKey.privateCrtBlindedOperation_recombine (hlength1 : key.prime1.length ≤ 256)
    (hlength2 : key.prime2.length ≤ 256)
    (hr1 : ¬ beValue key.prime1 ∣ beValue blindingFactor)
    (hr2 : ¬ beValue key.prime2 ∣ beValue blindingFactor) :
    rsaPrivateCrtBlindedOperation key input blindingFactor =
      crtRecombine
        (BigInt.ofNat (unblindedMessage key key.prime1 key.exponent1 (beValue input)
          (beValue blindingFactor)))
        (BigInt.ofNat (unblindedMessage key key.prime2 key.exponent2 (beValue input)
          (beValue blindingFactor)))
        (BigInt.ofNat (beValue key.prime1)) (BigInt.ofNat (beValue key.prime2))
        (BigInt.ofNat (beValue key.coefficient)) (BigInt.ofNat (beValue key.modulus))
        key.modulus.length := by
  obtain ⟨hn, he, hp, hq, hdp, hdq, hqi⟩ := hkey.imports
  have hn0 : beValue key.modulus ≠ 0 := by have := hkey.modulus.one_lt; omega
  have hp1 := hkey.prime1.one_lt
  have hq1 := hkey.prime2.one_lt
  have hp0 : beValue key.prime1 ≠ 0 := by omega
  have hq0 : beValue key.prime2 ≠ 0 := by omega
  have hr0 : beValue blindingFactor ≠ 0 := fun h => hr1 (h ▸ dvd_zero _)
  have hpodd := hkey.prime1.odd
  have hqodd := hkey.prime2.odd
  -- The exponents `prime - 2`: an odd modulus above one is above two, so reducing `2` by it changes
  -- nothing.
  have hminus : ∀ {m : BigInt}, m.toNat % 2 = 1 → 1 < m.toNat →
      BigInt.modSubtract m (BigInt.ofNat 2) m = .ok (BigInt.ofNat (m.toNat - 2)) := by
    intro m hodd hm
    rw [BigInt.modSubtract_eq _ _ (by omega), BigInt.toNat_ofNat, Nat.mod_self, zero_add,
      Nat.mod_eq_of_lt (show 2 < m.toNat by omega), Nat.mod_eq_of_lt (by omega)]
  -- The factor is a unit for both primes, so the source does not refuse it.
  have hguard : (!((BigInt.ofNat (beValue blindingFactor % beValue key.prime1)).isZero ||
      (BigInt.ofNat (beValue blindingFactor % beValue key.prime2)).isZero)) = true := by
    rw [BigInt.isZero_eq_false, BigInt.isZero_eq_false]
    · rfl
    · rw [BigInt.toNat_ofNat]
      exact fun h => hr2 (Nat.dvd_of_mod_eq_zero h)
    · rw [BigInt.toNat_ofNat]
      exact fun h => hr1 (Nat.dvd_of_mod_eq_zero h)
  -- Those exponents fit the bits of their prime, which are all that the fixed-width exponentiation
  -- looks at.
  have hsub : ∀ p : List UInt8, beValue (minBeBytes (beValue p - 2)) < 2 ^ (p.length * 8) := by
    intro p
    have := beValue_lt p
    rw [show (256 : ℕ) = 2 ^ 8 from rfl, ← pow_mul, mul_comm] at this
    rw [beValue_minBeBytes]
    omega
  rw [rsaPrivateCrtBlindedOperation]
  simp only [hn, he, hp, hq, hdp, hdq, hqi, BigInt.fromBeBytes_eq, orError_ok,
    ok_bind, beValue_singleton, UInt8.toNat_one, show (0x02 : UInt8).toNat = 2 from rfl]
  rw [require_representative (by simpa only [BigInt.toNat_ofNat] using hinput), ok_bind,
    BigInt.isZero_eq_false (by rwa [BigInt.toNat_ofNat]), Bool.not_false, require_true, ok_bind,
    BigInt.modMultiply_eq _ _ (by rwa [BigInt.toNat_ofNat]), ok_bind,
    BigInt.modMultiply_eq _ _ (by rwa [BigInt.toNat_ofNat]), ok_bind]
  simp only [BigInt.toNat_ofNat, mul_one]
  rw [hguard, require_true, ok_bind, BigInt.modExp_eq _ _ (by rwa [BigInt.toNat_ofNat]), ok_bind,
    BigInt.modMultiply_eq _ _ (by rwa [BigInt.toNat_ofNat]), ok_bind]
  simp only [BigInt.toBeBytes_eq, BigInt.toNat_ofNat]
  rw [fixedModExpToBigint_eq _ _ hpodd hp1 hlength1 hkey.exponent1_lt, ok_bind,
    fixedModExpToBigint_eq _ _ hqodd hq1 hlength2 hkey.exponent2_lt, ok_bind,
    hminus (by rwa [BigInt.toNat_ofNat]) (by rwa [BigInt.toNat_ofNat]), ok_bind,
    hminus (by rwa [BigInt.toNat_ofNat]) (by rwa [BigInt.toNat_ofNat]), ok_bind]
  simp only [BigInt.toNat_ofNat]
  rw [fixedModExpToBigint_eq _ _ hpodd hp1 hlength1 (hsub _), ok_bind,
    fixedModExpToBigint_eq _ _ hqodd hq1 hlength2 (hsub _), ok_bind,
    BigInt.modMultiply_eq _ _ (by rwa [BigInt.toNat_ofNat]), ok_bind,
    BigInt.modMultiply_eq _ _ (by rwa [BigInt.toNat_ofNat]), ok_bind]
  simp only [BigInt.toNat_ofNat, beValue_minBeBytes]
  rfl

/-- Behind the guards the operation succeeds, with an output of the width of the modulus. -/
lemma ValidPrivateKey.privateCrtBlindedOperation_usable (hlength1 : key.prime1.length ≤ 256)
    (hlength2 : key.prime2.length ≤ 256)
    (hr1 : ¬ beValue key.prime1 ∣ beValue blindingFactor)
    (hr2 : ¬ beValue key.prime2 ∣ beValue blindingFactor) :
    ∃ y, rsaPrivateCrtBlindedOperation key input blindingFactor =
      .ok (beBytes key.modulus.length y) := by
  have hp1 := hkey.prime1.one_lt
  have hn1 := hkey.modulus.one_lt
  rw [hkey.privateCrtBlindedOperation_recombine hinput hlength1 hlength2 hr1 hr2]
  refine crtRecombine_ok _ _ _ _ hkey.width_pos ?_ ?_ ?_
  · rw [BigInt.toNat_ofNat]
    omega
  · rw [BigInt.toNat_ofNat]
    omega
  · rw [BigInt.toNat_ofNat]
    exact beValue_lt key.modulus

end Blinded

end RsaDer

namespace Rsa

/-- The private keys the operations are about: the parser's checks, and what it does not test. -/
structure PrimeKey (key : RsaPrivateKeyMaterial) : Prop extends RsaDer.ValidPrivateKey key where
  prime1_prime : (beValue key.prime1).Prime
  prime2_prime : (beValue key.prime2).Prime
  prime1_length : key.prime1.length ≤ 256
  prime2_length : key.prime2.length ≤ 256

/-- A parsed key whose primes are prime and fit the widths of the fixed integers. -/
lemma PrimeKey.of_parse {der : List UInt8} {key : RsaPrivateKeyMaterial}
    (hparse : parseRsaPrivateKeyDer der = .ok key)
    (hprime1 : (beValue key.prime1).Prime) (hprime2 : (beValue key.prime2).Prime)
    (hlength1 : key.prime1.length ≤ 256) (hlength2 : key.prime2.length ≤ 256) : PrimeKey key :=
  { RsaDer.parseRsaPrivateKeyDer_valid hparse with
    prime1_prime := hprime1
    prime2_prime := hprime2
    prime1_length := hlength1
    prime2_length := hlength2 }

section PrimeKey

variable {key : RsaPrivateKeyMaterial} (hkey : PrimeKey key)
include hkey

/-- The two primes differ: one of them is invertible modulo the other. -/
lemma PrimeKey.coprime : (beValue key.prime1).Coprime (beValue key.prime2) := by
  have h : beValue key.prime2 * beValue key.coefficient ≡ 1 [MOD beValue key.prime1] := by
    rw [Nat.ModEq, hkey.coefficient_eq, Nat.mod_eq_of_lt hkey.prime1.one_lt]
  have hcop : (beValue key.prime2 * beValue key.coefficient).Coprime (beValue key.prime1) := by
    rw [Nat.Coprime, h.gcd_eq, Nat.gcd_one_left]
  exact hcop.coprime_mul_right.symm

/-- The public and the private exponent are inverse modulo `p - 1`, from the relations between the
exponents that the parser checks. -/
lemma PrimeKey.inverse_exponents :
    beValue key.publicExponent * beValue key.privateExponent % (beValue key.prime1 - 1) = 1 ∧
      beValue key.publicExponent * beValue key.privateExponent % (beValue key.prime2 - 1) = 1 := by
  have h₁ := hkey.inverse1
  have h₂ := hkey.inverse2
  rw [← hkey.exponent1_eq, Nat.mul_mod_mod] at h₁
  rw [← hkey.exponent2_eq, Nat.mul_mod_mod] at h₂
  exact ⟨h₁, h₂⟩

/-- The residues of the private power, by the CRT exponents, for every base. -/
lemma PrimeKey.crt_powers (x : ℕ) :
    x ^ beValue key.exponent1 ≡ x ^ beValue key.privateExponent [MOD beValue key.prime1] ∧
      x ^ beValue key.exponent2 ≡ x ^ beValue key.privateExponent [MOD beValue key.prime2] := by
  constructor
  · exact CrtExponentiation.pow_modEq_of_modEq hkey.prime1_prime hkey.exponent1.pos
      hkey.privateExponent.pos (by rw [Nat.ModEq, ← hkey.exponent1_eq, Nat.mod_mod])
  · exact CrtExponentiation.pow_modEq_of_modEq hkey.prime2_prime hkey.exponent2.pos
      hkey.privateExponent.pos (by rw [Nat.ModEq, ← hkey.exponent2_eq, Nat.mod_mod])

lemma PrimeKey.mod_modEq (x : ℕ) :
    x % beValue key.modulus ≡ x [MOD beValue key.prime1] ∧
      x % beValue key.modulus ≡ x [MOD beValue key.prime2] := by
  rw [← hkey.product]
  exact ⟨(Nat.mod_modEq _ _).of_mul_right _, (Nat.mod_modEq _ _).of_mul_left _⟩

/-- What the private operations return on a representative `x`: the power, at the width of the
modulus. -/
def privateOutput (key : RsaPrivateKeyMaterial) (x : ℕ) : ByteBuffer :=
  beBytes key.modulus.length (x ^ beValue key.privateExponent % beValue key.modulus)

lemma PrimeKey.private_lt (x : ℕ) :
    x ^ beValue key.privateExponent % beValue key.modulus < 256 ^ key.modulus.length :=
  (Nat.mod_lt _ (Nat.lt_of_succ_lt hkey.modulus.one_lt)).trans (beValue_lt key.modulus)

/-- Garner's formula on residues of the private power gives the power. All three operations end here
or at the power itself. -/
lemma PrimeKey.recombine {m₁ m₂ x : ℕ}
    (h₁ : m₁ ≡ x ^ beValue key.exponent1 [MOD beValue key.prime1])
    (h₂ : m₂ ≡ x ^ beValue key.exponent2 [MOD beValue key.prime2]) :
    crtRecombine (BigInt.ofNat m₁) (BigInt.ofNat m₂) (BigInt.ofNat (beValue key.prime1))
        (BigInt.ofNat (beValue key.prime2)) (BigInt.ofNat (beValue key.coefficient))
        (BigInt.ofNat (beValue key.modulus)) key.modulus.length =
      .ok (privateOutput key x) := by
  have hp := hkey.prime1.one_lt
  have hpow := hkey.crt_powers x
  have hmod := hkey.mod_modEq (x ^ beValue key.privateExponent)
  apply crtRecombine_eq (hkey.width_pos) <;> simp only [BigInt.toNat_ofNat]
  · omega
  · exact hkey.product
  · exact beValue_lt key.modulus
  · rw [hkey.coefficient_eq, Nat.mod_eq_of_lt hp]
  · exact (h₁.trans hpow.1).trans hmod.1.symm
  · exact (h₂.trans hpow.2).trans hmod.2.symm
  · exact Nat.mod_lt _ (Nat.lt_of_succ_lt hkey.modulus.one_lt)

variable {input : List UInt8} (hinput : beValue input < beValue key.modulus)
include hinput

/-- The private operation on the full modulus returns the power. -/
lemma PrimeKey.privateOperation_eq :
    rsaPrivateOperation key input = .ok (privateOutput key (beValue input)) := by
  have hn := hkey.modulus.one_lt
  have hd := hkey.privateExponent.pos
  have hsize : (BigInt.ofNat (beValue key.privateExponent)).toNat.size ≤
      key.privateExponent.length * 8 := by
    rw [BigInt.toNat_ofNat, Nat.size_le, mul_comm, pow_mul]
    exact beValue_lt key.privateExponent
  rw [rsaPrivateOperation]
  simp only [BigInt.fromBeBytes_eq, orError_ok, ok_bind]
  rw [BigInt.isZero_eq_false (by rw [BigInt.toNat_ofNat]; omega),
    BigInt.isZero_eq_false (by rw [BigInt.toNat_ofNat]; omega),
    require_representative (by simpa only [BigInt.toNat_ofNat] using hinput),
    BigInt.modExpSecret_eq _ _ (by rw [BigInt.toNat_ofNat]; omega) hsize]
  simp only [BigInt.toNat_ofNat, Bool.not_false, require_true, ok_bind]
  rw [leftPadToWidth_eq hkey.width_pos (by rw [BigInt.toNat_ofNat]; exact hkey.private_lt _),
    BigInt.toNat_ofNat, privateOutput]

/-- The operation by the two primes returns the same power. -/
lemma PrimeKey.privateCrtOperation_eq :
    rsaPrivateCrtOperation key input = .ok (privateOutput key (beValue input)) := by
  rw [rsaPrivateCrtOperation]
  simp only [importNonZero_eq _ (Nat.ne_of_gt (Nat.lt_of_succ_lt hkey.modulus.one_lt)),
    importNonZero_eq _ (Nat.ne_of_gt (Nat.lt_of_succ_lt hkey.prime1.one_lt)),
    importNonZero_eq _ (Nat.ne_of_gt (Nat.lt_of_succ_lt hkey.prime2.one_lt)),
    importNonZero_eq _ (Nat.ne_of_gt hkey.exponent1.pos),
    importNonZero_eq _ (Nat.ne_of_gt hkey.exponent2.pos),
    importNonZero_eq _ (Nat.ne_of_gt hkey.coefficient.pos), BigInt.fromBeBytes_eq, orError_ok,
    ok_bind]
  rw [require_representative (by simpa only [BigInt.toNat_ofNat] using hinput), ok_bind,
    fixedModExpToBigint_eq _ _ hkey.prime1.odd hkey.prime1.one_lt hkey.prime1_length
      hkey.exponent1_lt, ok_bind,
    fixedModExpToBigint_eq _ _ hkey.prime2.odd hkey.prime2.one_lt hkey.prime2_length
      hkey.exponent2_lt, ok_bind]
  exact hkey.recombine (Nat.mod_modEq _ _) (Nat.mod_modEq _ _)

/-- An invertible factor is taken off the blinded power, and the same power remains. -/
lemma PrimeKey.privateCrtBlindedOperation_eq {blindingFactor : List UInt8}
    (hr1 : ¬ beValue key.prime1 ∣ beValue blindingFactor)
    (hr2 : ¬ beValue key.prime2 ∣ beValue blindingFactor) :
    rsaPrivateCrtBlindedOperation key input blindingFactor =
      .ok (privateOutput key (beValue input)) := by
  rw [hkey.privateCrtBlindedOperation_recombine hinput hkey.prime1_length hkey.prime2_length hr1
    hr2]
  refine hkey.recombine ?_ ?_
  · exact unblinded_modEq hkey.prime1_prime hr1 hkey.inverse1
      (Dvd.intro _ hkey.product) _
  · exact unblinded_modEq hkey.prime2_prime hr2 hkey.inverse2
      (Dvd.intro_left _ hkey.product) _

/-- The blinded operation returns nothing else: a factor that is no good fails a guard. -/
lemma PrimeKey.privateCrtBlindedOperation_ok {blindingFactor output : List UInt8}
    (h : rsaPrivateCrtBlindedOperation key input blindingFactor = .ok output) :
    output = privateOutput key (beValue input) := by
  by_cases hunusable : beValue key.prime1 ∣ beValue blindingFactor ∨
      beValue key.prime2 ∣ beValue blindingFactor
  · obtain ⟨e, herror, -⟩ := hkey.privateCrtBlindedOperation_unusable hinput hunusable
    rw [herror] at h
    cases h
  · rw [not_or] at hunusable
    rw [hkey.privateCrtBlindedOperation_eq hinput hunusable.1 hunusable.2] at h
    exact (Except.ok.inj h).symm

end PrimeKey

/-- The public operation refuses a representative that is not below the modulus. -/
lemma publicOperation_error {key : RsaPublicKeyMaterial} (hkey : RsaDer.ValidPublicKey key)
    {input : List UInt8} (hinput : beValue key.modulus ≤ beValue input) :
    rsaPublicOperation key input = .error representativeError := by
  have hn := hkey.modulus.one_lt
  have he := hkey.publicExponent.one_lt
  have hguard : ((BigInt.ofNat (beValue input)).compare (BigInt.ofNat (beValue key.modulus)) ≥
      0) := by
    rw [BigInt.compare_nonneg_iff, BigInt.toNat_ofNat, BigInt.toNat_ofNat]
    exact hinput
  rw [rsaPublicOperation, rsaOperation]
  simp only [BigInt.fromBeBytes_eq, orError_ok, ok_bind]
  rw [BigInt.isZero_eq_false (by rw [BigInt.toNat_ofNat]; omega),
    BigInt.isZero_eq_false (by rw [BigInt.toNat_ofNat]; omega)]
  simp only [Bool.not_false, require_true, ok_bind, hguard, decide_true, Bool.not_true,
    require_false, error_bind]

/-- The public operation on a representative below an odd modulus is the power, at its width. -/
lemma publicOperation_eq {key : RsaPublicKeyMaterial} (hkey : RsaDer.ValidPublicKey key)
    {input : List UInt8} (hinput : beValue input < beValue key.modulus) :
    rsaPublicOperation key input = .ok (beBytes key.modulus.length
      (beValue input ^ beValue key.publicExponent % beValue key.modulus)) := by
  have hn := hkey.modulus.one_lt
  have he := hkey.publicExponent.one_lt
  have hlen : 0 < key.modulus.length := by
    by_contra h
    rw [List.length_eq_zero_iff.mp (Nat.eq_zero_of_not_pos h), beValue_nil] at hn
    omega
  have hlt : beValue input ^ beValue key.publicExponent % beValue key.modulus <
      256 ^ key.modulus.length :=
    (Nat.mod_lt _ (by omega)).trans (beValue_lt key.modulus)
  rw [rsaPublicOperation, rsaOperation]
  simp only [BigInt.fromBeBytes_eq, orError_ok, ok_bind]
  rw [BigInt.isZero_eq_false (by rw [BigInt.toNat_ofNat]; omega),
    BigInt.isZero_eq_false (by rw [BigInt.toNat_ofNat]; omega),
    require_representative (by simpa only [BigInt.toNat_ofNat] using hinput),
    BigInt.modExp_eq _ _ (by rw [BigInt.toNat_ofNat]; omega)]
  simp only [BigInt.toNat_ofNat, Bool.not_false, require_true, ok_bind]
  rw [leftPadToWidth_eq hlen (by rw [BigInt.toNat_ofNat]; exact hlt), BigInt.toNat_ofNat]

end Rsa

end CryptoCore
