import CryptoCore.Framework.CheckedLimbs
import CryptoCore.Construction.P256Fixed

/-!
# Arithmetic of the fixed-limb integers of P-256

The 256-bit and 512-bit operations are exact modulo any non-zero modulus, among them the moduli
above `2^255`, for which the remainder of the bitwise reduction does not always fit in 256 bits. The
powers that the field and the scalars use as inverses are inverses.

`p256FixedInteger_exact` collects this: the sign that comparison returns, the wrapping subtraction,
the product with its rows run on checked arrays (`multiplyWide_carries`, so that no carry is stored
outside the sixteen limbs), the remainder of every 512-bit number, the four operations on residues,
and the two inverses. The lemmas about values are those of `Construction/P256FixedInteger.lean`; the
part that is added here is the arithmetic of primes, with Fermat's little theorem in the form in
which the code computes with it (`mul_pow_sub_two_mod`).
-/

namespace CryptoCore

open ByteStrings CheckedAccess P256Curve

namespace P256Fixed

/-- The carries of a product end inside its sixteen limbs. -/
lemma multiplyWide_carries (x y : U256) :
    CheckedLimbs.mulRowsAt x.limbs y.limbs 8 8 0 (List.replicate 16 0) =
      .ok (multiplyWide x y).limbs := by
  have hrows := CheckedLimbs.mulRowsAt_replicate (n := 16)
    (show x.limbs.length + y.limbs.length ≤ 16 by rw [x.length_limbs, y.length_limbs])
  rw [x.length_limbs, y.length_limbs] at hrows
  exact hrows

/-- The difference of reduced numbers, as that of integers: the branch on the comparison is the sign
of the difference. -/
lemma modSubtract_int {x y m : U256} (hx : x.toNat < m.toNat) (hy : y.toNat < m.toNat) :
    ((modSubtract x y m).toNat : ℤ) = ((x.toNat : ℤ) - y.toNat) % m.toNat := by
  rw [toNat_modSubtract hx hy, Int.natCast_mod, Nat.cast_add, Nat.cast_sub hy.le, ← add_sub_assoc,
    add_sub_right_comm, Int.add_emod_right]

/-- The power that stands for an inverse modulo a prime. -/
lemma mul_pow_sub_two_mod {q v : ℕ} (hq : q.Prime) (htwo : 2 < q) (hv : v % q ≠ 0) :
    v * (v ^ (q - 2) % q) % q = 1 := by
  have : Fact q.Prime := ⟨hq⟩
  have hne : (v : ZMod q) ≠ 0 := by
    rw [Ne, ZMod.natCast_eq_zero_iff, Nat.dvd_iff_mod_eq_zero]
    exact hv
  have hcast : ((v * (v ^ (q - 2) % q) : ℕ) : ZMod q) = (1 : ℕ) := by
    rw [Nat.cast_mul, ZMod.natCast_mod, Nat.cast_pow, Primality.pow_sub_two_eq_inv htwo,
      mul_inv_cancel₀ hne, Nat.cast_one]
  rw [ZMod.natCast_eq_natCast_iff', Nat.mod_eq_of_lt (by omega : 1 < q)] at hcast
  exact hcast

/-- The inverse of a field element is below the prime and multiplies to one, for every
representative that is not a multiple of the prime. -/
lemma fieldInverse_mul (x : U256) (hx : x.toNat % p ≠ 0) :
    (fieldInverse x).toNat < p ∧ x.toNat * (fieldInverse x).toNat % p = 1 := by
  have hexp : pMinusTwoValue.toNat = p - 2 := modulus_values.2.2
  rw [fieldInverse, toNat_modExp _ _ pValue_ne_zero, toNat_pValue, hexp]
  exact ⟨Nat.mod_lt _ prime_p.pos, mul_pow_sub_two_mod prime_p (by decide +kernel) hx⟩

/-- The inverse of a scalar, in bytes, for scalars of 256 bits that are not multiples of the order.
-/
lemma scalarInverse_mul {scalar : List UInt8} (hwidth : beValue scalar < 2 ^ 256)
    (hscalar : beValue scalar % n ≠ 0) :
    ∃ inverse, scalarInverse scalar = .ok inverse ∧ beValue inverse < n ∧
      beValue scalar * beValue inverse % n = 1 := by
  refine ⟨_, by rw [scalarInverse_eq hwidth, if_neg hscalar], ?_⟩
  rw [beValue_minBeBytes, ← Nat.pow_mod]
  exact ⟨Nat.mod_lt _ prime_n.pos, mul_pow_sub_two_mod prime_n (by decide +kernel) hscalar⟩

end P256Fixed

open P256Fixed

/-- The arithmetic of the fixed backend is exact: products of two numbers with all their carries,
reductions of any 512-bit number modulo any non-zero modulus, the operations on residues, and the
inverses modulo the two primes. -/
theorem p256FixedInteger_exact :
    (∀ x y : U256,
      P256Fixed.compare x y = ((x.toNat : ℤ) - y.toNat).sign ∧
      ((subtractWrapped x y).toNat + y.toNat) % 2 ^ 256 = x.toNat ∧
      Limbs.value (multiplyWide x y).limbs = x.toNat * y.toNat ∧
      CheckedLimbs.mulRowsAt x.limbs y.limbs 8 8 0 (List.replicate 16 0) =
        .ok (multiplyWide x y).limbs) ∧
    (∀ m : U256, m.toNat ≠ 0 →
      (∀ v : U512, (reduceWide v m).toNat = Limbs.value v.limbs % m.toNat) ∧
      ∀ x y : U256,
        (P256Fixed.modAdd x y m).toNat = (x.toNat + y.toNat) % m.toNat ∧
        (x.toNat < m.toNat → y.toNat < m.toNat →
          ((P256Fixed.modSubtract x y m).toNat : ℤ) = ((x.toNat : ℤ) - y.toNat) % m.toNat) ∧
        (P256Fixed.modMultiply x y m).toNat = x.toNat * y.toNat % m.toNat ∧
        (P256Fixed.modExp x y m).toNat = x.toNat ^ y.toNat % m.toNat) ∧
    (pValue.toNat.Prime ∧ ∀ x : U256, x.toNat % pValue.toNat ≠ 0 →
      (P256Fixed.fieldInverse x).toNat < pValue.toNat ∧
      x.toNat * (P256Fixed.fieldInverse x).toNat % pValue.toNat = 1) ∧
    nValue.toNat.Prime ∧ ∀ scalar : List UInt8, beValue scalar < 2 ^ 256 →
      (beValue scalar % nValue.toNat ≠ 0 →
        ∃ inverse, P256Fixed.scalarInverse scalar = .ok inverse ∧
          beValue inverse < nValue.toNat ∧
          beValue scalar * beValue inverse % nValue.toNat = 1) ∧
      ∀ other : List UInt8, beValue other < 2 ^ 256 →
        (∃ sum, P256Fixed.scalarAddMod scalar other = .ok sum ∧
          beValue sum = (beValue scalar + beValue other) % nValue.toNat) ∧
        ∃ product, P256Fixed.scalarMultiplyMod scalar other = .ok product ∧
          beValue product = beValue scalar * beValue other % nValue.toNat := by
  refine ⟨fun x y => ?_, fun m hm => ?_, ?_, ?_⟩
  · exact ⟨P256Fixed.compare_eq x y, toNat_subtractWrapped x y, toNat_multiplyWide x y,
      multiplyWide_carries x y⟩
  · exact ⟨fun v => toNat_reduceWide v hm, fun x y => ⟨toNat_modAdd x y hm, modSubtract_int,
      toNat_modMultiply x y hm, toNat_modExp x y hm⟩⟩
  · rw [toNat_pValue]
    exact ⟨prime_p, fieldInverse_mul⟩
  · rw [toNat_nValue]
    refine ⟨prime_n, fun scalar hscalar => ⟨scalarInverse_mul hscalar, fun other hother => ?_⟩⟩
    exact ⟨⟨_, scalarAddMod_eq hscalar hother, beValue_minBeBytes _⟩, _,
      scalarMultiplyMod_eq hscalar hother, beValue_minBeBytes _⟩

end CryptoCore
