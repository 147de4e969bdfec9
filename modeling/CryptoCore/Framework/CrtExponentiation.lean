import Mathlib.Data.Nat.ChineseRemainder
import Mathlib.FieldTheory.Finite.Basic
import Mathlib.Tactic

/-!
# Exponentiation modulo a product of two primes

What a private-key operation on a product of two primes rests on. It works modulo each prime, with
an exponent that is reduced modulo `p - 1`, and puts the two residues together at the end.

* `pow_modEq_of_modEq` says that exponents count modulo `p - 1`. Exponents are positive in it, so
  that a base that the prime divides needs no exception.
* `garner` recombines two residues. The difference of the residues is taken modulo `p` without
  leaving the natural numbers, in the form in which a program computes it.
* `unblind_modEq` undoes a factor by its Fermat inverse: a base that was multiplied by `r ^ e` comes
  out of the exponentiation with a factor `r`, which `r ^ (p - 2)` removes.
* `pow_pow_mod_eq` says that inverse exponents are inverse functions below the product.

The statements are about natural numbers and `Nat.ModEq`. Powers modulo one prime are compared in
`ZMod p`, where they are those of a unit or of zero.
-/

namespace CrtExponentiation

variable {p q x y : ℕ}

/-- Positive exponents that agree modulo `p - 1` give the same powers modulo `p`, for every base. -/
theorem pow_modEq_of_modEq (hp : p.Prime) {a b : ℕ} (ha : 0 < a) (hb : 0 < b)
    (h : a ≡ b [MOD p - 1]) : x ^ a ≡ x ^ b [MOD p] := by
  have : Fact p.Prime := ⟨hp⟩
  rw [← ZMod.natCast_eq_natCast_iff, Nat.cast_pow, Nat.cast_pow]
  by_cases hx : (x : ZMod p) = 0
  · rw [hx, zero_pow ha.ne', zero_pow hb.ne']
  · have hdvd : orderOf (x : ZMod p) ∣ p - 1 :=
      orderOf_dvd_of_pow_eq_one (ZMod.pow_card_sub_one_eq_one hx)
    obtain ⟨u, hu⟩ := isUnit_iff_ne_zero.mpr hx
    rw [← hu, orderOf_units] at hdvd
    rw [← hu, ← Units.val_pow_eq_pow_val, ← Units.val_pow_eq_pow_val,
      pow_eq_pow_iff_modEq.mpr (h.of_dvd hdvd)]

/-- A power with an exponent that is one modulo `p - 1` is the number itself modulo `p`. -/
lemma pow_modEq_self (hp : p.Prime) {a : ℕ} (h : a % (p - 1) = 1) : x ^ a ≡ x [MOD p] := by
  have ha : 0 < a := Nat.pos_of_ne_zero fun h0 => by simp [h0] at h
  have hmod : a ≡ 1 [MOD p - 1] := by
    have hlt : 1 < p - 1 := by
      by_contra hle
      have := hp.two_le
      rw [show p - 1 = 1 by omega, Nat.mod_one] at h
      omega
    rw [Nat.ModEq, h, Nat.mod_eq_of_lt hlt]
  simpa using pow_modEq_of_modEq (x := x) hp ha one_pos hmod

/-- The Fermat inverse undoes a factor that the prime does not divide. -/
lemma mul_pow_sub_two_modEq (hp : p.Prime) {r : ℕ} (hr : ¬ p ∣ r) :
    r * r ^ (p - 2) ≡ 1 [MOD p] := by
  have : Fact p.Prime := ⟨hp⟩
  have hr0 : (r : ZMod p) ≠ 0 := by rwa [Ne, ZMod.natCast_eq_zero_iff]
  rw [← ZMod.natCast_eq_natCast_iff]
  push_cast
  rw [← pow_succ', show p - 2 + 1 = p - 1 by have := hp.two_le; omega,
    ZMod.pow_card_sub_one_eq_one hr0]

/-- A power of a blinded number, unblinded: the blinding exponent `e` is inverse to `f`, so that the
blinding comes out of the power as a plain factor. -/
theorem unblind_modEq (hp : p.Prime) {r e f : ℕ} (hr : ¬ p ∣ r) (hef : e * f % (p - 1) = 1) :
    (x * r ^ e) ^ f * r ^ (p - 2) ≡ x ^ f [MOD p] := by
  have hpow : (r ^ e) ^ f ≡ r [MOD p] := by
    rw [← pow_mul]
    exact pow_modEq_self hp hef
  calc (x * r ^ e) ^ f * r ^ (p - 2) = x ^ f * ((r ^ e) ^ f * r ^ (p - 2)) := by
        rw [mul_pow]
        ring
    _ ≡ x ^ f * (r * r ^ (p - 2)) [MOD p] := (hpow.mul_right _).mul_left _
    _ ≡ x ^ f * 1 [MOD p] := (mul_pow_sub_two_modEq hp hr).mul_left _
    _ = x ^ f := mul_one _

/-- Garner's formula: the two residues of a number below the product determine it. `m₁` need not be
reduced, and the subtraction modulo `p` stays above zero. -/
theorem garner {m₁ m₂ qInv : ℕ} (hp : 0 < p) (hqInv : q * qInv % p = 1 % p)
    (h₁ : m₁ ≡ y [MOD p]) (h₂ : m₂ ≡ y [MOD q]) (hy : y < p * q) :
    (m₂ + q * (qInv * ((m₁ % p + (p - m₂ % p)) % p) % p) % (p * q)) % (p * q) = y := by
  set t := qInv * ((m₁ % p + (p - m₂ % p)) % p) % p
  have hcop : p.Coprime q := by
    have h : q * qInv ≡ 1 [MOD p] := hqInv
    have hcop : (q * qInv).Coprime p := by rw [Nat.Coprime, h.gcd_eq, Nat.gcd_one_left]
    exact hcop.coprime_mul_right.symm
  have hdiff : m₂ + (m₁ % p + (p - m₂ % p)) % p ≡ m₁ [MOD p] := by
    have hlt := Nat.mod_lt m₂ hp
    calc m₂ + (m₁ % p + (p - m₂ % p)) % p
        ≡ m₂ % p + (m₁ % p + (p - m₂ % p)) [MOD p] :=
          (Nat.mod_modEq _ _).symm.add (Nat.mod_modEq _ _)
      _ = m₁ % p + p := by omega
      _ ≡ m₁ [MOD p] := by
          rw [Nat.ModEq, Nat.add_mod_right, Nat.mod_mod]
  have hmodp : m₂ + q * t ≡ y [MOD p] := by
    refine Nat.ModEq.trans ?_ h₁
    refine Nat.ModEq.trans (Nat.ModEq.add_left _ ?_) hdiff
    calc q * t ≡ q * (qInv * ((m₁ % p + (p - m₂ % p)) % p)) [MOD p] :=
          (Nat.mod_modEq _ _).mul_left _
      _ = q * qInv * ((m₁ % p + (p - m₂ % p)) % p) := (mul_assoc _ _ _).symm
      _ ≡ 1 * ((m₁ % p + (p - m₂ % p)) % p) [MOD p] := Nat.ModEq.mul_right _ hqInv
      _ = (m₁ % p + (p - m₂ % p)) % p := one_mul _
  have hmodq : m₂ + q * t ≡ y [MOD q] := by
    have : m₂ + q * t ≡ m₂ [MOD q] := by rw [Nat.ModEq, Nat.add_mul_mod_self_left]
    exact this.trans h₂
  have hmod : m₂ + q * t ≡ y [MOD p * q] :=
    (Nat.modEq_and_modEq_iff_modEq_mul hcop).mp ⟨hmodp, hmodq⟩
  rw [Nat.add_mod_mod, hmod, Nat.mod_eq_of_lt hy]

/-- Inverse exponents: below the product of two coprime primes, raising to `d` and then to `e`
gives the number back. -/
theorem pow_pow_mod_eq (hp : p.Prime) (hq : q.Prime) (hcop : p.Coprime q) {d e : ℕ}
    (hep : e * d % (p - 1) = 1) (heq : e * d % (q - 1) = 1) (hx : x < p * q) :
    (x ^ d % (p * q)) ^ e % (p * q) = x := by
  rw [← Nat.pow_mod, ← pow_mul, mul_comm d e]
  have hmod : x ^ (e * d) ≡ x [MOD p * q] :=
    (Nat.modEq_and_modEq_iff_modEq_mul hcop).mp ⟨pow_modEq_self hp hep, pow_modEq_self hq heq⟩
  rw [hmod, Nat.mod_eq_of_lt hx]

end CrtExponentiation
