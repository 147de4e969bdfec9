import CryptoCore.Framework.CheckedLimbs
import CryptoCore.Construction.RsaFixedBigInt

/-!
# Montgomery arithmetic at full width

The Montgomery product and the helpers that reduce by one subtraction, for every odd modulus of
every width. The accumulator of the product is stated a second time with carry loops that fault
where a carry would run past its end; the bounded loops of the source drop such a carry.

The accumulator of the source has a fixed size, for the widest modulus, and a narrower modulus uses
the front of it. `accumulator_carries` says that no row carries past the end, which follows from the
second factor being below the modulus, and is tight in the widths: at the full width one limb of
room is left. The bounded loops then drop nothing, so that the product is exact.

Doubling and adding one can leave the width by one bit. The helpers keep that bit as a carry, and
subtract the modulus when it is set or the limbs are not below the modulus; the theorem says that
the result is right in either case. A number is determined by its width and its value, so that the
round trip through the scaled representation is an equation between integers.
-/

namespace CryptoCore

namespace RsaFixedBigInt

variable {m a b : RsaFixedBigInt}

lemma ext_is {width n : ℕ} (ha : Is width a n) (hb : Is width b n) : a = b := by
  obtain ⟨as, hvalid⟩ := a
  obtain ⟨bs, hvalid'⟩ := b
  obtain rfl : as = bs :=
    Limbs.value_injective (ha.1.trans hb.1.symm) (ha.2.trans hb.2.symm)
  rfl

lemma MontgomeryModulus.low_limb (hm : MontgomeryModulus m) : m.limbs.getD 0 0 &&& 1 ≠ 0 := by
  rw [Ne, low_limb_and_one]
  have := hm.odd
  omega

lemma montgomeryN0Inverse_eq (hm : MontgomeryModulus m) :
    montgomeryN0Inverse m = .ok (Limbs.lowInverse (m.limbs.getD 0 0)) := by
  rw [montgomeryN0Inverse, requireMontgomeryModulus_ok hm.odd hm.one_lt]
  rfl

/-- The carries of a product end inside the accumulator, for every width that a modulus may have. -/
lemma accumulator_carries (hm : MontgomeryModulus m) (haw : a.width = m.width)
    (hbw : b.width = m.width) (hb : b.toNat < m.toNat) {n0Inverse : UInt32}
    (hinverse : montgomeryN0Inverse m = .ok n0Inverse) :
    CheckedLimbs.montgomeryAccumulateAt a.limbs b.limbs m.limbs n0Inverse (2 * kMaxLimbs + 2) =
      .ok (Limbs.montgomeryAccumulate a.limbs b.limbs m.limbs n0Inverse
        (2 * kMaxLimbs + 2)) := by
  obtain rfl := Except.ok.inj ((montgomeryN0Inverse_eq hm).symm.trans hinverse)
  exact CheckedLimbs.montgomeryAccumulateAt_eq a.limbs b.limbs m.limbs _ hm.low_limb haw hbw
    (by have := m.valid.2; omega) hb

/-- The product is the one reduced number that `2^(32 * width)` takes to the product of the
factors. -/
lemma montgomeryMultiply_unique (hm : MontgomeryModulus m) (haw : a.width = m.width)
    (hbw : b.width = m.width) (ha : a.toNat < m.toNat) (hb : b.toNat < m.toNat) :
    ∃ product, montgomeryMultiply a b m = .ok product ∧ product.width = m.width ∧
      ∀ n, n = product.toNat ↔
        n < m.toNat ∧ 2 ^ (32 * m.width) * n ≡ a.toNat * b.toNat [MOD m.toNat] := by
  obtain ⟨product, hproduct, hwidth, hlt, hmod⟩ := montgomeryMultiply_spec hm haw hbw ha hb
  refine ⟨product, hproduct, hwidth, fun n => ⟨?_, fun ⟨hn, hnmod⟩ => ?_⟩⟩
  · rintro rfl
    exact ⟨hlt, hmod⟩
  · have hcancel : n ≡ product.toNat [MOD m.toNat] :=
      Nat.ModEq.cancel_left_of_coprime (hm.coprime _) (hnmod.trans hmod.symm)
    rwa [Nat.ModEq, Nat.mod_eq_of_lt hn, Nat.mod_eq_of_lt hlt] at hcancel

/-- Into the scaled representation and back, for a number below the modulus. -/
lemma fromMontgomery_toMontgomery (hm : MontgomeryModulus m) (haw : a.width = m.width)
    (ha : a.toNat < m.toNat) :
    ∃ scaledValue, toMontgomery a m = .ok scaledValue ∧ scaledValue.width = m.width ∧
      scaledValue.toNat = 2 ^ (32 * m.width) * a.toNat % m.toNat ∧
      fromMontgomery scaledValue m = .ok a := by
  obtain ⟨x, hto, hx⟩ := toMontgomery_spec hm (x := a) ⟨haw, rfl⟩ ha
  obtain ⟨y, hfrom, hy⟩ := fromMontgomery_spec hm hx
  rw [Nat.mod_eq_of_lt ha] at hy
  refine ⟨x, hto, hx.1, hx.2, ?_⟩
  rw [hfrom, ext_is hy ⟨haw, rfl⟩]

end RsaFixedBigInt

open RsaFixedBigInt

/-- Montgomery arithmetic modulo any odd number above one: the product of reduced factors is their
product divided by `2^(32 * width)`, without a carry that is dropped; doubling and adding one are
exact modulo the number, also where the sum does not fit in the width; a number can be scaled and
scaled back. -/
theorem montgomery_exact (m : RsaFixedBigInt) (hodd : m.toNat % 2 = 1) (hone : 1 < m.toNat) :
    (∃ n0Inverse, montgomeryN0Inverse m = .ok n0Inverse ∧ m.limbs.getD 0 0 * n0Inverse = -1 ∧
      ∀ a b : RsaFixedBigInt, a.width = m.width → b.width = m.width → a.toNat < m.toNat →
        b.toNat < m.toNat →
          CheckedLimbs.montgomeryAccumulateAt a.limbs b.limbs m.limbs n0Inverse
              (2 * kMaxLimbs + 2) =
            .ok (Limbs.montgomeryAccumulate a.limbs b.limbs m.limbs n0Inverse
              (2 * kMaxLimbs + 2)) ∧
          ∃ product, montgomeryMultiply a b m = .ok product ∧ product.width = m.width ∧
            ∀ n, n = product.toNat ↔
              n < m.toNat ∧ 2 ^ (32 * m.width) * n ≡ a.toNat * b.toNat [MOD m.toNat]) ∧
    (∀ a : RsaFixedBigInt, a.width = m.width → a.toNat < m.toNat →
      Is m.width (doubleMod a m) (2 * a.toNat % m.toNat) ∧
      Is m.width (addOneMod a m) ((a.toNat + 1) % m.toNat) ∧
      ∃ scaledValue, toMontgomery a m = .ok scaledValue ∧ scaledValue.width = m.width ∧
        scaledValue.toNat = 2 ^ (32 * m.width) * a.toNat % m.toNat ∧
        fromMontgomery scaledValue m = .ok a) ∧
    (∀ (x : RsaFixedBigInt) (highLimb : UInt32) (total : ℕ), x.width = m.width →
      total = x.toNat + 2 ^ (32 * m.width) * highLimb.toNat → total < 2 * m.toNat →
      Is m.width (subtractModulusIfNeeded x m highLimb)
        (if total < m.toNat then total else total - m.toNat)) ∧
    ∃ rSquared, montgomeryRSquared m = .ok rSquared ∧ rSquared.width = m.width ∧
      rSquared.toNat = 2 ^ (64 * m.width) % m.toNat := by
  have hm : MontgomeryModulus m := ⟨hodd, hone⟩
  refine ⟨?_, fun a haw ha => ?_, fun x highLimb total hw htotal hlt => ?_,
    montgomeryRSquared_spec hm⟩
  · have hinverse := montgomeryN0Inverse_eq hm
    exact ⟨_, hinverse, Limbs.lowInverse_spec hm.low_limb, fun a b haw hbw ha hb =>
      ⟨accumulator_carries hm haw hbw hb hinverse, montgomeryMultiply_unique hm haw hbw ha hb⟩⟩
  · exact ⟨doubleMod_spec haw ha, addOneMod_spec haw ha, fromMontgomery_toMontgomery hm haw ha⟩
  · have hspec := subtractModulusIfNeeded_spec x m highLimb highLimb.toNat hw
      (not_congr (by rw [← UInt32.toNat_inj, UInt32.toNat_zero])) (htotal ▸ hlt)
    rw [← htotal] at hspec
    split
    next hless => rwa [Nat.mod_eq_of_lt hless] at hspec
    next hless =>
      rwa [Nat.mod_eq_sub_mod (Nat.not_lt.mp hless), Nat.mod_eq_of_lt (by omega)] at hspec

/-- A modulus of one limb with its top bit set. -/
theorem montgomery_exact_topBit :
    ∃ rSquared, montgomeryRSquared ⟨[0xFFFFFFFF], by decide⟩ = .ok rSquared ∧
      rSquared.toNat = 2 ^ 64 % 0xFFFFFFFF := by
  obtain ⟨-, -, -, rSquared, hok, -, hvalue⟩ :=
    montgomery_exact ⟨[0xFFFFFFFF], by decide⟩ rfl (by decide)
  exact ⟨rSquared, hok, hvalue⟩

end CryptoCore
