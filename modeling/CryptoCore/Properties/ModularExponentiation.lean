import CryptoCore.Framework.CheckedLimbs
import CryptoCore.Construction.Rsa

/-!
# Modular exponentiation

The three exponentiations of `BigInt` return the same power, and the two that work bit by bit
through a given width fail when the exponent does not fit in it. The Montgomery product is stated a
second time with every index of its accumulator checked; for an odd modulus it never faults.

The exponentiation at a fixed width reduces the exponent to its bits; on an exponent that has no
more, it is the one of `BigInt`.

That each loop computes the power is shown in the construction, with the prefix of the exponent as
the invariant of the square-and-multiply loop and two consecutive prefixes as that of the two
ladders. What is added here are the failures, so that the theorem says for every base, exponent,
modulus and width what is returned. The modulus is not zero, which is the one thing that all three
check first. The Montgomery ladder also needs it to be odd, since its reduction divides by a power
of two modulo it.
-/

namespace CryptoCore

open ByteStrings CheckedAccess

namespace BigInt

/-! ## The Montgomery product with checked indices -/

/-- The `montgomery_multiply` of the Montgomery ladder, in an accumulator that is accessed by index,
and with the copy of the result checked too. -/
def montgomeryMultiplyChecked (modulus : BigInt) (n0Inverse : UInt32) (lhs rhs : BigInt) :
    Checked BigInt := do
  let width := modulus.limbs.length
  let left := fixedLimbs (mod lhs modulus) width
  let right := fixedLimbs (mod rhs modulus) width
  let accumulator ←
    CheckedLimbs.montgomeryAccumulateAt left right modulus.limbs n0Inverse (2 * width + 2)
  let reduced ← slice accumulator width (width + 1)
  let result := ofLimbs reduced
  return if result.compare modulus ≥ 0 then subtract result modulus else result

/-- For an odd modulus the carries and the copy of the result stay inside the accumulator. -/
theorem montgomeryMultiplyChecked_eq {m : BigInt} (hodd : m.toNat % 2 = 1) (x y : BigInt) :
    montgomeryMultiplyChecked m (Limbs.lowInverse (m.limbs.getD 0 0)) x y =
      .ok (montgomeryMultiply m (Limbs.lowInverse (m.limbs.getD 0 0)) x y) := by
  have hmpos : 0 < m.toNat := by omega
  have hlength : ∀ z : BigInt, (mod z m).limbs.length ≤ m.limbs.length := fun z =>
    length_le_of_lt (by rw [toNat_mod]; exact Nat.mod_lt _ hmpos)
  have hlt : Limbs.value (fixedLimbs (mod y m) m.limbs.length) < Limbs.value m.limbs := by
    rw [value_fixedLimbs (hlength y), toNat_mod]
    exact Nat.mod_lt _ hmpos
  have haccumulator := CheckedLimbs.montgomeryAccumulateAt_eq
    (fixedLimbs (mod x m) m.limbs.length) (fixedLimbs (mod y m) m.limbs.length) m.limbs
    (2 * m.limbs.length + 2) (low_limb_ne_zero_of_odd hodd) (length_fixedLimbs _ _)
    (length_fixedLimbs _ _) (Nat.le_succ _) hlt
  have hroom : m.limbs.length + (m.limbs.length + 1) ≤
      (Limbs.montgomeryAccumulate (fixedLimbs (mod x m) m.limbs.length)
        (fixedLimbs (mod y m) m.limbs.length) m.limbs (Limbs.lowInverse (m.limbs.getD 0 0))
        (2 * m.limbs.length + 2)).length := by
    rw [Limbs.montgomeryAccumulate, Limbs.length_redcRows, Limbs.length_mulRows,
      List.length_replicate]
    omega
  rw [montgomeryMultiplyChecked, haccumulator, checked_bind, slice_eq hroom, checked_bind]
  rfl

/-! ## What the exponentiations return -/

section Failures

variable {m : BigInt}

lemma modExpSecret_error (base exponent : BigInt) (hm : m.toNat ≠ 0) {bits : ℕ}
    (hbits : bits < exponent.toNat.size) :
    modExpSecret base exponent m bits = .error exponentWidthError := by
  rw [modExpSecret, isZero_eq_false hm, if_neg (by simp), if_pos (by rwa [bitLength_eq])]

lemma modExpSecretMontgomery_error (base exponent : BigInt) (hm : m.toNat ≠ 0) {bits : ℕ}
    (h : bits < exponent.toNat.size ∨ m.toNat % 2 = 0) :
    ∃ e, modExpSecretMontgomery base exponent m bits = .error e := by
  rw [modExpSecretMontgomery, isZero_eq_false hm, if_neg (by simp), bitLength_eq]
  by_cases hwidth : exponent.toNat.size > bits
  · exact ⟨_, if_pos hwidth⟩
  · have heven : m.limbs.getD 0 0 &&& 1 = 0 := by
      by_contra hodd
      have := odd_of_low_limb hodd
      omega
    rw [if_neg hwidth, if_pos heven]
    exact ⟨_, rfl⟩

end Failures

end BigInt

open BigInt

/-- Every exponentiation returns the power, where the width of the exponent and the parity of the
modulus allow it, and no Montgomery product leaves its accumulator. -/
theorem modExp_agree (base exponent modulus : BigInt) (hmodulus : modulus.toNat ≠ 0) :
    modExp base exponent modulus =
        .ok (BigInt.ofNat (base.toNat ^ exponent.toNat % modulus.toNat)) ∧
      (∀ exponentBits, exponent.toNat.size ≤ exponentBits →
        modExpSecret base exponent modulus exponentBits =
          .ok (BigInt.ofNat (base.toNat ^ exponent.toNat % modulus.toNat))) ∧
      (∀ exponentBits, exponentBits < exponent.toNat.size →
        ∃ e, modExpSecret base exponent modulus exponentBits = .error e) ∧
      (∀ exponentBits, exponent.toNat.size ≤ exponentBits → modulus.toNat % 2 = 1 →
        modExpSecretMontgomery base exponent modulus exponentBits =
          .ok (BigInt.ofNat (base.toNat ^ exponent.toNat % modulus.toNat))) ∧
      (∀ exponentBits, exponentBits < exponent.toNat.size ∨ modulus.toNat % 2 = 0 →
        ∃ e, modExpSecretMontgomery base exponent modulus exponentBits = .error e) ∧
      (modulus.toNat % 2 = 1 → ∀ lhs rhs,
        let n0Inverse := Limbs.lowInverse (modulus.limbs.getD 0 0)
        montgomeryMultiplyChecked modulus n0Inverse lhs rhs =
          .ok (montgomeryMultiply modulus n0Inverse lhs rhs)) := by
  refine ⟨modExp_eq base exponent hmodulus, ?_, ?_, ?_, ?_, ?_⟩
  · exact fun _ hbits => modExpSecret_eq base exponent hmodulus hbits
  · exact fun _ hbits => ⟨_, modExpSecret_error base exponent hmodulus hbits⟩
  · exact fun _ hbits hodd => modExpSecretMontgomery_eq base exponent hodd hbits
  · exact fun _ h => modExpSecretMontgomery_error base exponent hmodulus h
  · exact fun hodd lhs rhs => montgomeryMultiplyChecked_eq hodd lhs rhs

/-- Three to the fifth modulo seven. -/
theorem modExp_agree_three :
    modExp (BigInt.ofNat 3) (BigInt.ofNat 5) (BigInt.ofNat 7) = .ok (BigInt.ofNat 5) := by
  have h := (modExp_agree (BigInt.ofNat 3) (BigInt.ofNat 5) (BigInt.ofNat 7) (by simp)).1
  simpa using h

/-! ## Exponentiation at a fixed width -/

/-- On an odd modulus above one, a byte string of any length is reduced and raised to an exponent
cut to a number of bits. With all bits of an exponent as wide as the modulus, the power is the one
of `BigInt`. -/
theorem fixedModExp_reference :
    (∀ (modulus : RsaFixedBigInt) (baseBytes exponent : List UInt8) (exponentBits : ℕ),
      modulus.toNat % 2 = 1 → 1 < modulus.toNat →
      ∃ base power, RsaFixedBigInt.fromBeBytesMod baseBytes modulus = .ok base ∧
        base.width = modulus.width ∧ base.toNat = beValue baseBytes % modulus.toNat ∧
        RsaFixedBigInt.montgomeryModExpSecret base exponent modulus exponentBits = .ok power ∧
        power.width = modulus.width ∧
        power.toNat =
          beValue baseBytes ^ (beValue exponent % 2 ^ exponentBits) % modulus.toNat) ∧
    (∀ baseBytes exponent modulusBytes : List UInt8, beValue modulusBytes % 2 = 1 →
      1 < beValue modulusBytes → modulusBytes.length ≤ 256 →
      beValue exponent < 2 ^ (8 * modulusBytes.length) →
      ∃ power, Rsa.fixedModExpToBigint baseBytes exponent modulusBytes (8 * modulusBytes.length) =
          .ok power ∧
        (do
          let base ← BigInt.fromBeBytes baseBytes
          let exponent ← BigInt.fromBeBytes exponent
          let modulus ← BigInt.fromBeBytes modulusBytes
          BigInt.modExp base exponent modulus) = .ok power) := by
  constructor
  · intro modulus baseBytes exponent exponentBits hodd hone
    have hm : RsaFixedBigInt.MontgomeryModulus modulus := ⟨hodd, hone⟩
    obtain ⟨base, hbase, hwidth, hvalue⟩ := RsaFixedBigInt.fromBeBytesMod_spec hm baseBytes
    obtain ⟨power, hpower, hpowerWidth, hpowerValue⟩ :=
      RsaFixedBigInt.montgomeryModExpSecret_spec hm ⟨hwidth, hvalue⟩ (Nat.mod_lt _ hm.pos)
        exponent exponentBits
    refine ⟨base, power, hbase, hwidth, hvalue, hpower, hpowerWidth, ?_⟩
    rw [hpowerValue, ← Nat.pow_mod]
  · intro baseBytes exponent modulusBytes hodd hone hlength hexponent
    rw [Nat.mul_comm] at hexponent ⊢
    refine ⟨_, Rsa.fixedModExpToBigint_eq baseBytes exponent hodd hone hlength hexponent, ?_⟩
    rw [BigInt.fromBeBytes_eq, ok_bind, BigInt.fromBeBytes_eq, ok_bind, BigInt.fromBeBytes_eq,
      ok_bind, BigInt.modExp_eq _ _ (by rw [BigInt.toNat_ofNat]; omega)]
    simp only [BigInt.toNat_ofNat]

/-- Two to the eighth modulo 257, which has two bytes: the power is minus one. -/
theorem fixedModExp_reference_fermat :
    ∃ power, Rsa.fixedModExpToBigint [0x02] [0x08] [0x01, 0x01] 16 = .ok power ∧
      (do
        let base ← BigInt.fromBeBytes [0x02]
        let exponent ← BigInt.fromBeBytes [0x08]
        let modulus ← BigInt.fromBeBytes [0x01, 0x01]
        BigInt.modExp base exponent modulus) = .ok power :=
  fixedModExp_reference.2 [0x02] [0x08] [0x01, 0x01] (by decide) (by decide) (by decide)
    (by decide)

end CryptoCore
