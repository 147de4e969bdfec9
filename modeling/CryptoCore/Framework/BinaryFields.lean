import Mathlib.FieldTheory.Finite.Extension
import Mathlib.Tactic
import CryptoCore.Framework.BinaryPolynomials

/-!
# Irreducible binary polynomials

A polynomial over the field of two elements is irreducible when it passes Rabin's test. The powers
of the test are computed on packed polynomials, numbers whose bits are the coefficients, so that the
kernel can check the test for a polynomial of degree 128.

`irreducible_of_test` is the test itself, for a degree that is a power of two: the only maximal
proper divisor of such a degree is its half, so that two conditions are enough. The part that makes
it usable is the second section. `packedMultiply` multiplies two numbers as polynomials modulo a
third by shifts and additions, `packedClass` is the class in `AdjoinRoot` that a number stands for,
and `packedClass_squares` says that repeated squaring of numbers is repeated squaring of classes.
`irreducible_of_packed` then asks for three equations between numbers, which are decided by
evaluation.

The general facts about bits as coefficients are in `Framework/BinaryPolynomials.lean`.
-/

namespace BinaryFields

open Polynomial BinaryPolynomials

/-! ## Rabin's test -/

/-- A polynomial whose degree is a power of two has no factor of smaller degree when the variable
comes back to itself after as many squarings as the degree says, and is not congruent to itself
modulo a factor after half of them. -/
theorem irreducible_of_test {f : (ZMod 2)[X]} {e : ℕ} (hdegree : f.natDegree = 2 ^ (e + 1))
    (hwhole : f ∣ X ^ 2 ^ 2 ^ (e + 1) - X) (hhalf : IsCoprime f (X ^ 2 ^ 2 ^ e - X)) :
    Irreducible f := by
  have hf : f ≠ 0 := by
    rintro rfl
    rw [natDegree_zero] at hdegree
    exact absurd hdegree (by positivity)
  obtain ⟨g, hg, hgf⟩ := exists_irreducible_of_natDegree_pos (f := f)
    (by rw [hdegree]; positivity)
  have hcard : Nat.card (ZMod 2) = 2 := Nat.card_zmod 2
  have hdvd : g.natDegree ∣ 2 ^ (e + 1) :=
    hg.natDegree_dvd_of_dvd_X_pow_card_pow_sub_X (by rw [hcard]; exact hgf.trans hwhole)
  obtain ⟨k, hk, hgdegree⟩ := (Nat.dvd_prime_pow Nat.prime_two).mp hdvd
  have hke : k = e + 1 := by
    by_contra hne
    have hsmall : g.natDegree ∣ 2 ^ e := hgdegree ▸ pow_dvd_pow 2 (by omega)
    have hghalf := hg.natDegree_dvd_iff_dvd_X_pow_card_pow_sub_X.mp hsmall
    rw [hcard] at hghalf
    exact hg.not_isUnit (hhalf.isUnit_of_dvd' hgf hghalf)
  have hassociated : Associated g f := by
    refine associated_of_dvd_of_natDegree_le hgf hf ?_
    rw [hdegree, hgdegree, hke]
  exact hassociated.irreducible hg

/-! ## Packed polynomials -/

/-- One bit of a product: the sum so far, and the other factor times the variable. -/
def packedStep (w f a : ℕ) (i : ℕ) (state : ℕ × ℕ) : ℕ × ℕ :=
  (state.1 ^^^ a / 2 ^ i % 2 * state.2, 2 * state.2 ^^^ state.2 / 2 ^ (w - 1) % 2 * f)

/-- The product of two packed polynomials modulo a third, of which `f` holds the coefficients below
its degree `w`. -/
def packedMultiply (w f a b : ℕ) : ℕ :=
  (Loops.loopUp (packedStep w f a) w (0, b)).1

/-- A number of squarings, one after the other. -/
def packedSquares (w f n a : ℕ) : ℕ :=
  Loops.loopUp (fun _ b => packedMultiply w f b b) n a

/-- The class of a packed polynomial. Statements about numbers are proved by passing to it. -/
noncomputable def packedClass (f : (ZMod 2)[X]) (w a : ℕ) : AdjoinRoot f :=
  AdjoinRoot.mk f (ofBits w a.testBit)

lemma ofBits_testBit_xor (w a b : ℕ) :
    ofBits w (a ^^^ b).testBit = ofBits w a.testBit + ofBits w b.testBit := by
  rw [← ofBits_xor]
  exact ofBits_congr fun i _ => Nat.testBit_xor ..

lemma ofBits_testBit_select (w a k b : ℕ) :
    ofBits w (a / 2 ^ k % 2 * b).testBit = if a.testBit k then ofBits w b.testBit else 0 := by
  rw [Nat.testBit_eq_decide_div_mod_eq]
  rcases Nat.mod_two_eq_zero_or_one (a / 2 ^ k) with hbit | hbit
  · rw [hbit, zero_mul, if_neg (by simp), ← ofBits_false w]
    exact ofBits_congr fun i _ => Nat.zero_testBit i
  · rw [hbit, one_mul, if_pos (by simp)]

lemma ofBits_testBit_double (w a : ℕ) :
    ofBits w (2 * a).testBit = ofBits w (shift a.testBit) := by
  refine ofBits_congr fun i _ => ?_
  cases i with
  | zero => simp [shift]
  | succ i => rw [Nat.testBit_succ, Nat.mul_div_cancel_left a two_pos, shift]

lemma ofBits_testBit_two_pow {w k : ℕ} (hk : k < w) : ofBits w (2 ^ k).testBit = X ^ k := by
  ext n
  rw [coeff_ofBits, coeff_X_pow, Nat.testBit_two_pow]
  by_cases hn : k = n
  · subst hn
    simp [hk]
  · simp [hn, Ne.symm hn]

section Packed

variable {f : (ZMod 2)[X]} {w packed : ℕ}

/-- The product of numbers stands for the product of classes. -/
lemma packedClass_multiply (hw : 0 < w) (hf : f = X ^ w + ofBits w packed.testBit) (a b : ℕ) :
    packedClass f w (packedMultiply w packed a b) = packedClass f w a * packedClass f w b := by
  have hsum : ∀ i (state : ℕ × ℕ), packedClass f w (packedStep w packed a i state).1 =
      packedClass f w state.1 + if a.testBit i then packedClass f w state.2 else 0 := by
    intro i state
    rw [packedStep, packedClass, ofBits_testBit_xor, ofBits_testBit_select, map_add]
    refine congrArg _ ?_
    split
    next => rfl
    next => rw [map_zero]
  have hdouble : ∀ i (state : ℕ × ℕ), packedClass f w (packedStep w packed a i state).2 =
      AdjoinRoot.root f * packedClass f w state.2 := by
    intro i state
    rw [packedStep, packedClass, packedClass, mk_X_mul_ofBits hw hf, ofBits_testBit_xor,
      ofBits_testBit_select, ofBits_testBit_double]
  have hrun := loopUp_shiftAdd (packedClass f w) (AdjoinRoot.root f) a.testBit
    (packedStep w packed a) hsum hdouble w (0, b)
  have hzero : packedClass f w 0 = 0 := by
    rw [packedClass, ofBits_congr fun i _ => Nat.zero_testBit i, ofBits_false, map_zero]
  rw [packedMultiply, hrun, ← mk_ofBits, hzero, zero_add]
  rfl

/-- Squaring a number again and again raises its class to a power of two. -/
lemma packedClass_squares (hw : 0 < w) (hf : f = X ^ w + ofBits w packed.testBit) (n a : ℕ) :
    packedClass f w (packedSquares w packed n a) = packedClass f w a ^ 2 ^ n :=
  Loops.loopUp_invariant _ (fun i b => packedClass f w b = packedClass f w a ^ 2 ^ i)
    (by rw [pow_zero, pow_one]) (fun i _ b hb => by
      rw [packedClass_multiply hw hf, hb, ← pow_two, ← pow_mul, ← pow_succ])

/-- Rabin's test on packed polynomials: `half` is the variable after half of the squarings, and
`inverse` certifies that its difference from the variable is coprime to the polynomial. -/
theorem irreducible_of_packed {e : ℕ} (half inverse : ℕ) (hw : w = 2 ^ (e + 1))
    (hf : f = X ^ w + ofBits w packed.testBit)
    (hhalf : packedSquares w packed (2 ^ e) 2 = half)
    (hwhole : packedSquares w packed (2 ^ e) half = 2)
    (hinverse : packedMultiply w packed (half ^^^ 2) inverse = 1) : Irreducible f := by
  have hone : 1 < w := hw ▸ Nat.one_lt_two_pow (Nat.succ_ne_zero e)
  have hpos : 0 < w := by omega
  have hunit : ofBits w (1 : ℕ).testBit = 1 := by simpa using ofBits_testBit_two_pow hpos
  have hroot : packedClass f w 2 = AdjoinRoot.mk f X := by
    rw [packedClass]
    simpa using congrArg (AdjoinRoot.mk f) (ofBits_testBit_two_pow hone)
  have hhalfClass : packedClass f w half = AdjoinRoot.mk f (X ^ 2 ^ 2 ^ e) := by
    rw [← hhalf, packedClass_squares hpos hf, hroot, map_pow]
  have hwholeClass : AdjoinRoot.mk f (X ^ 2 ^ 2 ^ (e + 1)) = AdjoinRoot.mk f X := by
    have hsquares := packedClass_squares hpos hf (2 ^ e) half
    rw [hwhole, hhalfClass, ← map_pow, ← pow_mul, ← pow_add, ← two_mul, ← pow_succ', hroot]
      at hsquares
    exact hsquares.symm
  have hinverseClass : AdjoinRoot.mk f ((X ^ 2 ^ 2 ^ e - X) * ofBits w inverse.testBit) =
      AdjoinRoot.mk f 1 := by
    have hproduct := packedClass_multiply hpos hf (half ^^^ 2) inverse
    rw [hinverse, packedClass, packedClass, packedClass, hunit,
      ofBits_testBit_xor, map_add] at hproduct
    rw [map_mul, CharTwo.sub_eq_add, map_add, ← hhalfClass, ← hroot]
    exact hproduct.symm
  refine irreducible_of_test (e := e) ?_ (AdjoinRoot.mk_eq_mk.mp hwholeClass) ?_
  · rw [natDegree_eq_of_degree_eq_some (degree_modulus hf), hw]
  · obtain ⟨c, hc⟩ := AdjoinRoot.mk_eq_mk.mp hinverseClass
    exact ⟨-c, ofBits w inverse.testBit, by linear_combination hc⟩

end Packed

end BinaryFields
