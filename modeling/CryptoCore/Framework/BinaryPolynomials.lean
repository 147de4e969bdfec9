import Mathlib.Algebra.CharP.Two
import Mathlib.Algebra.Polynomial.Div
import Mathlib.Data.ZMod.Basic
import Mathlib.RingTheory.AdjoinRoot
import Mathlib.Tactic
import CryptoCore.Framework.Loops

/-!
# Polynomials over the field of two elements, as bits

A string of bits stands for the polynomial with these coefficients. Adding is combining bit by bit,
and multiplying by the variable is a shift, which takes a reduction where the last bit leaves the
string. `loopUp_shiftAdd` is multiplication by shifts and additions, and `foldl_horner` is the
evaluation of a polynomial by Horner's rule; both are stated over any commutative semiring.

The first section sets up `ofBits` and its lemmas, one for each operation on bits. The second one
works modulo a polynomial `X ^ w + low`: in `AdjoinRoot` the bit that a shift loses comes back as
the lower part (`mk_X_mul_ofBits`), and a string of `w` bits is the remainder of whatever it is
congruent to (`ofBits_eq_modByMonic`), so that congruent strings are equal. A loop that works on
bits is therefore determined by its class, which the third section computes for the loop that every
such multiplication is.

Used for the hash of the authenticated mode and for the packed polynomials of
`Framework/BinaryFields.lean`.
-/

namespace BinaryPolynomials

open Polynomial

/-! ## Bits as coefficients -/

section Bits

variable {w : ℕ} {a b : ℕ → Bool}

/-- The polynomial whose coefficients below `w` are the bits; what the bits are from `w` on is
ignored. -/
noncomputable def ofBits (w : ℕ) (bit : ℕ → Bool) : (ZMod 2)[X] :=
  ∑ i ∈ Finset.range w, if bit i then X ^ i else 0

/-- The coefficients are the bits, and vanish from the width on. -/
lemma coeff_ofBits (w : ℕ) (bit : ℕ → Bool) (n : ℕ) :
    (ofBits w bit).coeff n = if n < w ∧ bit n = true then 1 else 0 := by
  have hterm : ∀ i, (if bit i then X ^ i else (0 : (ZMod 2)[X])).coeff n =
      if i = n then (if bit n then 1 else 0) else 0 := by
    intro i
    by_cases hi : i = n
    · subst hi
      by_cases hbit : bit i = true <;> simp [hbit]
    · by_cases hbit : bit i = true <;> simp [hbit, hi, coeff_X_pow, Ne.symm hi]
  rw [ofBits, finsetSum_coeff, Finset.sum_congr rfl fun i _ => hterm i, Finset.sum_ite_eq']
  by_cases hn : n < w <;> simp [hn]

lemma degree_ofBits_lt (w : ℕ) (bit : ℕ → Bool) : (ofBits w bit).degree < w := by
  rw [degree_lt_iff_coeff_zero]
  intro n hn
  rw [coeff_ofBits, if_neg fun h => absurd h.1 (Nat.not_lt.mpr hn)]

lemma ofBits_congr (h : ∀ i < w, a i = b i) : ofBits w a = ofBits w b :=
  Finset.sum_congr rfl fun i hi => by rw [h i (Finset.mem_range.mp hi)]

/-- A string of bits is determined by its polynomial. -/
lemma ofBits_injective (h : ofBits w a = ofBits w b) {i : ℕ} (hi : i < w) : a i = b i := by
  have hcoeff := congrArg (fun p => p.coeff i) h
  simp only [coeff_ofBits, hi, true_and] at hcoeff
  cases ha : a i <;> cases hb : b i <;> simp_all

lemma ofBits_false (w : ℕ) : ofBits w (fun _ => false) = 0 :=
  Finset.sum_eq_zero fun _ _ => rfl

/-- Combining bit by bit is adding, since two is zero in the coefficients. -/
lemma ofBits_xor (w : ℕ) (a b : ℕ → Bool) :
    ofBits w (fun i => a i ^^ b i) = ofBits w a + ofBits w b := by
  rw [ofBits, ofBits, ofBits, ← Finset.sum_add_distrib]
  refine Finset.sum_congr rfl fun i _ => ?_
  cases a i <;> cases b i <;> simp [CharTwo.add_self_eq_zero]

/-- The bits one place up; the first one is clear. The bit that leaves the string is not kept. -/
def shift (bit : ℕ → Bool) : ℕ → Bool
  | 0 => false
  | i + 1 => bit i

/-- A shift multiplies by the variable, up to the bit that leaves the string and becomes a power of
its own. -/
lemma X_mul_ofBits (w : ℕ) (bit : ℕ → Bool) :
    X * ofBits (w + 1) bit = ofBits (w + 1) (shift bit) + if bit w then X ^ (w + 1) else 0 := by
  have hshifted : ofBits (w + 1) (shift bit) =
      ∑ i ∈ Finset.range w, if bit i then X ^ (i + 1) else 0 := by
    rw [ofBits, Finset.sum_range_succ', if_neg (by rw [shift]; exact Bool.false_ne_true), add_zero]
    rfl
  rw [hshifted, ofBits, Finset.mul_sum, Finset.sum_range_succ]
  refine congrArg₂ (· + ·) (Finset.sum_congr rfl fun i _ => ?_) ?_
  · rw [mul_ite, mul_zero, ← pow_succ']
  · rw [mul_ite, mul_zero, ← pow_succ']

end Bits

/-! ## Reduction -/

section Reduction

variable {f : (ZMod 2)[X]} {w : ℕ} {low : ℕ → Bool}

/-- Modulo `X ^ w` and a lower part, the bit that a shift loses comes back as the lower part. -/
lemma mk_X_mul_ofBits (hw : 0 < w) (hf : f = X ^ w + ofBits w low) (bit : ℕ → Bool) :
    AdjoinRoot.root f * AdjoinRoot.mk f (ofBits w bit) =
      AdjoinRoot.mk f (ofBits w (shift bit) + if bit (w - 1) then ofBits w low else 0) := by
  obtain ⟨w, rfl⟩ := Nat.exists_eq_succ_of_ne_zero hw.ne'
  rw [← AdjoinRoot.mk_X, ← map_mul, X_mul_ofBits, map_add, map_add]
  refine congrArg _ ?_
  rw [Nat.succ_sub_one]
  split
  · rw [AdjoinRoot.mk_eq_mk, CharTwo.sub_eq_add, hf]
  · rfl

lemma mk_ofBits (f : (ZMod 2)[X]) (w : ℕ) (bit : ℕ → Bool) :
    AdjoinRoot.mk f (ofBits w bit) =
      ∑ i ∈ Finset.range w, if bit i then AdjoinRoot.root f ^ i else 0 := by
  rw [ofBits, map_sum]
  refine Finset.sum_congr rfl fun i _ => ?_
  split
  · rw [map_pow, AdjoinRoot.mk_X]
  · rw [map_zero]

lemma monic_modulus (hf : f = X ^ w + ofBits w low) : f.Monic :=
  hf ▸ monic_X_pow_add (degree_ofBits_lt w low)

lemma degree_modulus (hf : f = X ^ w + ofBits w low) : f.degree = w := by
  have hlow : (ofBits w low).degree < (X ^ w : (ZMod 2)[X]).degree := by
    rw [degree_X_pow]
    exact degree_ofBits_lt w low
  rw [hf, degree_add_eq_left_of_degree_lt hlow, degree_X_pow]

/-- A string of bits is the remainder of whatever it is congruent to, because its degree is below
that of the modulus. -/
lemma ofBits_eq_modByMonic (hf : f = X ^ w + ofBits w low) {bit : ℕ → Bool} {p : (ZMod 2)[X]}
    (h : AdjoinRoot.mk f (ofBits w bit) = AdjoinRoot.mk f p) : ofBits w bit = p %ₘ f := by
  have hdegree : (ofBits w bit).degree < f.degree := by
    rw [degree_modulus hf]
    exact degree_ofBits_lt w bit
  rw [← (modByMonic_eq_self_iff (monic_modulus hf)).mpr hdegree]
  exact modByMonic_eq_of_dvd_sub (monic_modulus hf) (AdjoinRoot.mk_eq_mk.mp h)

/-- Congruent strings of bits are the same, so that equations of classes are equations of bits. -/
lemma ofBits_eq_of_mk_eq (hf : f = X ^ w + ofBits w low) {a b : ℕ → Bool}
    (h : AdjoinRoot.mk f (ofBits w a) = AdjoinRoot.mk f (ofBits w b)) : ofBits w a = ofBits w b :=
  (ofBits_eq_modByMonic hf h).trans (ofBits_eq_modByMonic hf rfl).symm

end Reduction

/-! ## Multiplication and evaluation -/

section Semiring

variable {R : Type*} [CommSemiring R]

/-- Multiplication by shifts and additions: `double` multiplies by `t`, and the bits are the
coefficients of a polynomial at `t`. The two hypotheses are one round of such a loop. -/
theorem loopUp_shiftAdd {σ : Type*} (val : σ → R) (t : R) (bit : ℕ → Bool)
    (body : ℕ → σ × σ → σ × σ)
    (hsum : ∀ i s, val (body i s).1 = val s.1 + if bit i then val s.2 else 0)
    (hdouble : ∀ i s, val (body i s).2 = t * val s.2) (n : ℕ) (s : σ × σ) :
    val (Loops.loopUp body n s).1 =
      val s.1 + (∑ i ∈ Finset.range n, if bit i then t ^ i else 0) * val s.2 := by
  have hrun := Loops.loopUp_invariant (n := n) body
    (fun i (state : σ × σ) =>
      val state.1 = val s.1 + (∑ k ∈ Finset.range i, if bit k then t ^ k else 0) * val s.2 ∧
        val state.2 = t ^ i * val s.2)
    (s := s) (by simp) (by
      rintro i - state ⟨hz, hv⟩
      refine ⟨?_, by rw [hdouble, hv, pow_succ', mul_assoc]⟩
      rw [hsum, hz, hv, Finset.sum_range_succ, add_mul, ← add_assoc, ite_mul, zero_mul])
  exact hrun.1

/-- Horner's rule, with the last coefficient multiplied as well, as in a hash that multiplies after
every block. -/
theorem foldl_horner (h : R) (bs : List R) (y : R) :
    bs.foldl (fun y b => (y + b) * h) y =
      y * h ^ bs.length + ∑ i ∈ Finset.range bs.length, bs.getD i 0 * h ^ (bs.length - i) := by
  induction bs generalizing y with
  | nil => simp
  | cons b bs ih =>
      rw [List.foldl_cons, ih, List.length_cons, Finset.sum_range_succ']
      simp only [List.getD_cons_succ, List.getD_cons_zero, Nat.add_sub_add_right, Nat.sub_zero]
      ring

end Semiring

end BinaryPolynomials
