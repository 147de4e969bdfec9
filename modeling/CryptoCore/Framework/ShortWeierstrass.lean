import Mathlib.AlgebraicGeometry.EllipticCurve.Affine.Point
import Mathlib.Tactic.FieldSimp
import CryptoCore.Framework.Loops

/-!
# Short Weierstrass curves in Jacobian coordinates

The curve `y² = x³ + a x + b` over a field, its chord and tangent formulas, and the mixed Jacobian
formulas with an explicit flag for the point at infinity. `Jacobian.Represents` relates a Jacobian
triple to a point of the group of the curve; doubling and mixed addition respect it, and so does
every double-and-add loop built from them.

The group is Mathlib's, for a Weierstrass curve with three of its coefficients zero. Its points
carry a proof that they are not singular, so `IsAt` is the way to speak of a point by its
coordinates: the lemmas about it (`IsAt.add_of_ne`, `IsAt.add_self`, `IsAt.add_eq_zero`) are the
three cases of the group law, with the formulas as they are written for this form of the equation.

Jacobian coordinates postpone the division: a triple stands for `(x / z², y / z³)`. The formulas
divide by `z` nowhere, but they give the coordinate zero where the result is the point at infinity,
and `checked` turns that into the flag. The cases of the mixed addition are those of the group law
again, told apart by comparing scaled coordinates.

The characteristic is not two. Nothing else is assumed of the field, and the group law does not need
the curve to be without singular points; `pointAt` does.
-/

namespace ShortWeierstrass

open WeierstrassCurve.Affine

variable {F : Type*} [Field F]

/-- The curve `y² = x³ + a x + b`, as a Weierstrass curve with three coefficients zero. -/
def curve (a b : F) : WeierstrassCurve.Affine F where
  a₁ := 0
  a₂ := 0
  a₃ := 0
  a₄ := a
  a₆ := b

variable {a b : F}

/-- The curve equation of a pair of coordinates, written with products only. -/
def OnCurve (a b x y : F) : Prop :=
  y * y = x * x * x + a * x + b

instance [DecidableEq F] (x y : F) : Decidable (OnCurve a b x y) :=
  inferInstanceAs (Decidable (_ = _))

lemma equation_iff (x y : F) : (curve a b).Equation x y ↔ OnCurve a b x y := by
  rw [WeierstrassCurve.Affine.equation_iff]
  simp only [curve, OnCurve]
  constructor <;> intro h <;> linear_combination h

lemma negY_eq (x y : F) : (curve a b).negY x y = -y := by
  simp [negY, curve]

lemma discriminant_eq : (curve a b).Δ = -16 * (4 * a ^ 3 + 27 * b ^ 2) := by
  simp only [WeierstrassCurve.Δ, WeierstrassCurve.b₂, WeierstrassCurve.b₄, WeierstrassCurve.b₆,
    WeierstrassCurve.b₈, curve]
  ring

/-! ## Points by their coordinates -/

/-- `P` is the affine point with these coordinates; it is then not the point at infinity. -/
def IsAt (P : (curve a b).Point) (x y : F) : Prop :=
  ∃ h : (curve a b).Nonsingular x y, P = .some x y h

lemma IsAt.congr {P : (curve a b).Point} {x y x' y' : F} (h : IsAt P x y) (hx : x = x')
    (hy : y = y') : IsAt P x' y' := by
  subst hx hy
  exact h

lemma IsAt.ne_zero {P : (curve a b).Point} {x y : F} (h : IsAt P x y) : P ≠ 0 := by
  obtain ⟨hns, rfl⟩ := h
  exact Point.some_ne_zero hns

lemma IsAt.onCurve {P : (curve a b).Point} {x y : F} (h : IsAt P x y) : OnCurve a b x y := by
  obtain ⟨hns, -⟩ := h
  exact (equation_iff x y).mp hns.1

/-- The coordinates determine the point, since the proof that it carries does not matter. -/
lemma IsAt.unique {P Q : (curve a b).Point} {x y : F} (hP : IsAt P x y) (hQ : IsAt Q x y) :
    P = Q := by
  obtain ⟨_, rfl⟩ := hP
  obtain ⟨_, rfl⟩ := hQ
  rfl

/-- Two points over one first coordinate are equal or cancel. -/
lemma IsAt.eq_of_add_ne_zero {P Q : (curve a b).Point} {x y y' : F} (hP : IsAt P x y)
    (hQ : IsAt Q x y') (hy : y + y' ≠ 0) : y = y' := by
  have hP' : y * y = x * x * x + a * x + b := hP.onCurve
  have hQ' : y' * y' = x * x * x + a * x + b := hQ.onCurve
  have hprod : (y - y') * (y + y') = 0 := by linear_combination hP' - hQ'
  exact sub_eq_zero.mp ((mul_eq_zero.mp hprod).resolve_right hy)

lemma exists_isAt_of_ne_zero {P : (curve a b).Point} (h : P ≠ 0) : ∃ x y, IsAt P x y := by
  cases P with
  | zero => exact absurd rfl h
  | some x y hns => exact ⟨x, y, hns, rfl⟩

/-- The point of a curve without singular points at a solution of its equation. -/
def pointAt (hΔ : (curve a b).Δ ≠ 0) {x y : F} (h : OnCurve a b x y) : (curve a b).Point :=
  .some x y ((equation_iff_nonsingular_of_Δ_ne_zero hΔ).mp ((equation_iff x y).mpr h))

lemma isAt_pointAt (hΔ : (curve a b).Δ ≠ 0) {x y : F} (h : OnCurve a b x y) :
    IsAt (pointAt hΔ h) x y :=
  ⟨_, rfl⟩

/-! ## Chord and tangent -/

section Addition

variable [DecidableEq F]

/-- The first coordinate of the third point on the line of slope `slope` through `(x, y)` and a
point over `x'`. -/
def chordX (slope x x' : F) : F :=
  slope * slope - x - x'

/-- The second coordinate of that point, reflected: the second coordinate of the sum. -/
def chordY (slope x y x' : F) : F :=
  slope * (x - chordX slope x x') - y

/-- The chord case of the group law: points over different first coordinates. -/
lemma IsAt.add_of_ne {P Q : (curve a b).Point} {x y x' y' : F} (hP : IsAt P x y)
    (hQ : IsAt Q x' y') (hx : x ≠ x') :
    IsAt (P + Q) (chordX ((y' - y) / (x' - x)) x x') (chordY ((y' - y) / (x' - x)) x y x') := by
  obtain ⟨hp, rfl⟩ := hP
  obtain ⟨hq, rfl⟩ := hQ
  have hslope : (curve a b).slope x x' y y' = (y' - y) / (x' - x) := by
    rw [slope_of_X_ne hx, ← neg_sub y' y, ← neg_sub x' x, neg_div_neg_eq]
  refine IsAt.congr ⟨_, Point.add_of_X_ne hx⟩ ?_ ?_
  · rw [hslope]
    simp only [addX, chordX, curve]
    ring
  · rw [hslope]
    simp only [addY, negAddY, addX, negY, chordX, chordY, curve]
    ring

/-- Two points over one first coordinate with opposite second coordinates cancel. -/
lemma IsAt.add_eq_zero {P Q : (curve a b).Point} {x y y' : F} (hP : IsAt P x y)
    (hQ : IsAt Q x y') (hy : y + y' = 0) : P + Q = 0 := by
  obtain ⟨hp, rfl⟩ := hP
  obtain ⟨hq, rfl⟩ := hQ
  refine Point.add_of_Y_eq rfl ?_
  rw [negY_eq]
  exact eq_neg_of_add_eq_zero_left hy

/-- The slope of the tangent at a point whose second coordinate is not zero. -/
def tangent (a x y : F) : F :=
  (3 * (x * x) + a) / (2 * y)

/-- The tangent case of the group law: a point that is not of order two, added to itself. -/
lemma IsAt.add_self (h2 : (2 : F) ≠ 0) {P : (curve a b).Point} {x y : F} (h : IsAt P x y)
    (hy : y ≠ 0) :
    IsAt (P + P) (chordX (tangent a x y) x x) (chordY (tangent a x y) x y x) := by
  obtain ⟨hns, rfl⟩ := h
  have hne : y ≠ (curve a b).negY x y := by
    rw [negY_eq]
    intro heq
    have hdouble : 2 * y = 0 := by linear_combination heq
    exact hy ((mul_eq_zero.mp hdouble).resolve_left h2)
  have hslope : (curve a b).slope x x y y = tangent a x y := by
    rw [slope_of_Y_ne rfl hne, negY_eq, tangent]
    simp only [curve]
    congr 1 <;> ring
  refine IsAt.congr ⟨_, Point.add_self_of_Y_ne hne⟩ ?_ ?_
  · rw [hslope]
    simp only [addX, chordX, curve]
    ring
  · rw [hslope]
    simp only [addY, negAddY, addX, negY, chordX, chordY, curve]
    ring

end Addition

/-! ## Jacobian coordinates -/

/-- The point `(x / z², y / z³)`, or infinity. With the flag set the coordinates mean nothing. -/
structure Jacobian (F : Type*) where
  x : F
  y : F
  z : F
  infinity : Bool
  deriving DecidableEq

namespace Jacobian

def identity : Jacobian F := ⟨0, 0, 0, true⟩

def ofAffine (x y : F) : Jacobian F := ⟨x, y, 1, false⟩

/-- The triple with its `z` coordinate checked: zero there is the point at infinity. -/
def checked [DecidableEq F] (x y z : F) : Jacobian F :=
  if z = 0 then identity else ⟨x, y, z, false⟩

/-- Doubling, on the curve with coefficient `a`. A point of order two has the second coordinate
zero. -/
def double [DecidableEq F] (a : F) (J : Jacobian F) : Jacobian F :=
  if J.infinity ∨ J.y = 0 then identity
  else
    let xx := J.x * J.x
    let yy := J.y * J.y
    let yyyy := yy * yy
    let zz := J.z * J.z
    let s := 2 * ((J.x + yy) * (J.x + yy) - xx - yyyy)
    let m := 3 * xx + a * (zz * zz)
    let x₃ := m * m - 2 * s
    checked x₃ (m * (s - x₃) - 8 * yyyy) ((J.y + J.z) * (J.y + J.z) - yy - zz)

/-- The chord case of mixed addition: `h` is the difference of the first coordinates and `s` the
one of the second coordinates, both scaled. -/
def chord [DecidableEq F] (J : Jacobian F) (h s : F) : Jacobian F :=
  let hh := h * h
  let i := 4 * hh
  let j := h * i
  let r := 2 * s
  let v := J.x * i
  let x₃ := r * r - j - 2 * v
  checked x₃ (r * (v - x₃) - 2 * (J.y * j)) ((J.z + h) * (J.z + h) - J.z * J.z - hh)

/-- Mixed addition of the affine point `(x', y')`: nothing to add to, a tangent, a cancellation, or
a chord. -/
def addAffine [DecidableEq F] (a : F) (J : Jacobian F) (x' y' : F) : Jacobian F :=
  if J.infinity then ofAffine x' y'
  else
    let h := x' * (J.z * J.z) - J.x
    let s := y' * (J.z * (J.z * J.z)) - J.y
    if h = 0 then if s = 0 then double a J else identity
    else chord J h s

/-- A triple stands for a point of the curve. Many triples stand for the same point. -/
def Represents (J : Jacobian F) (P : (curve a b).Point) : Prop :=
  if J.infinity then P = 0
  else J.z ≠ 0 ∧ IsAt P (J.x / (J.z * J.z)) (J.y / (J.z * J.z * J.z))

lemma represents_identity : (identity : Jacobian F).Represents (0 : (curve a b).Point) := by
  simp [Represents, identity]

lemma represents_ofAffine {P : (curve a b).Point} {x y : F} (h : IsAt P x y) :
    (ofAffine x y).Represents P := by
  simpa [Represents, ofAffine] using h

lemma Represents.eq_zero {J : Jacobian F} {P : (curve a b).Point} (h : J.Represents P)
    (hJ : J.infinity = true) : P = 0 := by
  simpa [Represents, hJ] using h

lemma Represents.isAt {J : Jacobian F} {P : (curve a b).Point} (h : J.Represents P)
    (hJ : J.infinity = false) :
    J.z ≠ 0 ∧ IsAt P (J.x / (J.z * J.z)) (J.y / (J.z * J.z * J.z)) := by
  simpa [Represents, hJ] using h

section Operations

variable [DecidableEq F]

lemma represents_checked {P : (curve a b).Point} {x y z : F} (hz : z ≠ 0)
    (h : IsAt P (x / (z * z)) (y / (z * z * z))) : (checked x y z).Represents P := by
  rw [checked, if_neg hz]
  simpa [Represents] using ⟨hz, h⟩

/-- Doubling a triple doubles the point, infinity and points of order two included. -/
theorem Represents.double (h2 : (2 : F) ≠ 0) {J : Jacobian F} {P : (curve a b).Point}
    (h : J.Represents P) : (J.double a).Represents (P + P) := by
  obtain ⟨x, y, z, infinity⟩ := J
  cases infinity with
  | true =>
      have hP : P = 0 := h.eq_zero rfl
      subst hP
      simpa [Jacobian.double] using represents_identity
  | false =>
      obtain ⟨hz, hP⟩ : z ≠ 0 ∧ IsAt P (x / (z * z)) (y / (z * z * z)) := h.isAt rfl
      by_cases hy : y = 0
      · subst hy
        have hsum : P + P = 0 := hP.add_eq_zero hP (by simp)
        rw [hsum]
        simpa [Jacobian.double] using represents_identity
      · have hy' : y / (z * z * z) ≠ 0 := div_ne_zero hy (by simp [hz])
        simp only [Jacobian.double, Bool.false_eq_true, false_or, if_neg hy]
        have hz₃ : (y + z) * (y + z) - y * y - z * z = 2 * y * z := by ring
        refine represents_checked ?_ ((hP.add_self h2 hy').congr ?_ ?_)
        · rw [hz₃]
          simp [h2, hy, hz]
        · rw [hz₃]
          simp only [chordX, tangent]
          field_simp
          ring
        · rw [hz₃]
          simp only [chordX, chordY, tangent]
          field_simp
          ring

/-- The chord formulas add two points over different first coordinates. The new `z` is not zero,
being the product of the old one and their scaled difference. -/
lemma represents_chord (h2 : (2 : F) ≠ 0) {x y z x' y' : F} {P Q : (curve a b).Point} (hz : z ≠ 0)
    (hP : IsAt P (x / (z * z)) (y / (z * z * z))) (hQ : IsAt Q x' y')
    (hh : x' * (z * z) - x ≠ 0) :
    (chord ⟨x, y, z, false⟩ (x' * (z * z) - x) (y' * (z * (z * z)) - y)).Represents (P + Q) := by
  have hx : x / (z * z) ≠ x' := by
    intro heq
    rw [div_eq_iff (by simp [hz])] at heq
    exact hh (sub_eq_zero.mpr heq.symm)
  have hdx : x' - x / (z * z) ≠ 0 := fun h => hx (sub_eq_zero.mp h).symm
  have hdx' : x' * z ^ 2 - x ≠ 0 := by rwa [pow_two]
  -- The slope of the chord without the denominators of the first point.
  have hslope : (y' - y / (z * z * z)) / (x' - x / (z * z)) =
      (y' * (z * (z * z)) - y) / ((x' * (z * z) - x) * z) := by
    have hx' : x' - x / (z * z) = (x' * (z * z) - x) / (z * z) := by field_simp
    have hy' : y' - y / (z * z * z) = (y' * (z * (z * z)) - y) / (z * z * z) := by field_simp
    rw [hx', hy', div_div_div_eq, div_eq_div_iff (by simp [hz, hh]) (by simp [hz, hh])]
    ring
  have hsum := hP.add_of_ne hQ hx
  rw [hslope] at hsum
  set h := x' * (z * z) - x with hhdef
  set s := y' * (z * (z * z)) - y with hsdef
  have hz₃ : (z + h) * (z + h) - z * z - h * h = 2 * z * h := by ring
  -- What is left is an identity of rational functions in `x`, `y`, `z`, `h` and `s`.
  have hxe : x' = (h + x) / (z * z) := by
    rw [hhdef]
    field_simp
    ring
  refine represents_checked ?_ (hsum.congr ?_ ?_)
  · rw [hz₃]
    simp [h2, hh, hz]
  · rw [hz₃, hxe]
    simp only [chordX]
    field_simp
    ring
  · rw [hz₃, hxe]
    simp only [chordX, chordY]
    field_simp
    ring

/-- Mixed addition adds the points, in all of its cases. -/
theorem Represents.addAffine (h2 : (2 : F) ≠ 0) {J : Jacobian F} {P Q : (curve a b).Point}
    {x' y' : F} (h : J.Represents P) (hQ : IsAt Q x' y') :
    (J.addAffine a x' y').Represents (P + Q) := by
  obtain ⟨x, y, z, infinity⟩ := J
  cases infinity with
  | true =>
      have hP : P = 0 := h.eq_zero rfl
      subst hP
      simpa [Jacobian.addAffine] using represents_ofAffine hQ
  | false =>
      obtain ⟨hz, hP⟩ : z ≠ 0 ∧ IsAt P (x / (z * z)) (y / (z * z * z)) := h.isAt rfl
      simp only [Jacobian.addAffine, Bool.false_eq_true, if_false]
      by_cases hh : x' * (z * z) - x = 0
      · -- both points lie over one first coordinate
        have hx : x / (z * z) = x' := by
          rw [div_eq_iff (by simp [hz])]
          exact (sub_eq_zero.mp hh).symm
        rw [hx] at hP
        rw [if_pos hh]
        by_cases hs : y' * (z * (z * z)) - y = 0
        · have hy : y / (z * z * z) = y' := by
            rw [div_eq_iff (by simp [hz])]
            linear_combination -hs
          rw [hy] at hP
          rw [if_pos hs, ← hP.unique hQ]
          exact h.double h2
        · have hsum : P + Q = 0 := by
            refine hP.add_eq_zero hQ ?_
            by_contra hne
            have hy := hP.eq_of_add_ne_zero hQ hne
            rw [div_eq_iff (by simp [hz])] at hy
            exact hs (by linear_combination -hy)
          rw [if_neg hs, hsum]
          exact represents_identity
      · rw [if_neg hh]
        exact represents_chord h2 hz hP hQ hh

/-! ## Double and add -/

/-- One round of a double-and-add loop, which adds the affine point when its bit is set. -/
def step (a x' y' : F) (bit : Bool) (J : Jacobian F) : Jacobian F :=
  if bit then (J.double a).addAffine a x' y' else J.double a

/-- A round takes `u • P` to `(2 * u + bit) • P`. -/
theorem Represents.step (h2 : (2 : F) ≠ 0) {J : Jacobian F} {P : (curve a b).Point} {x' y' : F}
    (hP : IsAt P x' y') {u : ℕ} (bit : Bool) (h : J.Represents (u • P)) :
    (J.step a x' y' bit).Represents ((2 * u + bit.toNat) • P) := by
  rw [Jacobian.step, add_nsmul, two_mul, add_nsmul]
  cases bit with
  | true => simpa using (h.double h2).addAffine h2 hP
  | false => simpa using h.double h2

/-- The multiple of an affine point by a number below `2^bits`, from the highest bit down. -/
def multiply (a x' y' : F) (bits e : ℕ) : Jacobian F :=
  Loops.loopDown (fun i J => J.step a x' y' (e.testBit i)) bits identity

/-- The loop over the bits of a number multiplies by it: before the round for bit `i` the triple
stands for the multiple by the bits above. -/
theorem represents_multiply (h2 : (2 : F) ≠ 0) {P : (curve a b).Point} {x' y' : F}
    (hP : IsAt P x' y') {bits e : ℕ} (he : e < 2 ^ bits) :
    (multiply a x' y' bits e).Represents (e • P) := by
  have hrun := Loops.loopDown_invariant (fun i J => J.step a x' y' (e.testBit i))
    (fun i (J : Jacobian F) => J.Represents ((e / 2 ^ i) • P))
    (by simpa [Nat.div_eq_of_lt he] using represents_identity)
    (fun i (_ : i < bits) J hJ => by
      rw [Loops.div_two_pow_eq e i]
      exact hJ.step h2 hP _)
  simpa [multiply] using hrun

end Operations

end Jacobian

end ShortWeierstrass
