import Mathlib.Algebra.Field.Basic
import Mathlib.Tactic
import CryptoCore.Framework.Loops

/-!
# Twisted Edwards curves in extended coordinates

The curve `y² - x² = 1 + d x² y²` over a field with a square root of `-1`. When `d` is no square,
the denominators of the addition formulas never vanish, so one pair of formulas adds any two points
and the points form a group.

`Complete` is the assumption, a class so that the group is an instance. The denominators are `1`
plus and minus a product, which `cross_mul_self_ne_one` keeps away from both signs: if its square
were one, `d` would be the quotient of two squares. Associativity is an identity between rational
functions; it is proved by bringing both sides over one denominator (`add_add_x`, `add_add_y`),
which does not vanish by the same lemma applied to the intermediate sums.

`Extended.Represents` relates the extended coordinates of a point to the point. The addition of
extended coordinates respects it without a case distinction, and so does the double-and-add loop
that reads a scalar from the bottom.

A point is determined by its second coordinate and a sign (`Point.eq_or_eq_neg`), and the first
coordinate by a square root (`onCurve_iff`), which is what a compressed encoding relies on.
-/

namespace TwistedEdwards

variable {F : Type*} [Field F]

/-- The curve equation of a pair of coordinates, written with products only. -/
def OnCurve (d x y : F) : Prop :=
  y * y - x * x = 1 + d * (x * x) * (y * y)

instance [DecidableEq F] (d x y : F) : Decidable (OnCurve d x y) :=
  inferInstanceAs (Decidable (_ = _))

/-- What makes the addition formulas complete: a root of minus one, and a `d` that is no square. -/
class Complete (d : F) : Prop where
  two_ne_zero : (2 : F) ≠ 0
  exists_root : ∃ i : F, i * i = -1
  not_square : ∀ s : F, s * s ≠ d

variable {d : F}

/-! ## The denominators -/

/-- The product that the denominators of a sum differ from one by. -/
def cross (d x₁ y₁ x₂ y₂ : F) : F :=
  d * x₁ * x₂ * y₁ * y₂

lemma cross_comm (x₁ y₁ x₂ y₂ : F) : cross d x₁ y₁ x₂ y₂ = cross d x₂ y₂ x₁ y₁ := by
  unfold cross
  ring

/-- A product with square one makes `d` times one square another square. -/
lemma square_of_cross {i x₁ y₁ x₂ y₂ : F} (hi : i * i = -1) (h₁ : OnCurve d x₁ y₁)
    (h₂ : OnCurve d x₂ y₂) (hcross : cross d x₁ y₁ x₂ y₂ * cross d x₁ y₁ x₂ y₂ = 1) (s : F)
    (hs : s * s = 1) :
    d * ((x₁ * y₁ * (i * x₂ + s * y₂)) * (x₁ * y₁ * (i * x₂ + s * y₂))) =
      (i * x₁ + cross d x₁ y₁ x₂ y₂ * s * y₁) * (i * x₁ + cross d x₁ y₁ x₂ y₂ * s * y₁) := by
  unfold OnCurve at h₁ h₂
  have hleft : d * ((x₁ * y₁ * (i * x₂ + s * y₂)) * (x₁ * y₁ * (i * x₂ + s * y₂))) =
      d * (x₁ * x₁) * (y₁ * y₁) * (y₂ * y₂ - x₂ * x₂) +
        2 * i * s * x₁ * y₁ * cross d x₁ y₁ x₂ y₂ := by
    unfold cross
    linear_combination d * (x₁ * x₁) * (y₁ * y₁) * ((x₂ * x₂) * hi + (y₂ * y₂) * hs)
  have hright : (i * x₁ + cross d x₁ y₁ x₂ y₂ * s * y₁) *
      (i * x₁ + cross d x₁ y₁ x₂ y₂ * s * y₁) =
        y₁ * y₁ - x₁ * x₁ + 2 * i * s * x₁ * y₁ * cross d x₁ y₁ x₂ y₂ := by
    linear_combination (x₁ * x₁) * hi + (y₁ * y₁) * hs +
      (s * s) * (y₁ * y₁) * hcross
  have hsum : d * (x₁ * x₁) * (y₁ * y₁) * (y₂ * y₂ - x₂ * x₂) = y₁ * y₁ - x₁ * x₁ := by
    unfold cross at hcross
    linear_combination d * (x₁ * x₁) * (y₁ * y₁) * h₂ - h₁ + hcross
  rw [hleft, hright, hsum]

/-- The product never squares to one, for any two points of the curve. -/
theorem cross_mul_self_ne_one [hd : Complete d] {x₁ y₁ x₂ y₂ : F} (h₁ : OnCurve d x₁ y₁)
    (h₂ : OnCurve d x₂ y₂) : cross d x₁ y₁ x₂ y₂ * cross d x₁ y₁ x₂ y₂ ≠ 1 := by
  intro hcross
  obtain ⟨i, hi⟩ := hd.exists_root
  have hne : cross d x₁ y₁ x₂ y₂ ≠ 0 := by
    intro hzero
    rw [hzero, zero_mul] at hcross
    exact zero_ne_one hcross
  have hxy : x₁ * y₁ ≠ 0 := by
    intro hzero
    refine hne ?_
    unfold cross
    linear_combination d * x₂ * y₂ * hzero
  have hy : y₂ ≠ 0 := by
    intro hzero
    refine hne ?_
    unfold cross
    rw [hzero, mul_zero]
  -- Both factors vanish, for otherwise `d` is a quotient of squares.
  have hvanish : ∀ s : F, s * s = 1 → i * x₂ + s * y₂ = 0 := by
    intro s hs
    by_contra hfactor
    have hden := mul_ne_zero hxy hfactor
    refine hd.not_square ((i * x₁ + cross d x₁ y₁ x₂ y₂ * s * y₁) /
      (x₁ * y₁ * (i * x₂ + s * y₂))) ?_
    rw [div_mul_div_comm, div_eq_iff (mul_ne_zero hden hden)]
    exact (square_of_cross hi h₁ h₂ hcross s hs).symm
  have hplus := hvanish 1 (by ring)
  have hminus := hvanish (-1) (by ring)
  have htwo : 2 * y₂ = 0 := by linear_combination hplus - hminus
  exact hy ((mul_eq_zero.mp htwo).resolve_left hd.two_ne_zero)

lemma one_add_cross_ne_zero [Complete d] {x₁ y₁ x₂ y₂ : F} (h₁ : OnCurve d x₁ y₁)
    (h₂ : OnCurve d x₂ y₂) : 1 + cross d x₁ y₁ x₂ y₂ ≠ 0 := by
  intro hzero
  refine cross_mul_self_ne_one h₁ h₂ ?_
  linear_combination (cross d x₁ y₁ x₂ y₂ - 1) * hzero

lemma one_sub_cross_ne_zero [Complete d] {x₁ y₁ x₂ y₂ : F} (h₁ : OnCurve d x₁ y₁)
    (h₂ : OnCurve d x₂ y₂) : 1 - cross d x₁ y₁ x₂ y₂ ≠ 0 := by
  intro hzero
  refine cross_mul_self_ne_one h₁ h₂ ?_
  linear_combination (-cross d x₁ y₁ x₂ y₂ - 1) * hzero

/-! ## Addition -/

/-- The first coordinate of a sum, by the addition formula for any two points. -/
def sumX (d x₁ y₁ x₂ y₂ : F) : F :=
  (x₁ * y₂ + y₁ * x₂) / (1 + cross d x₁ y₁ x₂ y₂)

/-- The second coordinate of a sum, over the other denominator. -/
def sumY (d x₁ y₁ x₂ y₂ : F) : F :=
  (y₁ * y₂ + x₁ * x₂) / (1 - cross d x₁ y₁ x₂ y₂)

/-- The formulas lead from the curve to the curve. -/
lemma onCurve_sum [Complete d] {x₁ y₁ x₂ y₂ : F} (h₁ : OnCurve d x₁ y₁)
    (h₂ : OnCurve d x₂ y₂) : OnCurve d (sumX d x₁ y₁ x₂ y₂) (sumY d x₁ y₁ x₂ y₂) := by
  have hplus := one_add_cross_ne_zero h₁ h₂
  have hminus := one_sub_cross_ne_zero h₁ h₂
  have hpoly : (y₁ * y₂ + x₁ * x₂) ^ 2 * (1 + cross d x₁ y₁ x₂ y₂) ^ 2 -
      (x₁ * y₂ + y₁ * x₂) ^ 2 * (1 - cross d x₁ y₁ x₂ y₂) ^ 2 =
        (1 + cross d x₁ y₁ x₂ y₂) ^ 2 * (1 - cross d x₁ y₁ x₂ y₂) ^ 2 +
          d * (x₁ * y₂ + y₁ * x₂) ^ 2 * (y₁ * y₂ + x₁ * x₂) ^ 2 := by
    unfold OnCurve at h₁ h₂
    unfold cross
    grind
  unfold OnCurve sumX sumY
  field_simp
  linear_combination hpoly

/-- A sum of which one summand is a sum, over a common denominator. -/
lemma sumX_div (a b c e x y : F) (hb : b ≠ 0) (he : e ≠ 0) :
    sumX d (a / b) (c / e) x y = (a * e * y + c * b * x) / (b * e + d * a * x * c * y) := by
  have hnum : a * e * y + c * b * x = b * e * (a / b * y + c / e * x) := by field_simp
  have hden : b * e + d * a * x * c * y = b * e * (1 + cross d (a / b) (c / e) x y) := by
    unfold cross
    field_simp
  rw [sumX, hnum, hden, mul_div_mul_left _ _ (mul_ne_zero hb he)]

lemma sumY_div (a b c e x y : F) (hb : b ≠ 0) (he : e ≠ 0) :
    sumY d (a / b) (c / e) x y = (c * b * y + a * e * x) / (b * e - d * a * x * c * y) := by
  have hnum : c * b * y + a * e * x = b * e * (c / e * y + a / b * x) := by field_simp
  have hden : b * e - d * a * x * c * y = b * e * (1 - cross d (a / b) (c / e) x y) := by
    unfold cross
    field_simp
  rw [sumY, hnum, hden, mul_div_mul_left _ _ (mul_ne_zero hb he)]

lemma sumX_comm (x₁ y₁ x₂ y₂ : F) : sumX d x₁ y₁ x₂ y₂ = sumX d x₂ y₂ x₁ y₁ := by
  rw [sumX, sumX, cross_comm]
  congr 1
  ring

lemma sumY_comm (x₁ y₁ x₂ y₂ : F) : sumY d x₁ y₁ x₂ y₂ = sumY d x₂ y₂ x₁ y₁ := by
  rw [sumY, sumY, cross_comm]
  congr 1
  ring

/-! ## The group of points -/

/-- A point of the curve. -/
@[ext]
structure Point (d : F) where
  x : F
  y : F
  onCurve : OnCurve d x y

namespace Point

/-- The neutral point. -/
instance : Zero (Point d) :=
  ⟨0, 1, by unfold OnCurve; ring⟩

instance : Neg (Point d) :=
  ⟨fun P => ⟨-P.x, P.y, by
    have h := P.onCurve
    unfold OnCurve at h ⊢
    linear_combination h⟩⟩

instance [Complete d] : Add (Point d) :=
  ⟨fun P Q => ⟨sumX d P.x P.y Q.x Q.y, sumY d P.x P.y Q.x Q.y, onCurve_sum P.onCurve Q.onCurve⟩⟩

@[simp] lemma zero_x : (0 : Point d).x = 0 := rfl

@[simp] lemma zero_y : (0 : Point d).y = 1 := rfl

@[simp] lemma neg_x (P : Point d) : (-P).x = -P.x := rfl

@[simp] lemma neg_y (P : Point d) : (-P).y = P.y := rfl

section Addition

variable [Complete d]

lemma add_x (P Q : Point d) : (P + Q).x = sumX d P.x P.y Q.x Q.y := rfl

lemma add_y (P Q : Point d) : (P + Q).y = sumY d P.x P.y Q.x Q.y := rfl

protected lemma add_comm (P Q : Point d) : P + Q = Q + P :=
  Point.ext (sumX_comm _ _ _ _) (sumY_comm _ _ _ _)

protected lemma zero_add (P : Point d) : 0 + P = P := by
  apply Point.ext
  · rw [add_x, sumX, cross]
    simp
  · rw [add_y, sumY, cross]
    simp

protected lemma neg_add_cancel (P : Point d) : -P + P = 0 := by
  have hden := one_sub_cross_ne_zero (-P).onCurve P.onCurve
  have h := P.onCurve
  apply Point.ext
  · rw [add_x, sumX, neg_x, neg_y, zero_x]
    simp [mul_comm]
  · rw [add_y, sumY, zero_y, div_eq_one_iff_eq hden, neg_x, neg_y]
    unfold OnCurve at h
    unfold cross
    linear_combination h

/-- The denominators of a sum of sums, multiplied out, are not zero. -/
lemma sum_denominators (P Q R : Point d) :
    (1 + cross d P.x P.y Q.x Q.y) * (1 - cross d P.x P.y Q.x Q.y) +
        d * (P.x * Q.y + P.y * Q.x) * R.x * (P.y * Q.y + P.x * Q.x) * R.y ≠ 0 ∧
      (1 + cross d P.x P.y Q.x Q.y) * (1 - cross d P.x P.y Q.x Q.y) -
        d * (P.x * Q.y + P.y * Q.x) * R.x * (P.y * Q.y + P.x * Q.x) * R.y ≠ 0 := by
  have hb := one_add_cross_ne_zero P.onCurve Q.onCurve
  have he := one_sub_cross_ne_zero P.onCurve Q.onCurve
  have hplus := one_add_cross_ne_zero (P + Q).onCurve R.onCurve
  have hminus := one_sub_cross_ne_zero (P + Q).onCurve R.onCurve
  have hcross : (1 + cross d P.x P.y Q.x Q.y) * (1 - cross d P.x P.y Q.x Q.y) *
      cross d (P + Q).x (P + Q).y R.x R.y =
        d * (P.x * Q.y + P.y * Q.x) * R.x * (P.y * Q.y + P.x * Q.x) * R.y := by
    rw [add_x, add_y, sumX, sumY]
    generalize cross d P.x P.y Q.x Q.y = t at hb he
    unfold cross
    field_simp
  rw [← hcross]
  constructor
  · rw [← mul_one_add]
    exact mul_ne_zero (mul_ne_zero hb he) hplus
  · rw [← mul_one_sub]
    exact mul_ne_zero (mul_ne_zero hb he) hminus

/-- The coordinates of a sum of three points, over one denominator. -/
lemma add_add_x (P Q R : Point d) : (P + Q + R).x =
    ((P.x * Q.y + P.y * Q.x) * (1 - cross d P.x P.y Q.x Q.y) * R.y +
        (P.y * Q.y + P.x * Q.x) * (1 + cross d P.x P.y Q.x Q.y) * R.x) /
      ((1 + cross d P.x P.y Q.x Q.y) * (1 - cross d P.x P.y Q.x Q.y) +
        d * (P.x * Q.y + P.y * Q.x) * R.x * (P.y * Q.y + P.x * Q.x) * R.y) :=
  sumX_div _ _ _ _ _ _ (one_add_cross_ne_zero P.onCurve Q.onCurve)
    (one_sub_cross_ne_zero P.onCurve Q.onCurve)

lemma add_add_y (P Q R : Point d) : (P + Q + R).y =
    ((P.y * Q.y + P.x * Q.x) * (1 + cross d P.x P.y Q.x Q.y) * R.y +
        (P.x * Q.y + P.y * Q.x) * (1 - cross d P.x P.y Q.x Q.y) * R.x) /
      ((1 + cross d P.x P.y Q.x Q.y) * (1 - cross d P.x P.y Q.x Q.y) -
        d * (P.x * Q.y + P.y * Q.x) * R.x * (P.y * Q.y + P.x * Q.x) * R.y) :=
  sumY_div _ _ _ _ _ _ (one_add_cross_ne_zero P.onCurve Q.onCurve)
    (one_sub_cross_ne_zero P.onCurve Q.onCurve)

protected lemma add_assoc (P Q R : Point d) : P + Q + R = P + (Q + R) := by
  have hPQ := sum_denominators P Q R
  have hQR := sum_denominators Q R P
  have hP := P.onCurve
  have hQ := Q.onCurve
  have hR := R.onCurve
  unfold OnCurve at hP hQ hR
  rw [Point.add_comm P (Q + R)]
  apply Point.ext
  · rw [add_add_x, add_add_x, div_eq_div_iff hPQ.1 hQR.1]
    clear hPQ hQR
    unfold cross
    grind
  · rw [add_add_y, add_add_y, div_eq_div_iff hPQ.2 hQR.2]
    clear hPQ hQR
    unfold cross
    grind

instance : AddCommGroup (Point d) where
  add_assoc := Point.add_assoc
  zero_add := Point.zero_add
  add_zero P := (Point.add_comm P 0).trans (Point.zero_add P)
  nsmul := nsmulRec
  zsmul := zsmulRec
  neg_add_cancel := Point.neg_add_cancel
  add_comm := Point.add_comm

end Addition

end Point

/-! ## Points by their second coordinate -/

section Decompression

variable [hd : Complete d]

lemma denominator_ne_zero (y : F) : d * (y * y) + 1 ≠ 0 := by
  intro hzero
  obtain ⟨i, hi⟩ := hd.exists_root
  have hy : y ≠ 0 := by
    intro hy
    rw [hy, mul_zero, mul_zero, zero_add] at hzero
    exact one_ne_zero hzero
  refine hd.not_square (i / y) ?_
  rw [div_mul_div_comm, div_eq_iff (mul_ne_zero hy hy)]
  linear_combination hi - hzero

/-- The square of the first coordinate is determined by the second one, by a division that is always
possible. -/
lemma onCurve_iff (x y : F) :
    OnCurve d x y ↔ x * x = (y * y - 1) * (d * (y * y) + 1)⁻¹ := by
  rw [← div_eq_mul_inv, eq_div_iff (denominator_ne_zero y), OnCurve]
  constructor
  · intro h
    linear_combination -h
  · intro h
    linear_combination -h

/-- Points over one second coordinate are equal or opposite. -/
lemma Point.eq_or_eq_neg {P Q : Point d} (h : P.y = Q.y) : P = Q ∨ P = -Q := by
  have hP := (onCurve_iff P.x P.y).mp P.onCurve
  have hQ := (onCurve_iff Q.x Q.y).mp Q.onCurve
  rw [h, ← hQ] at hP
  rcases mul_self_eq_mul_self_iff.mp hP with hx | hx
  · exact Or.inl (Point.ext hx h)
  · exact Or.inr (Point.ext hx h)

end Decompression

/-! ## Extended coordinates -/

/-- The coordinates `x = X / Z`, `y = Y / Z` and `x y = T / Z`. -/
structure Extended (F : Type*) where
  x : F
  y : F
  z : F
  t : F

namespace Extended

def identity : Extended F :=
  ⟨0, 1, 1, 0⟩

def ofAffine (x y : F) : Extended F :=
  ⟨x, y, 1, x * y⟩

/-- The unified addition. It has no branches, and divides nowhere. -/
def add (d : F) (lhs rhs : Extended F) : Extended F :=
  let a := (lhs.y - lhs.x) * (rhs.y - rhs.x)
  let b := (lhs.y + lhs.x) * (rhs.y + rhs.x)
  let c := lhs.t * rhs.t * (d + d)
  let d := (lhs.z + lhs.z) * rhs.z
  let e := b - a
  let f := d - c
  let g := d + c
  let h := b + a
  ⟨e * f, g * h, f * g, e * h⟩

/-- What the coordinates of a point satisfy: the fourth is the product of the first two, and they
are on the curve. -/
structure Valid (d : F) (E : Extended F) : Prop where
  z_ne_zero : E.z ≠ 0
  product : E.x * E.y = E.z * E.t
  onCurve : (E.y * E.y - E.x * E.x) * (E.z * E.z) =
    E.z * E.z * (E.z * E.z) + d * (E.x * E.x) * (E.y * E.y)

/-- The coordinates are those of the point, up to the common factor `Z`. -/
structure Represents (E : Extended F) (P : Point d) : Prop where
  z_ne_zero : E.z ≠ 0
  x_eq : E.x = P.x * E.z
  y_eq : E.y = P.y * E.z
  t_eq : E.t = P.x * P.y * E.z

/-- The valid coordinates are those that represent a point. -/
theorem valid_iff_exists_represents (E : Extended F) :
    E.Valid d ↔ ∃ P : Point d, E.Represents P := by
  constructor
  · intro h
    have hz := h.z_ne_zero
    have hcurve : OnCurve d (E.x / E.z) (E.y / E.z) := by
      have hE := h.onCurve
      unfold OnCurve
      field_simp
      linear_combination hE
    refine ⟨⟨E.x / E.z, E.y / E.z, hcurve⟩, hz, ?_, ?_, ?_⟩
    · exact (div_mul_cancel₀ _ hz).symm
    · exact (div_mul_cancel₀ _ hz).symm
    · have hproduct := h.product
      dsimp only
      field_simp
      linear_combination -hproduct
  · rintro ⟨P, hz, hx, hy, ht⟩
    have hP := P.onCurve
    unfold OnCurve at hP
    refine ⟨hz, ?_, ?_⟩
    · rw [hx, hy, ht]
      ring
    · rw [hx, hy]
      linear_combination (E.z * E.z * (E.z * E.z)) * hP

namespace Represents

variable {E E' : Extended F} {P Q : Point d}

lemma zero : (identity : Extended F).Represents (0 : Point d) where
  z_ne_zero := one_ne_zero
  x_eq := by simp [identity]
  y_eq := by simp [identity]
  t_eq := by simp [identity]

lemma affine (P : Point d) : (ofAffine P.x P.y).Represents P where
  z_ne_zero := one_ne_zero
  x_eq := (mul_one _).symm
  y_eq := (mul_one _).symm
  t_eq := (mul_one _).symm

/-- Two pairs of coordinates are proportional exactly when the points are equal, which is a
comparison without a division. -/
theorem eq_iff (hP : E.Represents P) (hQ : E'.Represents Q) :
    E.x * E'.z = E'.x * E.z ∧ E.y * E'.z = E'.y * E.z ↔ P = Q := by
  have hz := mul_ne_zero hP.z_ne_zero hQ.z_ne_zero
  rw [hP.x_eq, hQ.x_eq, hP.y_eq, hQ.y_eq]
  constructor
  · rintro ⟨hx, hy⟩
    apply Point.ext
    · refine mul_right_cancel₀ hz ?_
      linear_combination hx
    · refine mul_right_cancel₀ hz ?_
      linear_combination hy
  · intro h
    rw [h]
    constructor <;> ring

lemma unique (hP : E.Represents P) (hQ : E.Represents Q) : P = Q :=
  (hP.eq_iff hQ).mp ⟨rfl, rfl⟩

variable [hd : Complete d]

/-- The unified addition adds any two points. -/
theorem add (hP : E.Represents P) (hQ : E'.Represents Q) : (E.add d E').Represents (P + Q) := by
  have hplus := one_add_cross_ne_zero P.onCurve Q.onCurve
  have hminus := one_sub_cross_ne_zero P.onCurve Q.onCurve
  have hscale : 2 * (E.z * E'.z) ≠ 0 :=
    mul_ne_zero hd.two_ne_zero (mul_ne_zero hP.z_ne_zero hQ.z_ne_zero)
  set k := 2 * (E.z * E'.z) with hk
  set u := 1 + cross d P.x P.y Q.x Q.y with hu
  set v := 1 - cross d P.x P.y Q.x Q.y with hv
  -- The four factors, each over the product of the last coordinates.
  have he : (E.y + E.x) * (E'.y + E'.x) - (E.y - E.x) * (E'.y - E'.x) =
      k * ((P + Q).x * u) := by
    rw [Point.add_x, sumX, div_mul_cancel₀ _ hplus, hP.x_eq, hP.y_eq, hQ.x_eq, hQ.y_eq, hk]
    ring
  have hh : (E.y + E.x) * (E'.y + E'.x) + (E.y - E.x) * (E'.y - E'.x) =
      k * ((P + Q).y * v) := by
    rw [Point.add_y, sumY, div_mul_cancel₀ _ hminus, hP.x_eq, hP.y_eq, hQ.x_eq, hQ.y_eq, hk]
    ring
  have hf : (E.z + E.z) * E'.z - E.t * E'.t * (d + d) = k * v := by
    rw [hP.t_eq, hQ.t_eq, hk, hv, cross]
    ring
  have hg : (E.z + E.z) * E'.z + E.t * E'.t * (d + d) = k * u := by
    rw [hP.t_eq, hQ.t_eq, hk, hu, cross]
    ring
  constructor
  · simp only [Extended.add, hf, hg]
    exact mul_ne_zero (mul_ne_zero hscale hminus) (mul_ne_zero hscale hplus)
  · simp only [Extended.add, he, hf, hg]
    ring
  · simp only [Extended.add, hf, hg, hh]
    ring
  · simp only [Extended.add, he, hf, hg, hh]
    ring

end Represents

/-! ## Multiplication -/

/-- One round of the multiplication: the product so far, and the summand of the round. -/
def multiplyRound (d : F) (e i : ℕ) (state : Extended F × Extended F) :
    Extended F × Extended F :=
  (if e.testBit i then state.1.add d state.2 else state.1, state.2.add d state.2)

/-- Double and add, from the bottom: the summand is doubled in every round, whether or not it was
added. -/
def multiply (d : F) (bits e : ℕ) (E : Extended F) : Extended F :=
  (Loops.loopUp (multiplyRound d e) bits (identity, E)).1

lemma represents_multiplyRound [Complete d] {P : Point d} (e i : ℕ)
    {state : Extended F × Extended F} (h₁ : state.1.Represents ((e % 2 ^ i) • P))
    (h₂ : state.2.Represents (2 ^ i • P)) :
    (multiplyRound d e i state).1.Represents ((e % 2 ^ (i + 1)) • P) ∧
      (multiplyRound d e i state).2.Represents (2 ^ (i + 1) • P) := by
  constructor
  · rw [Loops.mod_two_pow_succ_eq, multiplyRound]
    cases e.testBit i with
    | true =>
        rw [Bool.toNat_true, mul_one, add_nsmul]
        exact h₁.add h₂
    | false =>
        rw [Bool.toNat_false, mul_zero, add_zero]
        exact h₁
  · rw [pow_succ, mul_two, add_nsmul]
    exact h₂.add h₂

/-- The loop over the bits of a scalar multiplies by it. -/
theorem represents_multiply [Complete d] {E : Extended F} {P : Point d} {bits e : ℕ}
    (h : E.Represents P) (he : e < 2 ^ bits) : (multiply d bits e E).Represents (e • P) := by
  have hrun := Loops.loopUp_invariant (multiplyRound d e) (n := bits) (s := (identity, E))
    (fun i state => state.1.Represents ((e % 2 ^ i) • P) ∧ state.2.Represents (2 ^ i • P))
    (by
      rw [pow_zero, Nat.mod_one, zero_nsmul, one_nsmul]
      exact ⟨Represents.zero, h⟩)
    fun i _ state hstate => represents_multiplyRound e i hstate.1 hstate.2
  rw [Nat.mod_eq_of_lt he] at hrun
  exact hrun.1

end Extended

end TwistedEdwards
