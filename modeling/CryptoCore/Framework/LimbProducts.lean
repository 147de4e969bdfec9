import Mathlib.Algebra.Ring.GeomSum
import Mathlib.Data.Nat.ModEq
import Mathlib.Tactic
import CryptoCore.Framework.Limbs

/-!
# Row-by-row products and Montgomery reduction

The schoolbook product adds one row per limb of the left factor into an accumulator; Montgomery
reduction adds one row per limb of the modulus, each chosen so that the limb it starts at becomes
zero. Row `i` only touches the accumulator from limb `i` on, so a list of rows is a recursion that
lays the finished limb aside and goes on with the rest.

The value lemmas are stated modulo the size of the accumulator, which is what the bounded carry
loops compute; a product that fits is then exact, and in particular no carry is ever dropped and
none leaves the accumulator.

For the reduction, `lowInverse_spec` is the reason why a row clears its limb, and `redcRow_exact`
what one row does to the limbs above. `redcRows_spec` collects the rows: together they add a
multiple of the modulus, below a power of the limb size, that makes the low limbs zero. How much
room the accumulator needs for this is `montgomeryAccumulate_fits`, and `montgomeryAccumulate_spec`
is the result, the product divided by the power of the limb size up to one subtraction of the
modulus, which is left to the caller.
-/

namespace Limbs

/-! ## Adding a row -/

/-- The loop that carries on into the limbs above a row, as long as the carry is not zero and there
are limbs. A carry that leaves the accumulator is dropped. -/
def addCarry : List UInt32 → UInt64 → List UInt32
  | [], _ => []
  | l :: ls, carry =>
      if carry = 0 then l :: ls
      else
        let sum := l.toUInt64 + carry
        sum.toUInt32 :: addCarry ls (sum >>> 32)

/-- One row: `acc[j] = factor * row[j] + acc[j] + carry` for every limb of the row, then the carry
goes on above it. The two factors of a limb and both summands fit in 64 bits. -/
def mulAddRow (factor : UInt32) : List UInt32 → List UInt32 → UInt64 → List UInt32
  | y :: ys, a :: acc, carry =>
      let product := factor.toUInt64 * y.toUInt64 + a.toUInt64 + carry
      product.toUInt32 :: mulAddRow factor ys acc (product >>> 32)
  | [], acc, carry => addCarry acc carry
  | _ :: _, [], _ => []

/-- All rows of a product: row `i` starts at limb `i` of the accumulator, and what is in front of it
is final. -/
def mulRows : List UInt32 → List UInt32 → List UInt32 → List UInt32
  | [], _, acc => acc
  | x :: xs, ys, acc =>
      match mulAddRow x ys acc 0 with
      | [] => []
      | a :: rest => a :: mulRows xs ys rest

@[simp] lemma length_addCarry (acc : List UInt32) (c : UInt64) :
    (addCarry acc c).length = acc.length := by
  induction acc generalizing c with
  | nil => rfl
  | cons a acc ih =>
      rw [addCarry]
      split
      · rfl
      · simp [ih]

@[simp] lemma length_mulAddRow (x : UInt32) (ys acc : List UInt32) (c : UInt64) :
    (mulAddRow x ys acc c).length = acc.length := by
  induction ys generalizing acc c with
  | nil => simp [mulAddRow]
  | cons y ys ih =>
      cases acc with
      | nil => simp [mulAddRow]
      | cons a acc => simp [mulAddRow, ih]

@[simp] lemma length_mulRows (xs ys acc : List UInt32) :
    (mulRows xs ys acc).length = acc.length := by
  induction xs generalizing acc with
  | nil => rfl
  | cons x xs ih =>
      have hlen := length_mulAddRow x ys acc 0
      rw [mulRows]
      split
      next h => rw [h] at hlen; simpa using hlen
      next a rest h => rw [h] at hlen; simpa [ih] using hlen

/-- A 64-bit sum is its low limb and the carry, with the value of the limbs above. -/
lemma low_cons_mod {s : UInt64} {v t w n : ℕ} (hv : v = (w + (s >>> 32).toNat) % 2 ^ (32 * n))
    (hs : s.toNat = t) :
    s.toUInt32.toNat + 2 ^ 32 * v = (t + 2 ^ 32 * w) % 2 ^ (32 * (n + 1)) := by
  have hlow := low_add_carry s
  have hlt := limb_lt s.toUInt32
  rw [hv, ← hs, ← hlow, Nat.mul_succ, add_comm (32 * n), pow_add, Nat.mod_mul]
  have hsplit : s.toUInt32.toNat + 2 ^ 32 * (s >>> 32).toNat + 2 ^ 32 * w =
      s.toUInt32.toNat + 2 ^ 32 * (w + (s >>> 32).toNat) := by ring
  rw [hsplit, Nat.add_mul_mod_self_left, Nat.mod_eq_of_lt hlt,
    Nat.add_mul_div_left _ _ (by norm_num), Nat.div_eq_of_lt hlt, zero_add]

lemma addCarry_value (acc : List UInt32) {c : UInt64} (hc : c.toNat < 2 ^ 32) :
    value (addCarry acc c) = (value acc + c.toNat) % 2 ^ (32 * acc.length) := by
  induction acc generalizing c with
  | nil => simp [addCarry, Nat.mod_one]
  | cons a acc ih =>
      rw [addCarry]
      split
      next h =>
        rw [h, UInt64.toNat_zero, add_zero, Nat.mod_eq_of_lt (value_lt _)]
      next h =>
        have ha := limb_lt a
        have hsum : (a.toUInt64 + c).toNat = a.toNat + c.toNat := by
          rw [UInt64.toNat_add, UInt32.toNat_toUInt64]
          omega
        have hcarry : ((a.toUInt64 + c) >>> 32).toNat < 2 ^ 32 := by
          rw [toNat_shiftRight_32, hsum]
          omega
        rw [value_cons, List.length_cons, low_cons_mod (ih hcarry) hsum, value_cons]
        congr 1
        ring

/-- `factor * y + a + carry` fits in 64 bits, and its high limb is a carry again. -/
lemma mulAdd_toNat (x y a : UInt32) {c : UInt64} (hc : c.toNat < 2 ^ 32) :
    (x.toUInt64 * y.toUInt64 + a.toUInt64 + c).toNat = x.toNat * y.toNat + a.toNat + c.toNat ∧
      ((x.toUInt64 * y.toUInt64 + a.toUInt64 + c) >>> 32).toNat < 2 ^ 32 := by
  have hx : x.toNat ≤ 2 ^ 32 - 1 := Nat.le_sub_one_of_lt (limb_lt x)
  have hy : y.toNat ≤ 2 ^ 32 - 1 := Nat.le_sub_one_of_lt (limb_lt y)
  have ha := limb_lt a
  have hxy : x.toNat * y.toNat ≤ (2 ^ 32 - 1) * (2 ^ 32 - 1) := Nat.mul_le_mul hx hy
  have hval : (x.toUInt64 * y.toUInt64 + a.toUInt64 + c).toNat =
      x.toNat * y.toNat + a.toNat + c.toNat := by
    rw [UInt64.toNat_add, UInt64.toNat_add, UInt64.toNat_mul]
    simp only [UInt32.toNat_toUInt64]
    omega
  refine ⟨hval, ?_⟩
  rw [toNat_shiftRight_32, hval]
  omega

lemma mulAddRow_value (x : UInt32) (ys acc : List UInt32) (hlen : ys.length ≤ acc.length)
    {c : UInt64} (hc : c.toNat < 2 ^ 32) :
    value (mulAddRow x ys acc c) =
      (value acc + x.toNat * value ys + c.toNat) % 2 ^ (32 * acc.length) := by
  induction ys generalizing acc c with
  | nil => simp [mulAddRow, addCarry_value acc hc]
  | cons y ys ih =>
      obtain _ | ⟨a, acc⟩ := acc
      · simp at hlen
      obtain ⟨hsum, hcarry⟩ := mulAdd_toNat x y a hc
      rw [mulAddRow, value_cons, List.length_cons,
        low_cons_mod (ih acc (by simpa using hlen) hcarry) hsum, value_cons, value_cons]
      congr 1
      ring

lemma mulRows_value {xs ys acc : List UInt32} (hlen : xs.length + ys.length ≤ acc.length) :
    value (mulRows xs ys acc) =
      (value acc + value xs * value ys) % 2 ^ (32 * acc.length) := by
  induction xs generalizing acc with
  | nil => rw [mulRows, value_nil, zero_mul, add_zero, Nat.mod_eq_of_lt (value_lt acc)]
  | cons x xs ih =>
      have hrow := mulAddRow_value x ys acc (c := 0)
        (by simp at hlen; omega) (by simp)
      have hrlen := length_mulAddRow x ys acc 0
      rw [mulRows]
      split
      next h =>
        rw [h] at hrlen
        simp at hlen hrlen
        omega
      next a rest h =>
        rw [h] at hrow hrlen
        simp only [List.length_cons] at hlen hrlen
        have ha := limb_lt a
        have hrest := @ih rest (by omega)
        -- the row moved into the rest: `a + 2^32 * rest` is the accumulator after it
        rw [value_cons, UInt64.toNat_zero, add_zero] at hrow
        rw [value_cons, hrest, value_cons, ← hrlen, Nat.mul_succ, add_comm (32 * rest.length),
          pow_add] at *
        have hmod : a.toNat + 2 ^ 32 * ((value rest + value xs * value ys) %
            2 ^ (32 * rest.length)) = (a.toNat + 2 ^ 32 * (value rest + value xs * value ys)) %
              (2 ^ 32 * 2 ^ (32 * rest.length)) := by
          rw [Nat.mod_mul, Nat.add_mul_mod_self_left, Nat.mod_eq_of_lt ha,
            Nat.add_mul_div_left _ _ (by norm_num), Nat.div_eq_of_lt ha, zero_add]
        rw [hmod, mul_add, ← add_assoc, hrow, Nat.mod_add_mod]
        congr 1
        ring

/-- A product into an empty accumulator with room for it is exact. The room is that for the two
widths, so that it does not depend on the values. -/
lemma mulRows_exact {xs ys : List UInt32} {n : ℕ} (hlen : xs.length + ys.length ≤ n) :
    value (mulRows xs ys (List.replicate n 0)) = value xs * value ys := by
  rw [mulRows_value (by simpa using hlen), value_replicate_zero, zero_add, List.length_replicate,
    Nat.mod_eq_of_lt]
  calc value xs * value ys < 2 ^ (32 * xs.length) * 2 ^ (32 * ys.length) :=
        Nat.mul_lt_mul'' (value_lt xs) (value_lt ys)
    _ = 2 ^ (32 * (xs.length + ys.length)) := by rw [← pow_add, mul_add]
    _ ≤ 2 ^ (32 * n) := Nat.pow_le_pow_right (by norm_num) (by omega)

/-! ## Montgomery reduction -/

/-- The negated inverse of an odd limb modulo `2^32`, by five Newton steps from the start value one.
-/
def lowInverse (value : UInt32) : UInt32 :=
  0 - (List.range 5).foldl (fun inverse _ => inverse * (2 - value * inverse)) 1

/-- Each Newton step squares the error `1 - value * inverse`, and an even error vanishes after
five squarings. -/
lemma lowInverse_spec {m : UInt32} (hodd : m &&& 1 ≠ 0) : m * lowInverse m = -1 := by
  have hodd' : m.toNat % 2 = 1 := by
    have hand : (m &&& 1).toNat = m.toNat % 2 := by simp [UInt32.toNat_and]
    have hne : (m &&& 1).toNat ≠ 0 := fun h => hodd (UInt32.toNat_inj.mp h)
    omega
  obtain ⟨t, ht⟩ : ∃ t : UInt32, m = 1 + 2 * t := by
    refine ⟨UInt32.ofNat (m.toNat / 2), UInt32.toNat_inj.mp ?_⟩
    have := limb_lt m
    rw [UInt32.toNat_add, UInt32.toNat_mul, UInt32.toNat_ofNat', UInt32.toNat_one,
      show (2 : UInt32).toNat = 2 from rfl]
    omega
  have herror : ∀ x : UInt32, 1 - m * (x * (2 - m * x)) = (1 - m * x) * (1 - m * x) := fun x => by
    grind
  set x₅ := (List.range 5).foldl (fun inverse (_ : ℕ) => inverse * (2 - m * inverse)) (1 : UInt32)
    with hx₅
  have hpow : 1 - m * x₅ = (1 - m) ^ 32 := by
    simp only [hx₅, List.range, List.range.loop, List.foldl_cons, List.foldl_nil, herror]
    grind
  have hzero : (1 - m) ^ 32 = 0 := by
    rw [ht]
    grind
  rw [lowInverse, ← hx₅]
  grind

/-- The factor of a row clears the limb the row starts at, since it is the negated limb divided by
the lowest limb of the modulus. -/
lemma redc_head_eq_zero {m₀ n0 a : UInt32} (hn0 : m₀ * n0 = -1) :
    ((a * n0).toUInt64 * m₀.toUInt64 + a.toUInt64 + 0).toUInt32 = 0 := by
  simp only [UInt64.toUInt32_add, UInt64.toUInt32_mul, UInt32.toUInt32_toUInt64]
  rw [show (0 : UInt64).toUInt32 = 0 from rfl]
  grind

/-- One row per limb of the modulus: the factor of row `i` clears limb `i`. The count is the
number of rows that are left. -/
def redcRows (modulus : List UInt32) (n0Inverse : UInt32) : ℕ → List UInt32 → List UInt32
  | 0, acc => acc
  | _ + 1, [] => []
  | n + 1, a :: acc =>
      match mulAddRow (a * n0Inverse) modulus (a :: acc) 0 with
      | [] => []
      | b :: rest => b :: redcRows modulus n0Inverse n rest

@[simp] lemma length_redcRows (modulus : List UInt32) (n0 : UInt32) (n : ℕ) (acc : List UInt32) :
    (redcRows modulus n0 n acc).length = acc.length := by
  induction n generalizing acc with
  | zero => rfl
  | succ n ih =>
      obtain _ | ⟨a, acc⟩ := acc
      · rfl
      have hlen := length_mulAddRow (a * n0) modulus (a :: acc) 0
      rw [redcRows]
      split
      next h => rw [h] at hlen; simp at hlen
      next b rest h => rw [h] at hlen; simpa [ih] using hlen

/-- A row of a reduction that fits clears its limb and is exact on the limbs above, where the rows
that are left fit again. -/
lemma redcRow_exact {m₀ n0 a : UInt32} (ms acc : List UInt32) (hn0 : m₀ * n0 = -1) (n : ℕ)
    (hlen : ms.length ≤ acc.length)
    (hfit : value (a :: acc) + 2 ^ (32 * (n + 1)) * value (m₀ :: ms) <
      2 ^ (32 * (a :: acc).length) + value (m₀ :: ms)) :
    ∃ rest : List UInt32, mulAddRow (a * n0) (m₀ :: ms) (a :: acc) 0 = 0 :: rest ∧
      rest.length = acc.length ∧
      2 ^ 32 * value rest = value (a :: acc) + (a * n0).toNat * value (m₀ :: ms) ∧
      value rest + 2 ^ (32 * n) * value (m₀ :: ms) <
        2 ^ (32 * rest.length) + value (m₀ :: ms) := by
  have hrow := mulAddRow_value (a * n0) (m₀ :: ms) (a :: acc) (c := 0)
    (by simpa using hlen) (by simp)
  have hrlen := length_mulAddRow (a * n0) (m₀ :: ms) (a :: acc) 0
  have hhead := redc_head_eq_zero (a := a) hn0
  set rest := mulAddRow (a * n0) ms acc
    (((a * n0).toUInt64 * m₀.toUInt64 + a.toUInt64 + 0) >>> 32) with hrest
  have hcons : mulAddRow (a * n0) (m₀ :: ms) (a :: acc) 0 = 0 :: rest := by
    rw [mulAddRow, hhead, hrest]
  rw [hcons] at hrow hrlen
  set m := value (m₀ :: ms) with hm
  have hf : (a * n0).toNat + 1 ≤ 2 ^ 32 := limb_lt _
  have hpow : 2 ^ (32 * (n + 1)) = 2 ^ 32 * 2 ^ (32 * n) := by
    rw [← pow_add, Nat.mul_succ, add_comm]
  -- The factor is one limb, so the row adds less than `2 ^ 32` times the modulus.
  have hfm : (a * n0).toNat * m + m ≤ 2 ^ 32 * m := by
    calc (a * n0).toNat * m + m = ((a * n0).toNat + 1) * m := by ring
      _ ≤ 2 ^ 32 * m := Nat.mul_le_mul_right _ hf
  have hm_le : 2 ^ 32 * m ≤ 2 ^ (32 * (n + 1)) * m := by
    rw [hpow]
    exact Nat.mul_le_mul_right _ (Nat.le_mul_of_pos_right _ (by positivity))
  -- By the bound the row does not overflow, and its value is exact rather than modular.
  have hexact : 2 ^ 32 * value rest = value (a :: acc) + (a * n0).toNat * m := by
    rw [value_cons, UInt32.toNat_zero, zero_add, UInt64.toNat_zero, add_zero] at hrow
    rw [hrow, Nat.mod_eq_of_lt]
    omega
  have hrestlen : rest.length = acc.length := by simpa using hrlen
  refine ⟨rest, hcons, hrestlen, hexact, ?_⟩
  have hlenpow : 2 ^ (32 * (a :: acc).length) = 2 ^ 32 * 2 ^ (32 * rest.length) := by
    rw [hrestlen, List.length_cons, ← pow_add, Nat.mul_succ, add_comm]
  rw [hlenpow, hpow] at hfit
  have : 2 ^ 32 * (value rest + 2 ^ (32 * n) * m) < 2 ^ 32 * (2 ^ (32 * rest.length) + m) := by
    rw [mul_add, hexact, mul_add, ← mul_assoc]
    omega
  exact Nat.lt_of_mul_lt_mul_left this

/-- The reduction adds a multiple of the modulus that clears the low limbs; as long as the sum
fits in the accumulator it is exact. -/
lemma redcRows_spec {m₀ n0 : UInt32} (ms : List UInt32) (hn0 : m₀ * n0 = -1) (n : ℕ)
    (acc : List UInt32) (hlen : n + (m₀ :: ms).length ≤ acc.length)
    (hfit : value acc + 2 ^ (32 * n) * value (m₀ :: ms) <
      2 ^ (32 * acc.length) + value (m₀ :: ms)) :
    ∃ k < 2 ^ (32 * n),
      2 ^ (32 * n) * value ((redcRows (m₀ :: ms) n0 n acc).drop n) =
        value acc + k * value (m₀ :: ms) := by
  induction n generalizing acc with
  | zero => exact ⟨0, by simp, by simp [redcRows]⟩
  | succ n ih =>
      obtain _ | ⟨a, acc⟩ := acc
      · simp at hlen
      simp only [List.length_cons] at hlen
      obtain ⟨rest, hcons, hrestlen, hexact, hfit'⟩ := redcRow_exact ms acc hn0 n (by omega) hfit
      have hred : redcRows (m₀ :: ms) n0 (n + 1) (a :: acc) =
          0 :: redcRows (m₀ :: ms) n0 n rest := by
        rw [redcRows, hcons]
      have hf : (a * n0).toNat + 1 ≤ 2 ^ 32 := limb_lt _
      have hpow : 2 ^ (32 * (n + 1)) = 2 ^ 32 * 2 ^ (32 * n) := by
        rw [← pow_add, Nat.mul_succ, add_comm]
      obtain ⟨k, hk, hval⟩ := ih rest (by simp only [List.length_cons]; omega) hfit'
      refine ⟨(a * n0).toNat + 2 ^ 32 * k, ?_, ?_⟩
      · rw [hpow]
        calc (a * n0).toNat + 2 ^ 32 * k < 2 ^ 32 * (k + 1) := by omega
          _ ≤ 2 ^ 32 * 2 ^ (32 * n) := Nat.mul_le_mul_left _ hk
      · rw [hred, List.drop_succ_cons, hpow, mul_assoc, hval, mul_add, hexact]
        ring

/-- The accumulator of a Montgomery multiplication after all its rows: those of the product, and
then those of the reduction. -/
def montgomeryAccumulate (lhs rhs modulus : List UInt32) (n0Inverse : UInt32) (size : ℕ) :
    List UInt32 :=
  redcRows modulus n0Inverse modulus.length (mulRows lhs rhs (List.replicate size 0))

/-- A product of factors of the width of the modulus, one of them below it, and all multiples that
the reduction adds fit in an accumulator of one limb more than twice the width. -/
lemma montgomeryAccumulate_fits {lhs rhs modulus : List UInt32} {size : ℕ}
    (hsize : 2 * modulus.length + 1 ≤ size) (hlhs : lhs.length = modulus.length)
    (hlt : value rhs < value modulus) :
    value lhs * value rhs < 2 ^ (32 * modulus.length) * value modulus ∧
      2 * (2 ^ (32 * modulus.length) * value modulus) ≤ 2 ^ (32 * size) := by
  have hmlt := value_lt modulus
  have hllt : value lhs < 2 ^ (32 * modulus.length) := hlhs ▸ value_lt lhs
  refine ⟨Nat.mul_lt_mul'' hllt hlt, ?_⟩
  set w := modulus.length
  calc 2 * (2 ^ (32 * w) * value modulus) ≤ 2 ^ 32 * (2 ^ (32 * w) * 2 ^ (32 * w)) :=
        Nat.mul_le_mul (by norm_num) (Nat.mul_le_mul_left _ hmlt.le)
    _ = 2 ^ (32 + (32 * w + 32 * w)) := by rw [pow_add, pow_add]
    _ ≤ 2 ^ (32 * size) := Nat.pow_le_pow_right (by norm_num) (by omega)

/-- The limbs of the accumulator above the modulus width hold the product, divided by
`2^(32 * width)`, up to one multiple of the modulus. -/
lemma montgomeryAccumulate_spec (lhs rhs modulus : List UInt32) (size : ℕ)
    (hodd : modulus.getD 0 0 &&& 1 ≠ 0) (hlhs : lhs.length = modulus.length)
    (hrhs : rhs.length = modulus.length) (hsize : 2 * modulus.length + 1 ≤ size)
    (hlt : value rhs < value modulus) :
    let high := (montgomeryAccumulate lhs rhs modulus (lowInverse (modulus.getD 0 0)) size).drop
      modulus.length
    2 ^ (32 * modulus.length) * value high ≡ value lhs * value rhs [MOD value modulus] ∧
      value high < 2 * value modulus := by
  intro high
  obtain _ | ⟨m₀, ms⟩ := modulus
  · simp at hodd
  set m := value (m₀ :: ms) with hm
  set w := (m₀ :: ms).length with hw
  have hprod : value (mulRows lhs rhs (List.replicate size 0)) = value lhs * value rhs :=
    mulRows_exact (by omega)
  obtain ⟨hprodlt, hroom⟩ := montgomeryAccumulate_fits hsize hlhs hlt
  rw [← hm, ← hw] at hprodlt hroom
  obtain ⟨k, hk, hval⟩ := redcRows_spec ms (lowInverse_spec (m := m₀) (by simpa using hodd)) w
    (mulRows lhs rhs (List.replicate size 0))
    (by rw [length_mulRows, List.length_replicate]; omega)
    (by rw [hprod, length_mulRows, List.length_replicate, ← hm]; omega)
  rw [hprod] at hval
  -- The rows added a multiple of the modulus and made the low limbs zero.
  have hhigh : 2 ^ (32 * w) * value high = value lhs * value rhs + k * m := hval
  refine ⟨?_, ?_⟩
  · rw [hhigh]
    exact Nat.modEq_add_mul_modulus_iff.mp rfl
  -- Product and multiple are each below `2 ^ (32 * w)` times the modulus.
  · have hkm : k * m ≤ 2 ^ (32 * w) * m := Nat.mul_le_mul_right _ hk.le
    have : 2 ^ (32 * w) * value high < 2 ^ (32 * w) * (2 * m) := by
      rw [hhigh]
      calc value lhs * value rhs + k * m < 2 ^ (32 * w) * m + 2 ^ (32 * w) * m := by omega
        _ = 2 ^ (32 * w) * (2 * m) := by ring
    exact Nat.lt_of_mul_lt_mul_left this

end Limbs
