import CryptoCore.Framework.CheckedAccess
import CryptoCore.Framework.LimbProducts

/-!
# Limb accumulators with checked indices

The rows of a product and of Montgomery reduction, computed in an accumulator that is accessed by
index. An access outside the accumulator is an error here, where a program would read or write
memory that it does not own.

The loop that carries above a row runs until the carry is zero and has no bound of its own. It stays
inside the accumulator because what the row adds fits in it; then the accumulator ends as the list
of limbs that the rows without indices compute.

Each lemma of the second section therefore has a bound on a value as its hypothesis, and the
equation with the version without indices as its conclusion. The accumulator is written as the limbs
in front of the current one, which a loop has left behind, and the rest. The invariants are
`addRowAt_eq` for one row, `mulRowsAt_eq` and `redcRowsAt_eq` for all of them; the two theorems
start them at an accumulator of zeros. The hypotheses of `montgomeryAccumulateAt_eq` are those of
Montgomery multiplication: widths that agree, an odd modulus and one factor below it.
-/

namespace CheckedLimbs

open CheckedAccess Limbs

/-! ## The loops -/

/-- The carry loop from a limb on. It asks only whether the carry is zero, so that a carry that is
left at the end of the accumulator is an access outside it. -/
def addCarryAt (limbs : List UInt32) (index : ℕ) (carry : UInt64) : Checked (List UInt32) :=
  if carry = 0 then .ok limbs
  else if index < limbs.length then
    let sum := (limbs.getD index 0).toUInt64 + carry
    addCarryAt (limbs.set index sum.toUInt32) (index + 1) (sum >>> 32)
  else .error .outOfBounds
termination_by limbs.length - index
decreasing_by
  rw [List.length_set]
  omega

/-- The last `rounds` digits of a row times a factor, added from limb `start + j` on. What is
carried out of the last digit goes into the limb above the row. -/
def addRowAt (factor : UInt32) (row : List UInt32) (start : ℕ) :
    ℕ → ℕ → List UInt32 → UInt64 → Checked (List UInt32)
  | 0, j, acc, carry => addCarryAt acc (start + j) carry
  | rounds + 1, j, acc, carry => do
      let digit ← read row j
      let limb ← read acc (start + j)
      let product := factor.toUInt64 * digit.toUInt64 + limb.toUInt64 + carry
      let acc ← write acc (start + j) product.toUInt32
      addRowAt factor row start rounds (j + 1) acc (product >>> 32)

/-- The last `rounds` rows of a product, from row `i` on. The row of a digit starts at the limb of
the same index. -/
def mulRowsAt (lhs rhs : List UInt32) (width : ℕ) : ℕ → ℕ → List UInt32 → Checked (List UInt32)
  | 0, _, acc => .ok acc
  | rounds + 1, i, acc => do
      let factor ← read lhs i
      let acc ← addRowAt factor rhs i width 0 acc 0
      mulRowsAt lhs rhs width rounds (i + 1) acc

/-- The last `rounds` rows of a reduction, from row `i` on. The factor of a row makes the limb that
it starts at zero. -/
def redcRowsAt (modulus : List UInt32) (n0Inverse : UInt32) (width : ℕ) :
    ℕ → ℕ → List UInt32 → Checked (List UInt32)
  | 0, _, acc => .ok acc
  | rounds + 1, i, acc => do
      let limb ← read acc i
      let acc ← addRowAt (limb * n0Inverse) modulus i width 0 acc 0
      redcRowsAt modulus n0Inverse width rounds (i + 1) acc

/-! ## They stay inside the accumulator -/

/-- A carry that fits in the limbs above stays in them: the loop ends before the accumulator does,
since the carry is zero as soon as a limb does not overflow. -/
lemma addCarryAt_eq (front rest : List UInt32) {carry : UInt64} (hcarry : carry.toNat < 2 ^ 32)
    (hfits : value rest + carry.toNat < 2 ^ (32 * rest.length)) :
    addCarryAt (front ++ rest) front.length carry = .ok (front ++ addCarry rest carry) := by
  induction rest generalizing front carry with
  | nil =>
      have hzero : carry = 0 := by
        apply UInt64.toNat_inj.mp
        rw [UInt64.toNat_zero]
        simpa using hfits
      rw [addCarryAt, if_pos hzero, addCarry]
  | cons a rest ih =>
      rw [addCarryAt, addCarry]
      split
      · rfl
      · have ha := limb_lt a
        have hsum : (a.toUInt64 + carry).toNat = a.toNat + carry.toNat := by
          rw [UInt64.toNat_add, UInt32.toNat_toUInt64]
          omega
        have hnext : ((a.toUInt64 + carry) >>> 32).toNat = (a.toNat + carry.toNat) / 2 ^ 32 := by
          rw [toNat_shiftRight_32, hsum]
        have hlength : front.length + 1 = (front ++ [(a.toUInt64 + carry).toUInt32]).length := by
          simp
        have hinside : front.length < (front ++ a :: rest).length := by simp
        have hlimb : (front ++ a :: rest).getD front.length 0 = a := by simp
        -- The limb that was written joins those in front, and the loop goes on behind it.
        have hset : (front ++ a :: rest).set front.length (a.toUInt64 + carry).toUInt32 =
            front ++ [(a.toUInt64 + carry).toUInt32] ++ rest := by
          simp
        rw [if_pos hinside, hlimb]
        dsimp only
        rw [hset, hlength, ih _ (by rw [hnext]; omega), List.append_assoc]
        · rfl
        · rw [value_cons, List.length_cons, Nat.mul_succ, pow_add] at hfits
          rw [hnext]
          omega

/-- A row that fits in the limbs from its own on stays in them. `done` are the digits that are added
already, and `front` the limbs that they went to. -/
lemma addRowAt_eq (factor : UInt32) {start : ℕ} (ys : List UInt32) :
    ∀ (done front rest : List UInt32) {carry : UInt64}, front.length = start + done.length →
      ys.length ≤ rest.length → carry.toNat < 2 ^ 32 →
      value rest + factor.toNat * value ys + carry.toNat < 2 ^ (32 * rest.length) →
      addRowAt factor (done ++ ys) start ys.length done.length (front ++ rest) carry =
        .ok (front ++ mulAddRow factor ys rest carry) := by
  induction ys with
  | nil =>
      intro done front rest carry hfront hlength hcarry hfits
      rw [List.length_nil, addRowAt, ← hfront, mulAddRow]
      exact addCarryAt_eq front rest hcarry (by simpa using hfits)
  | cons y ys ih =>
      intro done front rest carry hfront hlength hcarry hfits
      obtain _ | ⟨a, rest⟩ := rest
      · simp at hlength
      obtain ⟨hsum, hnext⟩ := mulAdd_toNat factor y a hcarry
      rw [List.length_cons, addRowAt, read_middle, checked_bind, ← hfront, read_middle,
        checked_bind]
      dsimp only
      have hdone : done ++ y :: ys = (done ++ [y]) ++ ys := by simp
      have hj : done.length + 1 = (done ++ [y]).length := by simp
      rw [write_middle, checked_bind, hdone, hj, ih _ _ _ ?_ (by simpa using hlength) hnext,
        List.append_assoc]
      · rfl
      · -- the limb is cut off the sum
        have hcut : value rest + factor.toNat * value ys +
            (factor.toNat * y.toNat + a.toNat + carry.toNat) / 2 ^ 32 <
              2 ^ (32 * rest.length) := by
          rw [value_cons, value_cons, List.length_cons, Nat.mul_succ, pow_add] at hfits
          have hsplit : a.toNat + 2 ^ 32 * value rest +
              factor.toNat * (y.toNat + 2 ^ 32 * value ys) + carry.toNat =
              factor.toNat * y.toNat + a.toNat + carry.toNat +
                2 ^ 32 * (value rest + factor.toNat * value ys) := by
            ring
          rw [hsplit] at hfits
          omega
        rwa [toNat_shiftRight_32, hsum]
      · simp [hfront, Nat.add_assoc]

/-- The rows of a product that fits. `done` are the limbs of the left factor that are done, one for
each limb that has been left behind. -/
lemma mulRowsAt_eq {rhs : List UInt32} (xs : List UInt32) :
    ∀ (done front rest : List UInt32), front.length = done.length →
      xs.length + rhs.length ≤ rest.length →
      value rest + value xs * value rhs < 2 ^ (32 * rest.length) →
      mulRowsAt (done ++ xs) rhs rhs.length xs.length done.length (front ++ rest) =
        .ok (front ++ mulRows xs rhs rest) := by
  induction xs with
  | nil =>
      intro done front rest hfront hlength hfits
      rfl
  | cons x xs ih =>
      intro done front rest hfront hlength hfits
      have hxs : value rest + x.toNat * value rhs + (0 : UInt64).toNat <
          2 ^ (32 * rest.length) := by
        rw [value_cons, Nat.add_mul] at hfits
        rw [UInt64.toNat_zero]
        omega
      have hrowLength : rhs.length ≤ rest.length := by
        rw [List.length_cons] at hlength
        omega
      have hrow := addRowAt_eq x rhs [] front rest
        (show front.length = done.length + ([] : List UInt32).length by simpa using hfront)
        hrowLength (by simp) hxs
      have hvalue := mulAddRow_value x rhs rest hrowLength (c := 0) (by simp)
      have hrest := length_mulAddRow x rhs rest 0
      rw [Nat.mod_eq_of_lt hxs] at hvalue
      rw [List.nil_append, List.length_nil] at hrow
      rw [List.length_cons, mulRowsAt, read_middle, checked_bind, hrow, checked_bind, mulRows]
      generalize mulAddRow x rhs rest 0 = row at hvalue hrest ⊢
      obtain _ | ⟨a, acc⟩ := row
      · rw [List.length_nil] at hrest
        rw [List.length_cons] at hlength
        omega
      have hdone : done ++ x :: xs = (done ++ [x]) ++ xs := by simp
      have hacc : front ++ a :: acc = (front ++ [a]) ++ acc := by simp
      have hi : done.length + 1 = (done ++ [x]).length := by simp
      dsimp only
      rw [List.length_cons] at hrest hlength
      rw [hdone, hacc, hi, ih _ _ _ (by simp [hfront]) (by omega), List.append_assoc]
      · rfl
      · -- what the row leaves behind its first limb
        rw [value_cons, UInt64.toNat_zero, Nat.add_zero] at hvalue
        rw [value_cons, ← hrest, Nat.mul_succ, pow_add] at hfits
        have hsplit : value rest + (x.toNat + 2 ^ 32 * value xs) * value rhs =
            a.toNat + 2 ^ 32 * (value acc + value xs * value rhs) := by
          calc value rest + (x.toNat + 2 ^ 32 * value xs) * value rhs
              = value rest + x.toNat * value rhs + 2 ^ 32 * (value xs * value rhs) := by ring
            _ = a.toNat + 2 ^ 32 * (value acc + value xs * value rhs) := by rw [← hvalue]; ring
        rw [hsplit] at hfits
        omega

/-- A product into an empty accumulator with room for it. The two widths together bound the product,
so that no bound on values is left. -/
theorem mulRowsAt_replicate {xs ys : List UInt32} {n : ℕ} (hlen : xs.length + ys.length ≤ n) :
    mulRowsAt xs ys ys.length xs.length 0 (List.replicate n 0) =
      .ok (mulRows xs ys (List.replicate n 0)) := by
  have hfits : value (List.replicate n 0) + value xs * value ys <
      2 ^ (32 * (List.replicate n (0 : UInt32)).length) := by
    rw [value_replicate_zero, Nat.zero_add, List.length_replicate]
    calc value xs * value ys < 2 ^ (32 * xs.length) * 2 ^ (32 * ys.length) :=
          Nat.mul_lt_mul'' (value_lt xs) (value_lt ys)
      _ = 2 ^ (32 * (xs.length + ys.length)) := by rw [← pow_add, mul_add]
      _ ≤ 2 ^ (32 * n) := Nat.pow_le_pow_right (by norm_num) (by omega)
  exact mulRowsAt_eq xs [] [] _ rfl (by rwa [List.length_replicate]) hfits

/-- The rows of a reduction that fits. `front` are the limbs that are cleared already; the bound
leaves room for one modulus above the value, which is what a reduction adds. -/
lemma redcRowsAt_eq {m₀ n0 : UInt32} (ms : List UInt32) (hn0 : m₀ * n0 = -1) (rounds : ℕ) :
    ∀ front rest : List UInt32, rounds + (m₀ :: ms).length ≤ rest.length →
      value rest + 2 ^ (32 * rounds) * value (m₀ :: ms) <
        2 ^ (32 * rest.length) + value (m₀ :: ms) →
      redcRowsAt (m₀ :: ms) n0 (m₀ :: ms).length rounds front.length (front ++ rest) =
        .ok (front ++ redcRows (m₀ :: ms) n0 rounds rest) := by
  induction rounds with
  | zero => exact fun front rest _ _ => rfl
  | succ rounds ih =>
      intro front rest hlength hfits
      obtain _ | ⟨a, acc⟩ := rest
      · simp at hlength
      simp only [List.length_cons] at hlength
      obtain ⟨rest, hrow, hrestLength, hexact, hfits'⟩ :=
        redcRow_exact ms acc hn0 rounds (by omega) hfits
      have hrowFits : value (a :: acc) + (a * n0).toNat * value (m₀ :: ms) + (0 : UInt64).toNat <
          2 ^ (32 * (a :: acc).length) := by
        have hlt := value_lt rest
        rw [← hexact, UInt64.toNat_zero, Nat.add_zero, List.length_cons, ← hrestLength,
          Nat.mul_succ, pow_add]
        omega
      have hchecked := addRowAt_eq (a * n0) (m₀ :: ms) [] front (a :: acc)
        (show front.length = front.length + ([] : List UInt32).length from rfl)
        (by simp only [List.length_cons]; omega) (by simp) hrowFits
      rw [List.nil_append, List.length_nil] at hchecked
      have hfront : front ++ 0 :: rest = (front ++ [0]) ++ rest := by simp
      have hi : front.length + 1 = (front ++ [(0 : UInt32)]).length := by simp
      rw [redcRowsAt, read_middle, checked_bind, hchecked, checked_bind, redcRows, hrow]
      dsimp only
      rw [hfront, hi, ih _ _ (by simp only [List.length_cons]; omega) hfits', List.append_assoc]
      rfl

/-- The accumulator of a Montgomery multiplication: the product of the factors first, then one row
of the modulus for each of its limbs. -/
def montgomeryAccumulateAt (lhs rhs modulus : List UInt32) (n0Inverse : UInt32) (size : ℕ) :
    Checked (List UInt32) := do
  let acc ← mulRowsAt lhs rhs modulus.length modulus.length 0 (List.replicate size 0)
  redcRowsAt modulus n0Inverse modulus.length modulus.length 0 acc

/-- Factors below an odd modulus never leave the accumulator, whose size has to be twice the width
and one limb more. -/
theorem montgomeryAccumulateAt_eq (lhs rhs modulus : List UInt32) (size : ℕ)
    (hodd : modulus.getD 0 0 &&& 1 ≠ 0) (hlhs : lhs.length = modulus.length)
    (hrhs : rhs.length = modulus.length) (hsize : 2 * modulus.length + 1 ≤ size)
    (hlt : value rhs < value modulus) :
    montgomeryAccumulateAt lhs rhs modulus (lowInverse (modulus.getD 0 0)) size =
      .ok (montgomeryAccumulate lhs rhs modulus (lowInverse (modulus.getD 0 0)) size) := by
  have hprod : value (mulRows lhs rhs (List.replicate size 0)) = value lhs * value rhs :=
    mulRows_exact (by omega)
  obtain _ | ⟨m₀, ms⟩ := modulus
  · simp at hodd
  have hfit := montgomeryAccumulate_fits hsize hlhs hlt
  have hrows := mulRowsAt_replicate (n := size) (show lhs.length + rhs.length ≤ size by omega)
  have hredc := redcRowsAt_eq ms (lowInverse_spec (m := m₀) (by simpa using hodd))
    (m₀ :: ms).length [] (mulRows lhs rhs (List.replicate size 0))
    (by rw [length_mulRows, List.length_replicate]; omega) (by
      rw [hprod, length_mulRows, List.length_replicate]
      omega)
  rw [hlhs, hrhs] at hrows
  rw [montgomeryAccumulateAt, hrows, checked_bind]
  exact hredc

end CheckedLimbs
