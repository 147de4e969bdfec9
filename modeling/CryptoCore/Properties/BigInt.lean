import CryptoCore.Framework.CheckedLimbs
import CryptoCore.Construction.BigInt

/-!
# Arithmetic of the variable-length integers

The operations of `BigInt` are exact on the numbers that their limbs stand for. Two of them could
leave their bounds: the carry loop of `multiply`, which nothing but a zero carry ends, and the loop
of `mod`, whose estimate of the shift may be one too large. Both are stated a second time with these
steps checked.

The product is an instance of the checked rows of the framework, and needs only that the output has
room for the two widths. The remainder is a loop without a counter. `ModRun` is the relation between
its first and its last remainder, by its rounds; a round that would subtract more than there is, or
shift by less than nothing, has no rule. `mod_run` says that the loop which the construction cuts
off after enough rounds is such a run, by induction on the rounds: each of them clears the top bit
of the remainder.

Normal form is a field of the type, so that the theorem states it for every integer at once, and
that equal numbers are equal integers.
-/

namespace CryptoCore

open ByteStrings CheckedAccess

namespace BigInt

/-! ## The product with checked indices -/

/-- The product, with every access to the output checked. -/
def multiplyChecked (lhs rhs : BigInt) : Checked BigInt :=
  if lhs.isZero || rhs.isZero then .ok zero
  else do
    let output ← CheckedLimbs.mulRowsAt lhs.limbs rhs.limbs rhs.limbs.length lhs.limbs.length 0
      (List.replicate (lhs.limbs.length + rhs.limbs.length + 1) 0)
    return ofLimbs output

/-- The carries end inside the output, which has one limb more than the two factors together. -/
theorem multiplyChecked_eq (x y : BigInt) : multiplyChecked x y = .ok (multiply x y) := by
  rw [multiplyChecked, multiply]
  split
  · rfl
  rw [CheckedLimbs.mulRowsAt_replicate (Nat.le_succ _), checked_bind]
  rfl

/-! ## The loop of the remainder -/

/-- A difference that must not be negative, as nothing in the subtraction itself checks. -/
def subtractChecked (lhs rhs : BigInt) : Checked BigInt :=
  if lhs.compare rhs < 0 then .error .wrapAround else .ok (subtract lhs rhs)

/-- A round of the loop of `mod`: a shifted modulus is subtracted, one place lower when the estimate
was too large. -/
def modRoundChecked (modulus remainder : BigInt) : Checked BigInt := do
  let shift ← subSize remainder.bitLength modulus.bitLength
  let shifted := shiftLeftBits modulus shift
  if shifted.compare remainder > 0 then do
    let shift ← subSize shift 1
    subtractChecked remainder (shiftLeftBits modulus shift)
  else subtractChecked remainder shifted

/-- The runs of the loop of `mod` that end without a fault, by their first and last remainder. -/
inductive ModRun (modulus : BigInt) : BigInt → BigInt → Prop
  | done {remainder : BigInt} (h : remainder.compare modulus < 0) :
      ModRun modulus remainder remainder
  | round {remainder next result : BigInt} (h : remainder.compare modulus ≥ 0)
      (hround : modRoundChecked modulus remainder = .ok next) (hrun : ModRun modulus next result) :
      ModRun modulus remainder result

section Remainder

variable {m r : BigInt}

lemma subtractChecked_eq {x y : BigInt} (h : y.toNat ≤ x.toNat) :
    subtractChecked x y = .ok (subtract x y) :=
  if_neg (by rw [compare_neg_iff]; omega)

/-- Where the estimate is too large it is not zero, and what is subtracted fits in either case. -/
lemma modRoundChecked_eq (hm : m.toNat ≠ 0) (hle : m.toNat ≤ r.toNat) :
    modRoundChecked m r =
      .ok (if (shiftLeftBits m (r.bitLength - m.bitLength)).compare r > 0 then
        subtract r (shiftLeftBits m (r.bitLength - m.bitLength - 1))
      else subtract r (shiftLeftBits m (r.bitLength - m.bitLength))) := by
  obtain ⟨k, hk, -, hval⟩ := mod_round hm hle
  have hsize : m.bitLength ≤ r.bitLength := by
    rw [bitLength_eq, bitLength_eq]
    exact Nat.size_le_size hle
  rw [modRoundChecked, subSize_eq hsize, checked_bind]
  dsimp only
  split
  next hgt =>
    rw [if_pos hgt] at hval
    have hshift : 1 ≤ r.bitLength - m.bitLength := by
      by_contra hzero
      rw [compare_pos_iff, toNat_shiftLeftBits, Nat.lt_one_iff.mp (Nat.not_le.mp hzero), pow_zero,
        one_mul] at hgt
      omega
    rw [subSize_eq hshift, checked_bind, subtractChecked_eq (by rw [hval]; exact hk)]
  next hgt =>
    rw [if_neg hgt] at hval
    rw [subtractChecked_eq (by rw [hval]; exact hk)]

/-- The loop ends, after at most as many rounds as the remainder has bits. -/
lemma modLoop_run (hm : m.toNat ≠ 0) (rounds : ℕ) (hr : r.toNat.size ≤ rounds) :
    ModRun m r (modLoop m rounds r) := by
  induction rounds generalizing r with
  | zero =>
      have hzero : r.toNat = 0 := Nat.size_eq_zero.mp (Nat.le_zero.mp hr)
      exact .done (by rw [compare_neg_iff]; omega)
  | succ rounds ih =>
      rw [modLoop]
      split
      next hge =>
        have hle := (compare_nonneg_iff r m).mp hge
        have hround := modRoundChecked_eq hm hle
        obtain ⟨k, hk, hshorter, hval⟩ := mod_round hm hle
        refine .round hge hround ?_
        have hnext : ∀ y : BigInt, y.toNat = 2 ^ k * m.toNat →
            ModRun m (subtract r y) (modLoop m rounds (subtract r y)) := fun y hy => by
          refine ih ?_
          rw [toNat_subtract (by rw [hy]; exact hk), hy]
          omega
        dsimp only
        split
        next hgt =>
          rw [if_pos hgt] at hval
          exact hnext _ hval
        next hgt =>
          rw [if_neg hgt] at hval
          exact hnext _ hval
      next hlt => exact .done (by rwa [ge_iff_le, not_le] at hlt)

/-- The remainder is the end of a run without a fault. -/
theorem mod_run (hm : m.toNat ≠ 0) (x : BigInt) : ModRun m x (mod x m) := by
  rw [mod]
  split
  next h => exact .done (h.resolve_left (by rw [isZero_iff]; exact hm))
  next => exact modLoop_run hm _ (bitLength_eq x).ge

end Remainder

/-! ## Differences and encodings -/

/-- The difference modulo a number, as that of integers. The smaller number may be on the left. -/
lemma modSubtract_int (x y : BigInt) {m : BigInt} (hm : m.toNat ≠ 0) :
    ∃ difference, modSubtract x y m = .ok difference ∧
      (difference.toNat : ℤ) = ((x.toNat : ℤ) - y.toNat) % m.toNat := by
  refine ⟨_, modSubtract_eq x y hm, ?_⟩
  have hy := (Nat.mod_lt y.toNat (Nat.pos_of_ne_zero hm)).le
  rw [toNat_ofNat, Int.natCast_mod, Nat.cast_add, Nat.cast_sub hy, Int.natCast_mod, Int.natCast_mod,
    ← add_sub_assoc, add_sub_right_comm, Int.add_emod_right, ← Int.sub_emod]

lemma toBeBytes_stripped {x : BigInt} {bytes : List UInt8} (h : x.toNat = beValue bytes) :
    x.toBeBytes =
      if bytes.dropWhile (· == 0) = [] then [0] else bytes.dropWhile (· == 0) := by
  rw [toBeBytes_eq, h, minBeBytes_beValue]

end BigInt

open BigInt

/-- The operations are exact on numbers and return normal forms; the carries of a product end
inside its output, and the loop of the remainder ends without a negative shift or difference. -/
theorem bigInt_exact :
    (∀ x : BigInt, x.limbs.getLast? ≠ some 0) ∧
    (∀ x y : BigInt, x.toNat = y.toNat → x = y) ∧
    (∀ x y : BigInt,
      (add x y).toNat = x.toNat + y.toNat ∧
      (y.toNat ≤ x.toNat → (subtract x y).toNat = x.toNat - y.toNat) ∧
      (multiply x y).toNat = x.toNat * y.toNat ∧ multiplyChecked x y = .ok (multiply x y) ∧
      (∀ bits, (shiftLeftBits x bits).toNat = x.toNat * 2 ^ bits) ∧
      x.compare y = ((x.toNat : ℤ) - y.toNat).sign) ∧
    (∀ x y m : BigInt, m.toNat ≠ 0 →
      (mod x m).toNat = x.toNat % m.toNat ∧ ModRun m x (mod x m) ∧
      (∃ sum, modAdd x y m = .ok sum ∧ sum.toNat = (x.toNat + y.toNat) % m.toNat) ∧
      (∃ difference, modSubtract x y m = .ok difference ∧
        (difference.toNat : ℤ) = ((x.toNat : ℤ) - y.toNat) % m.toNat) ∧
      ∃ product, modMultiply x y m = .ok product ∧
        product.toNat = x.toNat * y.toNat % m.toNat) ∧
    (∀ bytes : List UInt8, ∃ x, fromBeBytes bytes = .ok x ∧ x.toNat = beValue bytes ∧
      x.toBeBytes =
        if bytes.dropWhile (· == 0) = [] then [0] else bytes.dropWhile (· == 0)) ∧
    ∀ x : BigInt, beValue x.toBeBytes = x.toNat ∧ fromBeBytes x.toBeBytes = .ok x := by
  refine ⟨fun x => x.normal, fun x y => ext_toNat, fun x y => ?_, fun x y m hm => ?_,
    fun bytes => ?_, fun x => ?_⟩
  · exact ⟨toNat_add x y, toNat_subtract, toNat_multiply x y, multiplyChecked_eq x y,
      fun bits => by rw [toNat_shiftLeftBits, mul_comm], compare_eq x y⟩
  · exact ⟨toNat_mod x m, mod_run hm x, ⟨_, modAdd_eq x y hm, toNat_ofNat _⟩,
      modSubtract_int x y hm, _, modMultiply_eq x y hm, toNat_ofNat _⟩
  · exact ⟨_, fromBeBytes_eq bytes, toNat_ofNat _, toBeBytes_stripped (toNat_ofNat _)⟩
  · have hvalue : beValue x.toBeBytes = x.toNat := by rw [toBeBytes_eq, beValue_minBeBytes]
    exact ⟨hvalue, by rw [fromBeBytes_eq, hvalue, ofNat_toNat]⟩

end CryptoCore
