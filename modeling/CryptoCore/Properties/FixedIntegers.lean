import CryptoCore.Properties.RsaFixedBigInt

/-!
# The fixed-width integers as numbers

The whole interface of `RsaFixedBigInt` for every argument: what is accepted, what is refused, and
the one number that stands for the result. Sums and differences wrap at the width; the masks are all
ones or all zeros; a selection looks at the top bit of its mask only. The Montgomery operations
accept the reduced numbers of the width of an odd modulus above one, and nothing else.

An integer is its width and its number (`eq_iff_toNat_eq`), so that `Is w x v` determines `x`. The
construction shows that an operation succeeds with a certain number when its operands are good;
`eq_ok_iff_is` turns that into an equivalence. For the converse there is one lemma for the checks
that all operations share, `of_checks_eq_ok`: a result can only come from behind them.

The masks are computed without branches from the carries of a subtraction. `topBit_or_neg` is the
idiom behind them, that a word is zero exactly when neither it nor its negation has the top bit set.
-/

namespace CryptoCore

open ByteStrings

namespace RsaFixedBigInt

variable {a b m x : RsaFixedBigInt} {w : ℕ}

/-- The error of two integers with different widths, which every binary operation returns. -/
def widthError : Error :=
  fixedError "RSA fixed integer widths do not match"

lemma requireMatchingWidths_error (h : a.width ≠ b.width) :
    requireMatchingWidths a b = .error widthError := by
  rw [requireMatchingWidths, beq_false_of_ne h]
  rfl

/-- A computation of a number has no other result: width and number determine the integer. -/
lemma eq_ok_iff_is {result : Result RsaFixedBigInt} {v : ℕ}
    (h : Loops.Refines (Is w) result v) : result = .ok x ↔ Is w x v := by
  obtain ⟨y, hok, hy⟩ := h
  rw [hok, Except.ok.injEq]
  constructor
  · rintro rfl
    exact hy
  · intro hx
    exact ext_is hy hx

lemma is_toNat (x : RsaFixedBigInt) : Is x.width x x.toNat :=
  ⟨rfl, rfl⟩

lemma eq_iff_toNat_eq (h : a.width = b.width) : a = b ↔ a.toNat = b.toNat := by
  constructor
  · rintro rfl
    rfl
  · intro hvalue
    apply ext_is (is_toNat a)
    exact ⟨h.symm, hvalue.symm⟩

/-! ## Bytes -/

lemma two_pow_width (w : ℕ) : 2 ^ (32 * w) = 256 ^ (w * 4) := by
  rw [show (256 : ℕ) = 2 ^ 8 from rfl, ← pow_mul]
  congr 1
  ring

/-- Reading keeps a number exactly when it fits in the width. -/
lemma fromBeBytes_eq_ok_iff {bytes : List UInt8} :
    fromBeBytes bytes w = .ok x ↔ ValidWidth w ∧ Is w x (beValue bytes) := by
  by_cases hw : ValidWidth w
  · rw [and_iff_right hw]
    by_cases hfits : beValue bytes < 2 ^ (32 * w)
    · exact eq_ok_iff_is (fromBeBytes_spec hw hfits)
    · have hlong : (dropExcessZeros (w * 4) bytes).length > w * 4 := by
        by_contra hshort
        apply hfits
        rw [two_pow_width, ← beValue_dropExcessZeros (w * 4)]
        apply (beValue_lt _).trans_le
        exact Nat.pow_le_pow_right (by norm_num) (not_lt.mp hshort)
      rw [fromBeBytes, dif_pos hw]
      simp only [if_pos hlong]
      refine iff_of_false (by simp) ?_
      rintro ⟨hwidth, hvalue⟩
      apply hfits
      rw [← hvalue, ← hwidth]
      exact x.toNat_lt
  · rw [fromBeBytes, dif_neg hw]
    exact iff_of_false (by simp) fun h => hw h.1

lemma beValue_toBeBytes (x : RsaFixedBigInt) : beValue x.toBeBytes = x.toNat :=
  Limbs.beValue_storeBytes x.limbs

lemma length_toBeBytes (x : RsaFixedBigInt) : x.toBeBytes.length = 4 * x.width := by
  rw [toBeBytes_eq, length_beBytes]

lemma fromBeBytes_toBeBytes (x : RsaFixedBigInt) : fromBeBytes x.toBeBytes x.width = .ok x := by
  rw [fromBeBytes_eq_ok_iff, beValue_toBeBytes]
  exact ⟨x.valid_width, is_toNat x⟩

/-! ## Masks -/

/-- A word or its negation has the top bit unless the word is zero. -/
lemma topBit_or_neg (v : UInt32) :
    (((v ||| (0 - v)) >>> 31) ^^^ 1) &&& 1 = if v = 0 then 1 else 0 := by
  have hmask := wordNonZeroMask_eq v
  rw [wordNonZeroMask] at hmask
  have hbit : ((v ||| (0 - v)) >>> 31) = 0 ∨ ((v ||| (0 - v)) >>> 31) = 1 := by
    have hlt := Limbs.limb_lt (v ||| (0 - v))
    have hvalue : ((v ||| (0 - v)) >>> 31).toNat = (v ||| (0 - v)).toNat / 2 ^ 31 := by
      simp [Nat.shiftRight_eq_div_pow]
    rw [← UInt32.toNat_inj, ← UInt32.toNat_inj, hvalue, UInt32.toNat_zero, UInt32.toNat_one]
    omega
  by_cases hv : v = 0
  · rw [if_pos hv, hv]
    rfl
  · rw [if_pos hv] at hmask
    rw [if_neg hv]
    rcases hbit with hzero | hone
    · rw [hzero] at hmask
      cases hmask
    · rw [hone]
      rfl

lemma zipWith_xor_eq_zero_iff : ∀ {as bs : List UInt32}, as.length = bs.length →
    ((∀ l ∈ List.zipWith (· ^^^ ·) as bs, l = 0) ↔ as = bs) := by
  intro as
  induction as with
  | nil =>
      intro bs hlength
      rw [List.length_nil, eq_comm, List.length_eq_zero_iff] at hlength
      simp [hlength]
  | cons l as ih =>
      intro bs hlength
      cases bs with
      | nil => cases hlength
      | cons r bs =>
          rw [List.zipWith_cons_cons, List.forall_mem_cons, ih (Nat.succ.inj hlength),
            UInt32.xor_eq_zero_iff, List.cons.injEq]

lemma equalMask_eq (h : a.width = b.width) :
    equalMask a b = .ok (maskOfBit (decide (a.toNat = b.toNat))) := by
  have hequal : (List.zipWith (· ^^^ ·) a.limbs b.limbs).foldl (· ||| ·) 0 = 0 ↔
      a.toNat = b.toNat := by
    rw [foldl_or_eq_zero_iff, zipWith_xor_eq_zero_iff h, and_iff_right rfl,
      ← eq_iff_toNat_eq h]
    constructor
    · intro hlimbs
      exact ext_is (is_toNat a) ⟨h.symm, congrArg Limbs.value hlimbs.symm⟩
    · rintro rfl
      rfl
  rw [equalMask, requireMatchingWidths_ok h, ok_bind]
  simp only [topBit_or_neg, hequal]
  by_cases hvalue : a.toNat = b.toNat
  · simp only [hvalue, if_true, decide_true]
    rfl
  · simp only [hvalue, if_false, decide_false]
    rfl

lemma lessThanMask_eq (h : a.width = b.width) :
    lessThanMask a b = .ok (maskOfBit (decide (a.toNat < b.toNat))) := by
  rw [lessThanMask, requireMatchingWidths_ok h, ok_bind, lessThanMaskUnchecked_eq h]
  rfl

/-- The top bit of a byte is the whole mask. -/
lemma wordMaskFromByte_eq (mask : UInt8) :
    wordMaskFromByte mask = wordMaskFromByte (maskOfBit (decide (128 ≤ mask.toNat))) := by
  obtain ⟨bits⟩ := mask
  revert bits
  decide +kernel

lemma select_eq_ite (mask : UInt8) (h : a.width = b.width) :
    select mask a b = .ok (if 128 ≤ mask.toNat then a else b) := by
  rw [select, requireMatchingWidths_ok h, ok_bind, selectUnchecked.eq_def]
  simp only [wordMaskFromByte_eq mask]
  rw [← selectUnchecked.eq_def]
  have hvalue := toNat_selectUnchecked (decide (128 ≤ mask.toNat)) h
  have hwidth := width_selectUnchecked (maskOfBit (decide (128 ≤ mask.toNat))) a b
  refine congrArg Except.ok (ext_is ⟨hwidth, hvalue⟩ ?_)
  by_cases htop : 128 ≤ mask.toNat
  · simp only [htop, if_true, decide_true]
    exact is_toNat a
  · simp only [htop, if_false, decide_false, Bool.false_eq_true]
    exact ⟨h.symm, rfl⟩

/-! ## Sums and differences -/

lemma sum_step (l r : UInt32) {carry : UInt64} (hcarry : carry.toNat < 2) :
    (l.toUInt64 + r.toUInt64 + carry).toNat = l.toNat + r.toNat + carry.toNat ∧
      (l.toUInt64 + r.toUInt64 + carry).toNat / 2 ^ 32 < 2 := by
  have hl := Limbs.limb_lt l
  have hr := Limbs.limb_lt r
  have hvalue : (l.toUInt64 + r.toUInt64 + carry).toNat = l.toNat + r.toNat + carry.toNat := by
    rw [UInt64.toNat_add, UInt64.toNat_add, UInt32.toNat_toUInt64, UInt32.toNat_toUInt64]
    omega
  rw [hvalue]
  omega

/-- The carry out of the top limb is dropped. -/
lemma add_refines (h : a.width = b.width) :
    Loops.Refines (Is a.width) (add a b) ((a.toNat + b.toNat) % 2 ^ (32 * a.width)) := by
  obtain ⟨hvalue, -⟩ := Limbs.carryLoop_spec 2
    (fun i carry hcarry => sum_step (a.limbs.getD i 0) (b.limbs.getD i 0) hcarry) 0 a.width
    (c := 0) (by simp)
  rw [Limbs.weigh_add, Limbs.weigh_limbs (show a.limbs.length ≤ a.width from le_rfl),
    Limbs.weigh_limbs (show b.limbs.length ≤ a.width from h.ge), UInt64.toNat_zero,
    add_zero] at hvalue
  rw [add, requireMatchingWidths_ok h, ok_bind]
  refine Loops.Refines.ok ⟨by simp [width], ?_⟩
  have hlt := Limbs.value_lt (Limbs.carryLoop (fun i carry =>
    (a.limbs.getD i 0).toUInt64 + (b.limbs.getD i 0).toUInt64 + carry) 0 a.width 0).1
  rw [Limbs.length_carryLoop] at hlt
  change Limbs.value _ = (Limbs.value a.limbs + Limbs.value b.limbs) % _
  rw [← hvalue, Nat.add_mul_mod_self_left, Nat.mod_eq_of_lt hlt]

/-- The borrow out of the top limb is dropped. -/
lemma subtract_refines (h : a.width = b.width) :
    Loops.Refines (Is a.width) (subtract a b)
      ((a.toNat + (2 ^ (32 * a.width) - b.toNat)) % 2 ^ (32 * a.width)) := by
  have hb : b.toNat < 2 ^ (32 * a.width) := h ▸ b.toNat_lt
  have hwrap := Limbs.borrowLoop_wrap a.limbs b.limbs (n := a.width) le_rfl h.ge
  rw [subtract, requireMatchingWidths_ok h, ok_bind]
  refine Loops.Refines.ok ⟨by simp [subtractUnchecked, width], ?_⟩
  have hlt := (subtractUnchecked a b).toNat_lt
  rw [show (subtractUnchecked a b).width = a.width by simp [subtractUnchecked, width]] at hlt
  -- both sides differ from the first number by the second one
  change (subtractUnchecked a b).toNat = _
  rw [← Nat.mod_eq_of_lt hlt]
  apply Nat.ModEq.add_right_cancel' b.toNat
  rw [Nat.add_assoc, Nat.sub_add_cancel hb.le]
  exact hwrap.trans (Nat.add_mod_right _ _).symm

/-! ## Montgomery operands -/

lemma foldl_or_replicate_zero (n : ℕ) :
    (List.replicate n (0 : UInt32)).foldl (· ||| ·) 0 = 0 := by
  rw [foldl_or_eq_zero_iff]
  exact ⟨rfl, fun l hl => List.eq_of_mem_replicate hl⟩

/-- The check of the modulus asks for an odd number above one, and for nothing else. -/
lemma requireMontgomeryModulus_eq_ok_iff :
    requireMontgomeryModulus m = .ok () ↔ MontgomeryModulus m := by
  constructor
  · intro h
    obtain ⟨hodd, hbig⟩ := require_bind_eq_ok.mp h
    have hlow : m.limbs.getD 0 0 &&& 1 ≠ 0 := by
      rw [Bool.not_eq_true', Bool.or_eq_false_iff] at hodd
      exact ne_of_beq_false hodd.2
    rw [Ne, low_limb_and_one] at hlow
    refine ⟨by omega, ?_⟩
    by_contra hsmall
    have hone : m = oneOfWidth m.width m.valid_width := by
      apply ext_is (is_toNat m)
      exact ⟨width_oneOfWidth _ _, by rw [toNat_oneOfWidth]; omega⟩
    have hlimbs : m.limbs = 1 :: List.replicate (m.width - 1) 0 := congrArg limbs hone
    rw [require_eq_ok, Bool.not_eq_true', Bool.and_eq_false_iff, hlimbs] at hbig
    rcases hbig with hfirst | hrest
    · cases hfirst
    · rw [List.drop_one, List.tail_cons, foldl_or_replicate_zero] at hrest
      cases hrest
  · intro hm
    exact requireMontgomeryModulus_ok hm.odd hm.one_lt

/-- The numbers that the Montgomery operations take: of the width of the modulus, and below it. -/
structure Reduced (m a : RsaFixedBigInt) : Prop where
  width_eq : a.width = m.width
  lt : a.toNat < m.toNat

lemma requireReducedValue_eq_ok_iff : requireReducedValue a m = .ok () ↔ Reduced m a := by
  constructor
  · intro h
    by_cases hwidth : a.width = m.width
    · rw [requireReducedValue, requireMatchingWidths_ok hwidth, ok_bind, lessThanMask_eq hwidth,
        ok_bind, require_eq_ok, maskOfBit_eq_ff, decide_eq_true_iff] at h
      exact ⟨hwidth, h⟩
    · rw [requireReducedValue, requireMatchingWidths_error hwidth] at h
      cases h
  · intro h
    exact requireReducedValue_ok h.width_eq h.lt

/-- What stands behind the checks of a modulus and a number is reached for the reduced numbers of
a modulus only. -/
lemma of_checks_eq_ok {α : Type} {k : Unit → Result α} {y : α}
    (h : (do
      requireMatchingWidths a m
      requireMontgomeryModulus m
      requireReducedValue a m >>= k) = .ok y) :
    MontgomeryModulus m ∧ Reduced m a := by
  obtain ⟨_, -, h⟩ := Loops.bind_eq_ok.mp h
  obtain ⟨_, hm, h⟩ := Loops.bind_eq_ok.mp h
  obtain ⟨_, ha, -⟩ := Loops.bind_eq_ok.mp h
  exact ⟨requireMontgomeryModulus_eq_ok_iff.mp hm, requireReducedValue_eq_ok_iff.mp ha⟩

lemma of_modulus_eq_ok {α : Type} {k : Unit → Result α} {y : α}
    (h : (requireMontgomeryModulus m >>= k) = .ok y) : MontgomeryModulus m := by
  obtain ⟨_, hm, -⟩ := Loops.bind_eq_ok.mp h
  exact requireMontgomeryModulus_eq_ok_iff.mp hm

/-! ## Montgomery operations -/

/-- The quotient of a number by `2^(32 * width)` modulo the modulus. -/
lemma eq_iff_reduced_modEq (hm : MontgomeryModulus m) {y : RsaFixedBigInt} {product : ℕ}
    (hy : Reduced m y) (hproduct : 2 ^ (32 * m.width) * y.toNat ≡ product [MOD m.toNat]) :
    y = x ↔ Reduced m x ∧ 2 ^ (32 * m.width) * x.toNat ≡ product [MOD m.toNat] := by
  constructor
  · rintro rfl
    exact ⟨hy, hproduct⟩
  · rintro ⟨hx, hmod⟩
    have hcancel : y.toNat ≡ x.toNat [MOD m.toNat] :=
      Nat.ModEq.cancel_left_of_coprime (hm.coprime _) (hproduct.trans hmod.symm)
    apply ext_is ⟨hy.width_eq, rfl⟩
    refine ⟨hx.width_eq, ?_⟩
    rwa [Nat.ModEq, Nat.mod_eq_of_lt hy.lt, Nat.mod_eq_of_lt hx.lt, eq_comm] at hcancel

lemma montgomeryMultiply_eq_ok_iff :
    montgomeryMultiply a b m = .ok x ↔ MontgomeryModulus m ∧ Reduced m a ∧ Reduced m b ∧
      Reduced m x ∧ 2 ^ (32 * m.width) * x.toNat ≡ a.toNat * b.toNat [MOD m.toNat] := by
  have hproduct : MontgomeryModulus m → Reduced m a → Reduced m b →
      (montgomeryMultiply a b m = .ok x ↔ Reduced m x ∧
        2 ^ (32 * m.width) * x.toNat ≡ a.toNat * b.toNat [MOD m.toNat]) := by
    intro hm ha hb
    obtain ⟨y, hok, hwidth, hlt, hmod⟩ :=
      montgomeryMultiply_spec hm ha.width_eq hb.width_eq ha.lt hb.lt
    rw [hok, Except.ok.injEq]
    exact eq_iff_reduced_modEq hm ⟨hwidth, hlt⟩ hmod
  constructor
  · intro h
    obtain ⟨hm, ha, hb⟩ : MontgomeryModulus m ∧ Reduced m a ∧ Reduced m b := by
      obtain ⟨_, -, hrest⟩ := Loops.bind_eq_ok.mp h
      obtain ⟨_, -, hrest⟩ := Loops.bind_eq_ok.mp hrest
      obtain ⟨_, hm, hrest⟩ := Loops.bind_eq_ok.mp hrest
      obtain ⟨_, ha, hrest⟩ := Loops.bind_eq_ok.mp hrest
      obtain ⟨_, hb, -⟩ := Loops.bind_eq_ok.mp hrest
      rw [requireMontgomeryModulus_eq_ok_iff] at hm
      rw [requireReducedValue_eq_ok_iff] at ha hb
      exact ⟨hm, ha, hb⟩
    exact ⟨hm, ha, hb, (hproduct hm ha hb).mp h⟩
  · rintro ⟨hm, ha, hb, hx⟩
    exact (hproduct hm ha hb).mpr hx

lemma toMontgomery_eq_ok_iff :
    toMontgomery a m = .ok x ↔ MontgomeryModulus m ∧ Reduced m a ∧
      Is m.width x (2 ^ (32 * m.width) * a.toNat % m.toNat) := by
  constructor
  · intro h
    obtain ⟨hm, ha⟩ : MontgomeryModulus m ∧ Reduced m a := by
      rw [toMontgomery] at h
      exact of_checks_eq_ok h
    refine ⟨hm, ha, ?_⟩
    exact (eq_ok_iff_is (toMontgomery_spec hm ⟨ha.width_eq, rfl⟩ ha.lt)).mp h
  · rintro ⟨hm, ha, hx⟩
    exact (eq_ok_iff_is (toMontgomery_spec hm ⟨ha.width_eq, rfl⟩ ha.lt)).mpr hx

lemma fromMontgomery_eq_ok_iff :
    fromMontgomery a m = .ok x ↔ MontgomeryModulus m ∧ Reduced m a ∧ Reduced m x ∧
      2 ^ (32 * m.width) * x.toNat ≡ a.toNat [MOD m.toNat] := by
  by_cases hwidth : a.width = m.width
  · rw [fromMontgomery, requireMatchingWidths_ok hwidth, ok_bind, montgomeryMultiply_eq_ok_iff,
      toNat_oneOfWidth, mul_one]
    -- one is reduced modulo every modulus of the checks
    apply and_congr_right
    intro hm
    apply and_congr_right
    intro _
    apply and_iff_right
    refine ⟨by rw [width_oneOfWidth, hwidth], ?_⟩
    rw [toNat_oneOfWidth]
    exact hm.one_lt
  · rw [fromMontgomery, requireMatchingWidths_error hwidth]
    exact iff_of_false (by simp) fun h => hwidth h.2.1.width_eq

lemma montgomeryModExpSecret_eq_ok_iff {exponent : List UInt8} {bits : ℕ} :
    montgomeryModExpSecret a exponent m bits = .ok x ↔ MontgomeryModulus m ∧ Reduced m a ∧
      Is m.width x (a.toNat ^ (beValue exponent % 2 ^ bits) % m.toNat) := by
  constructor
  · intro h
    obtain ⟨hm, ha⟩ : MontgomeryModulus m ∧ Reduced m a := by
      rw [montgomeryModExpSecret] at h
      exact of_checks_eq_ok h
    refine ⟨hm, ha, ?_⟩
    exact (eq_ok_iff_is (montgomeryModExpSecret_spec hm ⟨ha.width_eq, rfl⟩ ha.lt _ _)).mp h
  · rintro ⟨hm, ha, hx⟩
    exact (eq_ok_iff_is (montgomeryModExpSecret_spec hm ⟨ha.width_eq, rfl⟩ ha.lt _ _)).mpr hx

lemma fromBeBytesMod_eq_ok_iff {bytes : List UInt8} :
    fromBeBytesMod bytes m = .ok x ↔
      MontgomeryModulus m ∧ Is m.width x (beValue bytes % m.toNat) := by
  constructor
  · intro h
    have hm := of_modulus_eq_ok h
    exact ⟨hm, (eq_ok_iff_is (fromBeBytesMod_spec hm bytes)).mp h⟩
  · rintro ⟨hm, hx⟩
    exact (eq_ok_iff_is (fromBeBytesMod_spec hm bytes)).mpr hx

lemma montgomeryRSquared_eq_ok_iff :
    montgomeryRSquared m = .ok x ↔
      MontgomeryModulus m ∧ Is m.width x (2 ^ (64 * m.width) % m.toNat) := by
  constructor
  · intro h
    have hm := of_modulus_eq_ok h
    exact ⟨hm, (eq_ok_iff_is (montgomeryRSquared_spec hm)).mp h⟩
  · rintro ⟨hm, hx⟩
    exact (eq_ok_iff_is (montgomeryRSquared_spec hm)).mpr hx

lemma montgomeryN0Inverse_eq_ok_iff {inverse : UInt32} :
    montgomeryN0Inverse m = .ok inverse ↔
      MontgomeryModulus m ∧ m.limbs.getD 0 0 * inverse = -1 := by
  constructor
  · intro h
    have hm := of_modulus_eq_ok h
    rw [montgomeryN0Inverse_eq hm, Except.ok.injEq] at h
    exact ⟨hm, h ▸ Limbs.lowInverse_spec hm.low_limb⟩
  · rintro ⟨hm, hinverse⟩
    rw [montgomeryN0Inverse_eq hm, Except.ok.injEq]
    -- the low limb is invertible, so it takes one number to `-1`
    have hspec := Limbs.lowInverse_spec hm.low_limb
    calc Limbs.lowInverse (m.limbs.getD 0 0)
        = -(Limbs.lowInverse (m.limbs.getD 0 0) * (m.limbs.getD 0 0 * inverse)) := by
          rw [hinverse, UInt32.mul_neg, UInt32.mul_one, UInt32.neg_neg]
      _ = -(m.limbs.getD 0 0 * Limbs.lowInverse (m.limbs.getD 0 0) * inverse) := by
          rw [← UInt32.mul_assoc, UInt32.mul_comm (Limbs.lowInverse _)]
      _ = inverse := by
          rw [hspec, UInt32.neg_mul, UInt32.one_mul, UInt32.neg_neg]

end RsaFixedBigInt

open RsaFixedBigInt

/-- Bytes are read into a width exactly when their number fits in it, and written bytes are read
back. Operations on two widths are refused. On one width, the masks tell equality and order, a
selection follows the top bit of its mask, and sums and differences are those modulo
`2^(32 * width)`. -/
theorem fixedIntegers_exact :
    (∀ (bytes : List UInt8) (width : ℕ) (x : RsaFixedBigInt),
      fromBeBytes bytes width = .ok x ↔ ValidWidth width ∧ Is width x (beValue bytes)) ∧
    (∀ x : RsaFixedBigInt, beValue x.toBeBytes = x.toNat ∧
      x.toBeBytes.length = 4 * x.width ∧ fromBeBytes x.toBeBytes x.width = .ok x) ∧
    (∀ a b : RsaFixedBigInt, a.width ≠ b.width →
      equalMask a b = .error widthError ∧ lessThanMask a b = .error widthError ∧
      add a b = .error widthError ∧ subtract a b = .error widthError ∧
      ∀ mask, select mask a b = .error widthError) ∧
    (∀ a b : RsaFixedBigInt, a.width = b.width →
      equalMask a b = .ok (maskOfBit (decide (a.toNat = b.toNat))) ∧
      lessThanMask a b = .ok (maskOfBit (decide (a.toNat < b.toNat))) ∧
      (∀ mask, select mask a b = .ok (if 128 ≤ mask.toNat then a else b)) ∧
      (∀ x, add a b = .ok x ↔ Is a.width x ((a.toNat + b.toNat) % 2 ^ (32 * a.width))) ∧
      ∀ x, subtract a b = .ok x ↔
        Is a.width x ((a.toNat + (2 ^ (32 * a.width) - b.toNat)) % 2 ^ (32 * a.width))) := by
  refine ⟨fun _ _ _ => fromBeBytes_eq_ok_iff, fun x => ?_, fun a b h => ?_, fun a b h => ?_⟩
  · exact ⟨beValue_toBeBytes x, length_toBeBytes x, fromBeBytes_toBeBytes x⟩
  · have hwidths := requireMatchingWidths_error h
    refine ⟨?_, ?_, ?_, ?_, fun mask => ?_⟩
    · rw [equalMask, hwidths, error_bind]
    · rw [lessThanMask, hwidths, error_bind]
    · rw [add, hwidths, error_bind]
    · rw [subtract, hwidths, error_bind]
    · rw [select, hwidths, error_bind]
  · exact ⟨equalMask_eq h, lessThanMask_eq h, fun mask => select_eq_ite mask h,
      fun x => eq_ok_iff_is (add_refines h), fun x => eq_ok_iff_is (subtract_refines h)⟩

/-- For every modulus, the Montgomery operations succeed exactly when the modulus is odd and above
one and their numbers are reduced, and the result is then the one reduced number that the
operation stands for. -/
theorem montgomery_accepts (m : RsaFixedBigInt) :
    (∀ inverse, montgomeryN0Inverse m = .ok inverse ↔
      MontgomeryModulus m ∧ m.limbs.getD 0 0 * inverse = -1) ∧
    (∀ x, montgomeryRSquared m = .ok x ↔
      MontgomeryModulus m ∧ Is m.width x (2 ^ (64 * m.width) % m.toNat)) ∧
    (∀ bytes x, fromBeBytesMod bytes m = .ok x ↔
      MontgomeryModulus m ∧ Is m.width x (beValue bytes % m.toNat)) ∧
    (∀ a b x, montgomeryMultiply a b m = .ok x ↔
      MontgomeryModulus m ∧ Reduced m a ∧ Reduced m b ∧ Reduced m x ∧
        2 ^ (32 * m.width) * x.toNat ≡ a.toNat * b.toNat [MOD m.toNat]) ∧
    (∀ a x, toMontgomery a m = .ok x ↔
      MontgomeryModulus m ∧ Reduced m a ∧
        Is m.width x (2 ^ (32 * m.width) * a.toNat % m.toNat)) ∧
    (∀ a x, fromMontgomery a m = .ok x ↔
      MontgomeryModulus m ∧ Reduced m a ∧ Reduced m x ∧
        2 ^ (32 * m.width) * x.toNat ≡ a.toNat [MOD m.toNat]) ∧
    ∀ base exponent bits x, montgomeryModExpSecret base exponent m bits = .ok x ↔
      MontgomeryModulus m ∧ Reduced m base ∧
        Is m.width x (base.toNat ^ (beValue exponent % 2 ^ bits) % m.toNat) :=
  ⟨fun _ => montgomeryN0Inverse_eq_ok_iff, fun _ => montgomeryRSquared_eq_ok_iff,
    fun _ _ => fromBeBytesMod_eq_ok_iff, fun _ _ _ => montgomeryMultiply_eq_ok_iff,
    fun _ _ => toMontgomery_eq_ok_iff, fun _ _ => fromMontgomery_eq_ok_iff,
    fun _ _ _ _ => montgomeryModExpSecret_eq_ok_iff⟩

end CryptoCore
