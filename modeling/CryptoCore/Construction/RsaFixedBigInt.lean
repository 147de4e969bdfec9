import CryptoCore.Construction.BigInt

/-!
# The fixed-width integers of the private RSA operations

`RsaFixedBigInt` is a limb vector of a fixed width between one and 64 limbs; the bound is a field of
the structure, so that every buffer of the source is large enough by construction. The arithmetic
selects by masks instead of branching on values, and the Montgomery exponentiation is the ladder
that the CRT operations of `Construction/Rsa.lean` run on.

The first half is the code. Every public operation begins with checks (equal widths, an odd modulus
above one, reduced operands) that fail with one error domain; the bodies behind the checks are
definitions of their own, as in the source, where private helpers call them directly.

The second half says what the operations compute: `Is width x n` is "`x` has this width and stands
for `n`", and the lemmas are statements about `Is` and `Loops.Refines`. The single reduction
(`subtractModulusIfNeeded_spec`) is the fact that everything rests on: a number below twice the
modulus, with whatever does not fit in the width kept in a separate limb, is reduced by one masked
subtraction. `montgomeryMultiply_spec` and the ladder `montgomeryModExpSecret_spec` are built from
it. `Properties/RsaFixedBigInt.lean` and `Properties/FixedIntegers.lean` add the failing cases.
-/

namespace CryptoCore

open ByteStrings

namespace RsaFixedBigInt

/-- The widest integer has 64 limbs, which is 2048 bits: the largest prime factor that is handled.
-/
def kMaxLimbs : ℕ := 64

/-- The widths that the constructors accept; zero limbs are refused as well. -/
def ValidWidth (width : ℕ) : Prop :=
  0 < width ∧ width ≤ kMaxLimbs

instance (width : ℕ) : Decidable (ValidWidth width) :=
  inferInstanceAs (Decidable (_ ∧ _))

end RsaFixedBigInt

open RsaFixedBigInt in
/-- A limb vector with a valid width. Numbers are not normalised: the width is public and the same
for all the values of a computation. -/
structure RsaFixedBigInt where
  limbs : List UInt32
  valid : ValidWidth limbs.length

namespace RsaFixedBigInt

/-- Every refusal of this module is an invalid argument with the text of the check that made it. -/
def fixedError (message : String) : Error :=
  makeError .invalidArgument "rsa_fixed_bigint" message

/-! ## Words and masks -/

/-- A word mask as a byte mask. Only the top bit is read, so that the argument should be all ones or
all zeros. -/
def byteMaskFromWord (mask : UInt32) : UInt8 :=
  (0 : UInt8) - ((mask >>> 31) &&& 1).toUInt8

/-- All ones for a word that is not zero, without a branch on it. -/
def wordNonZeroMask (value : UInt32) : UInt32 :=
  let nonZero := value ||| (0 - value)
  (0 : UInt32) - ((nonZero >>> 31) &&& 1)

/-! ## Conversions -/

def width (x : RsaFixedBigInt) : ℕ :=
  x.limbs.length

lemma valid_width (x : RsaFixedBigInt) : ValidWidth x.width :=
  x.valid

/-- The zero of a valid width, of which every other number is made by writing limbs. -/
def ofWidth (width : ℕ) (valid : ValidWidth width) : RsaFixedBigInt :=
  ⟨List.replicate width 0, by simpa using valid⟩

/-- The one of a valid width, which has a lowest limb since a width is positive. -/
def oneOfWidth (width : ℕ) (valid : ValidWidth width) : RsaFixedBigInt :=
  ⟨1 :: List.replicate (width - 1) 0, by
    have := valid.1
    rw [List.length_cons, List.length_replicate, Nat.sub_add_cancel this]
    exact valid⟩

def zero (width : ℕ) : Result RsaFixedBigInt :=
  if h : ValidWidth width then .ok (ofWidth width h)
  else .error (fixedError "RSA fixed integer width is invalid")

/-- The loop that drops leading zeros as long as the input is wider than `byteWidth`. It stops at
the first byte that is not zero, and the length check after it refuses what remains too long. -/
def dropExcessZeros (byteWidth : ℕ) : List UInt8 → List UInt8
  | [] => []
  | b :: bs =>
      if (b :: bs).length > byteWidth ∧ b = 0 then dropExcessZeros byteWidth bs else b :: bs

/-- Bytes as an integer of a given width. Leading zeros beyond the width are accepted. -/
def fromBeBytes (bytes : List UInt8) (width : ℕ) : Result RsaFixedBigInt :=
  if h : ValidWidth width then
    let bytes := dropExcessZeros (width * 4) bytes
    if bytes.length > width * 4 then .error (fixedError "RSA fixed integer input exceeds width")
    else .ok ⟨Limbs.loadLimbs width bytes.reverse, by simpa using h⟩
  else .error (fixedError "RSA fixed integer width is invalid")

/-- All the bytes of the width, leading zeros included, so that the length tells nothing of the
number. -/
def toBeBytes (x : RsaFixedBigInt) : ByteBuffer :=
  Limbs.storeBytes x.limbs

/-- Whether all limbs vanish, by a disjunction over all of them. -/
def isZero (x : RsaFixedBigInt) : Bool :=
  x.limbs.foldl (· ||| ·) 0 == 0

/-! ## Checks -/

/-- The check at the head of every binary operation: numbers of two widths are not combined. -/
def requireMatchingWidths (lhs rhs : RsaFixedBigInt) : Result Unit :=
  require (lhs.width == rhs.width) (fixedError "RSA fixed integer widths do not match")

/-- The moduli that Montgomery arithmetic works with: odd, and neither zero nor one. -/
def requireMontgomeryModulus (modulus : RsaFixedBigInt) : Result Unit := do
  require (!(modulus.isZero || modulus.limbs.getD 0 0 &&& 1 == 0))
    (fixedError "RSA fixed Montgomery modulus must be non-zero and odd")
  let remaining := (modulus.limbs.drop 1).foldl (· ||| ·) 0
  require (!(modulus.limbs.getD 0 0 == 1 && remaining == 0))
    (fixedError "RSA fixed Montgomery modulus must be greater than one")

/-! ## Masked operations

The unchecked operations below are the bodies behind the width check; the private helpers call
them on operands whose widths agree. -/

/-- The mask of a comparison, scanned from the top without leaving the loop early. -/
def lessThanMaskUnchecked (lhs rhs : RsaFixedBigInt) : UInt8 :=
  byteMaskFromWord (Limbs.compareMasks lhs.limbs.reverse rhs.limbs.reverse (0, 0)).1

def lessThanMask (lhs rhs : RsaFixedBigInt) : Result UInt8 := do
  requireMatchingWidths lhs rhs
  return lessThanMaskUnchecked lhs rhs

/-- The mask of equality; the differences of all limbs are collected before the test. -/
def equalMask (lhs rhs : RsaFixedBigInt) : Result UInt8 := do
  requireMatchingWidths lhs rhs
  let diff := (List.zipWith (· ^^^ ·) lhs.limbs rhs.limbs).foldl (· ||| ·) 0
  let nonZero := diff ||| (0 - diff)
  let isZero := ((nonZero >>> 31) ^^^ 1) &&& 1
  return (0 : UInt8) - isZero.toUInt8

def selectUnchecked (mask : UInt8) (ifSet ifClear : RsaFixedBigInt) : RsaFixedBigInt :=
  ⟨Limbs.select (wordMaskFromByte mask) (ifSet.limbs.getD · 0) (ifClear.limbs.getD · 0)
    ifSet.width, by simpa using ifSet.valid_width⟩

def select (mask : UInt8) (ifSet ifClear : RsaFixedBigInt) : Result RsaFixedBigInt := do
  requireMatchingWidths ifSet ifClear
  return selectUnchecked mask ifSet ifClear

/-- The sum modulo `2 ^ (32 * width)`. The last carry is dropped. -/
def add (lhs rhs : RsaFixedBigInt) : Result RsaFixedBigInt := do
  requireMatchingWidths lhs rhs
  return ⟨(Limbs.carryLoop
    (fun i carry => (lhs.limbs.getD i 0).toUInt64 + (rhs.limbs.getD i 0).toUInt64 + carry)
    0 lhs.width 0).1, by simpa using lhs.valid_width⟩

/-- The difference modulo `2 ^ (32 * width)`, by the loop that wraps at a borrow. -/
def subtractUnchecked (lhs rhs : RsaFixedBigInt) : RsaFixedBigInt :=
  ⟨(Limbs.borrowLoop Limbs.digitWrap (lhs.limbs.getD · 0) (rhs.limbs.getD · 0) 0 lhs.width 0).1,
    by simpa using lhs.valid_width⟩

def subtract (lhs rhs : RsaFixedBigInt) : Result RsaFixedBigInt := do
  requireMatchingWidths lhs rhs
  return subtractUnchecked lhs rhs

/-- The check that an operand is below the modulus, by the mask of the comparison. -/
def requireReducedValue (value modulus : RsaFixedBigInt) : Result Unit := do
  requireMatchingWidths value modulus
  let less ← lessThanMask value modulus
  require (less == 0xFF) (fixedError "RSA fixed Montgomery value must be reduced modulo modulus")

/-- One conditional subtraction. It is made when a limb above the width is set or the value is not
below the modulus; both differences are computed and the mask selects. -/
def subtractModulusIfNeeded (value modulus : RsaFixedBigInt) (highLimb : UInt32) :
    RsaFixedBigInt :=
  let difference := subtractUnchecked value modulus
  let less := lessThanMaskUnchecked value modulus
  let highMask := byteMaskFromWord (wordNonZeroMask highLimb)
  let subtractMask := highMask ||| ~~~less
  selectUnchecked subtractMask difference value

/-- The successor modulo the modulus, from a carry that starts at one. -/
def addOneMod (value modulus : RsaFixedBigInt) : RsaFixedBigInt :=
  let output := Limbs.carryLoop (fun i carry => (value.limbs.getD i 0).toUInt64 + carry)
    0 value.width 1
  subtractModulusIfNeeded ⟨output.1, by simpa [output] using value.valid_width⟩ modulus
    output.2.toUInt32

/-- The double modulo the modulus, from a shift through the limbs. -/
def doubleMod (value modulus : RsaFixedBigInt) : RsaFixedBigInt :=
  let doubled := Limbs.carryLoop (fun i carry => ((value.limbs.getD i 0).toUInt64 <<< 1) + carry)
    0 value.width 0
  subtractModulusIfNeeded ⟨doubled.1, by simpa [doubled] using value.valid_width⟩ modulus
    doubled.2.toUInt32

/-- The remainder of a byte string of any length: for each bit a doubling, and an increment that the
mask of the bit keeps or drops. -/
def fromBeBytesMod (bytes : List UInt8) (modulus : RsaFixedBigInt) : Result RsaFixedBigInt := do
  requireMontgomeryModulus modulus
  bytes.foldlM (fun output byte =>
    Loops.loopDownM (fun bit output =>
      let output := doubleMod output modulus
      let incremented := addOneMod output modulus
      let mask := (0 : UInt8) - ((byte >>> UInt8.ofNat bit) &&& 1)
      select mask incremented output) 8 output)
    (ofWidth modulus.width modulus.valid_width)

/-! ## Montgomery arithmetic -/

/-- The negated inverse of the low limb modulo `2 ^ 32`, by the iteration in `Limbs.lowInverse`. -/
def montgomeryN0Inverse (modulus : RsaFixedBigInt) : Result UInt32 := do
  requireMontgomeryModulus modulus
  return Limbs.lowInverse (modulus.limbs.getD 0 0)

/-- The square of `2 ^ (32 * width)` modulo the modulus, by doubling one again and again. -/
def montgomeryRSquared (modulus : RsaFixedBigInt) : Result RsaFixedBigInt := do
  requireMontgomeryModulus modulus
  let result := oneOfWidth modulus.width modulus.valid_width
  requireReducedValue result modulus
  let bitWidth := modulus.width * 32
  return Loops.loopUp (fun _ result => doubleMod result modulus) (bitWidth * 2) result

/-- The Montgomery product. The accumulator has the fixed size of the source, whatever the width,
and the result is read out of its upper half; the two limbs above it decide the last subtraction. -/
def montgomeryMultiply (lhs rhs modulus : RsaFixedBigInt) : Result RsaFixedBigInt := do
  requireMatchingWidths lhs rhs
  requireMatchingWidths lhs modulus
  requireMontgomeryModulus modulus
  requireReducedValue lhs modulus
  requireReducedValue rhs modulus
  let inverse ← montgomeryN0Inverse modulus
  let width := modulus.width
  let accumulator :=
    Limbs.montgomeryAccumulate lhs.limbs rhs.limbs modulus.limbs inverse (2 * kMaxLimbs + 2)
  let reduced := (List.range width).map fun i => accumulator.getD (width + i) 0
  -- What the accumulator holds above the result forces the last subtraction.
  let highLimb := accumulator.getD (2 * width) 0 ||| accumulator.getD (2 * width + 1) 0
  return subtractModulusIfNeeded ⟨reduced, by simpa [reduced, width] using modulus.valid_width⟩
    modulus
    highLimb

/-- Into the scaled representation, by as many doublings as the width has bits. -/
def toMontgomery (value modulus : RsaFixedBigInt) : Result RsaFixedBigInt := do
  requireMatchingWidths value modulus
  requireMontgomeryModulus modulus
  requireReducedValue value modulus
  let bitWidth := value.width * 32
  return Loops.loopUp (fun _ output => doubleMod output modulus) bitWidth value

/-- Out of the Montgomery representation, by a product with one. -/
def fromMontgomery (value modulus : RsaFixedBigInt) : Result RsaFixedBigInt := do
  requireMatchingWidths value modulus
  montgomeryMultiply value (oneOfWidth value.width value.valid_width) modulus

/-- A bit of a big-endian exponent. Bits past its length are zero, so that a number of rounds larger
than the exponent is harmless. -/
def exponentBit (exponent : List UInt8) (bitIndex : ℕ) : Bool :=
  let byteFromEnd := bitIndex / 8
  if byteFromEnd ≥ exponent.length then false
  else
    let byte := exponent.getD (exponent.length - byteFromEnd - 1) 0
    (byte >>> UInt8.ofNat (bitIndex % 8)) &&& 1 != 0

/-- The ladder: in every round one product and two squares, of which masks select the new registers.
The number of rounds is an argument and does not depend on the exponent. -/
def montgomeryModExpSecret (base : RsaFixedBigInt) (exponent : List UInt8)
    (modulus : RsaFixedBigInt) (exponentBits : ℕ) : Result RsaFixedBigInt := do
  requireMatchingWidths base modulus
  requireMontgomeryModulus modulus
  requireReducedValue base modulus
  let r0 ← toMontgomery (oneOfWidth base.width base.valid_width) modulus
  let r1 ← toMontgomery base modulus
  let registers ← Loops.loopDownM (fun i (registers : RsaFixedBigInt × RsaFixedBigInt) => do
      let product ← montgomeryMultiply registers.1 registers.2 modulus
      let r0Squared ← montgomeryMultiply registers.1 registers.1 modulus
      let r1Squared ← montgomeryMultiply registers.2 registers.2 modulus
      -- All three products are computed in every round, and the bit only selects.
      let mask := maskOfBit (exponentBit exponent i)
      let selectedR0 ← select mask product r0Squared
      let selectedR1 ← select mask r1Squared product
      return (selectedR0, selectedR1))
    exponentBits (r0, r1)
  fromMontgomery registers.1 modulus

/-! ## What the operations compute -/

/-- The value of the limbs, below a power of two that the width decides. -/
def toNat (x : RsaFixedBigInt) : ℕ :=
  Limbs.value x.limbs

/-- `x` has this width and stands for `n`. Every specification below is about this relation, since
two integers with the same value may differ in width. -/
def Is (width : ℕ) (x : RsaFixedBigInt) (n : ℕ) : Prop :=
  x.width = width ∧ x.toNat = n

lemma toNat_lt (x : RsaFixedBigInt) : x.toNat < 2 ^ (32 * x.width) :=
  Limbs.value_lt x.limbs

@[simp] lemma toNat_ofWidth (w : ℕ) (h : ValidWidth w) : (ofWidth w h).toNat = 0 := by
  simp [toNat, ofWidth]

@[simp] lemma toNat_oneOfWidth (w : ℕ) (h : ValidWidth w) : (oneOfWidth w h).toNat = 1 := by
  simp [toNat, oneOfWidth]

@[simp] lemma width_ofWidth (w : ℕ) (h : ValidWidth w) : (ofWidth w h).width = w := by
  simp [width, ofWidth]

@[simp] lemma width_oneOfWidth (w : ℕ) (h : ValidWidth w) : (oneOfWidth w h).width = w := by
  have := h.1
  simp [width, oneOfWidth]
  omega

/-! ### Words -/

lemma byteMaskFromWord_ite (c : Prop) [Decidable c] :
    byteMaskFromWord (if c then 0xFFFFFFFF else 0) = maskOfBit (decide c) := by
  by_cases h : c
  · simp only [h, if_true, decide_true]
    rfl
  · simp only [h, if_false, decide_false]
    rfl

/-- A non-zero word or its negation has the top bit, which is all that the mask reads. -/
lemma wordNonZeroMask_eq (v : UInt32) :
    wordNonZeroMask v = if v ≠ 0 then 0xFFFFFFFF else 0 := by
  by_cases h : v = 0
  · subst h
    rfl
  · have hv := Limbs.limb_lt v
    have hpos : 0 < v.toNat := Nat.pos_of_ne_zero fun h0 => h (UInt32.toNat_inj.mp h0)
    have hneg : (0 - v).toNat = 2 ^ 32 - v.toNat := by
      rw [UInt32.toNat_sub, UInt32.toNat_zero]
      omega
    -- A word or its negative has the top bit, unless the word is zero.
    have htop : (v ||| (0 - v)).toNat.testBit 31 = true := by
      rw [UInt32.toNat_or, Nat.testBit_or, hneg, Bool.or_eq_true]
      rcases le_or_gt (2 ^ 31) v.toNat with hle | hgt
      · left
        rw [Nat.testBit_eq_decide_div_mod_eq, decide_eq_true_iff]
        omega
      · right
        rw [Nat.testBit_eq_decide_div_mod_eq, decide_eq_true_iff]
        omega
    rw [← Limbs.limb_bit _ (by norm_num)] at htop
    have hone : (((v ||| (0 - v)) >>> 31) &&& 1) = 1 := by
      apply UInt32.toNat_inj.mp
      have hne : (((v ||| (0 - v)) >>> 31) &&& 1).toNat ≠ 0 := fun h0 => by
        have := UInt32.toNat_inj.mp (h0.trans UInt32.toNat_zero.symm)
        rw [show UInt32.ofNat 31 = 31 from rfl, this] at htop
        exact absurd htop (by decide)
      have hlt : (((v ||| (0 - v)) >>> 31) &&& 1).toNat < 2 := by
        rw [UInt32.toNat_and, UInt32.toNat_one]
        exact Nat.lt_succ_of_le (Nat.and_le_right)
      rw [UInt32.toNat_one]
      omega
    rw [wordNonZeroMask, if_pos h]
    simp only [hone]
    rfl

lemma or_maskOfBit (a b : Bool) : maskOfBit a ||| ~~~(maskOfBit b) = maskOfBit (a || !b) := by
  cases a <;> cases b <;> rfl

lemma maskOfBit_eq_ff (b : Bool) : (maskOfBit b == 0xFF) = b := by
  cases b <;> rfl

/-- The mask of the comparison is that of the values, for operands of one width. -/
lemma lessThanMaskUnchecked_eq {x y : RsaFixedBigInt} (h : x.width = y.width) :
    lessThanMaskUnchecked x y = maskOfBit (decide (x.toNat < y.toNat)) := by
  rw [lessThanMaskUnchecked, Limbs.compareMasks_reverse x.limbs y.limbs h,
    byteMaskFromWord_ite]
  rfl

lemma toNat_selectUnchecked (b : Bool) {x y : RsaFixedBigInt} (h : x.width = y.width) :
    (selectUnchecked (maskOfBit b) x y).toNat = if b then x.toNat else y.toNat := by
  have hselect := Limbs.value_select b x.limbs y.limbs (n := x.width)
    (show x.limbs.length ≤ x.width from le_rfl) (show y.limbs.length ≤ x.width from h.ge)
  rw [← wordMaskFromByte_maskOfBit] at hselect
  exact hselect

@[simp] lemma width_selectUnchecked (mask : UInt8) (x y : RsaFixedBigInt) :
    (selectUnchecked mask x y).width = x.width := by
  simp [selectUnchecked, width]

/-- A masked selection between two integers of one width is a conditional on their values. -/
lemma select_eq (b : Bool) {x y : RsaFixedBigInt} {w u v : ℕ} (hx : Is w x u) (hy : Is w y v) :
    ∃ z, select (maskOfBit b) x y = .ok z ∧ Is w z (if b then u else v) := by
  have hw : x.width = y.width := hx.1.trans hy.1.symm
  refine ⟨selectUnchecked (maskOfBit b) x y, ?_, ?_, ?_⟩
  · simp [select, requireMatchingWidths, hw]
  · rw [width_selectUnchecked, hx.1]
  · rw [toNat_selectUnchecked b hw, hx.2, hy.2]

/-! ### Single reductions -/

/-- One conditional subtraction reduces a number below twice the modulus; `high` is what does not
fit in the width. The two cases in which it subtracts are the two ways of not being below the
modulus. -/
lemma subtractModulusIfNeeded_spec (x m : RsaFixedBigInt) (highLimb : UInt32) (high : ℕ)
    (hw : x.width = m.width) (hhigh : highLimb ≠ 0 ↔ high ≠ 0)
    (hlt : x.toNat + 2 ^ (32 * m.width) * high < 2 * m.toNat) :
    Is m.width (subtractModulusIfNeeded x m highLimb)
      ((x.toNat + 2 ^ (32 * m.width) * high) % m.toNat) := by
  have hmlt := m.toNat_lt
  have hxlt := x.toNat_lt
  have hmask : byteMaskFromWord (wordNonZeroMask highLimb) = maskOfBit (decide (highLimb ≠ 0)) := by
    rw [wordNonZeroMask_eq, byteMaskFromWord_ite]
  have hdef : subtractModulusIfNeeded x m highLimb =
      selectUnchecked (maskOfBit (decide (highLimb ≠ 0) || !decide (x.toNat < m.toNat)))
        (subtractUnchecked x m) x := by
    rw [subtractModulusIfNeeded, lessThanMaskUnchecked_eq hw, hmask, or_maskOfBit]
  have hsubw : (subtractUnchecked x m).width = x.width := by simp [subtractUnchecked, width]
  -- the difference wraps exactly when the number does not fit in the width
  have hwrap : ((subtractUnchecked x m).toNat + m.toNat) % 2 ^ (32 * m.width) = x.toNat := by
    have := Limbs.borrowLoop_wrap x.limbs m.limbs (n := x.width) le_rfl hw.ge
    rw [hw] at this hxlt
    rw [Nat.mod_eq_of_lt (show Limbs.value x.limbs < _ from hxlt)] at this
    rw [← hw] at this ⊢
    exact this
  have hsublt := (subtractUnchecked x m).toNat_lt
  rw [hsubw, hw] at hsublt
  rw [hw] at hxlt
  rw [hdef]
  refine ⟨by rw [width_selectUnchecked, hsubw, hw], ?_⟩
  rw [toNat_selectUnchecked _ hsubw]
  set B := 2 ^ (32 * m.width) with hB
  by_cases h0 : high = 0
  · have hl0 : ¬ highLimb ≠ 0 := by rw [hhigh]; simpa using h0
    rw [h0, mul_zero, add_zero] at hlt ⊢
    by_cases hless : x.toNat < m.toNat
    · simp only [hl0, hless, decide_false, decide_true, Bool.not_true, Bool.or_self,
        Bool.false_eq_true, if_false]
      rw [Nat.mod_eq_of_lt hless]
    · simp only [hl0, hless, decide_false, Bool.not_false, Bool.false_or, if_true]
      have hval : (subtractUnchecked x m).toNat + m.toNat = x.toNat := by
        by_contra hne
        have hge : B ≤ (subtractUnchecked x m).toNat + m.toNat := by
          by_contra hlt'
          rw [Nat.mod_eq_of_lt (by omega)] at hwrap
          exact hne hwrap
        rw [Nat.mod_eq_sub_mod hge, Nat.mod_eq_of_lt (by omega)] at hwrap
        omega
      rw [Nat.mod_eq_sub_mod (by omega), Nat.mod_eq_of_lt (by omega)]
      omega
  · have hl0 : highLimb ≠ 0 := hhigh.mpr h0
    have h1 : high = 1 := by
      have : B * high < 2 * B := by omega
      have : high < 2 := by
        by_contra hge
        have : B * 2 ≤ B * high := Nat.mul_le_mul_left _ (by omega)
        omega
      omega
    rw [h1, mul_one] at hlt ⊢
    simp only [hl0, ne_eq, not_false_eq_true, decide_true, Bool.true_or, if_true]
    have hval : (subtractUnchecked x m).toNat + m.toNat = x.toNat + B := by
      by_contra hne
      have hlt' : (subtractUnchecked x m).toNat + m.toNat < B := by
        by_contra hge
        rw [Nat.mod_eq_sub_mod (by omega), Nat.mod_eq_of_lt (by omega)] at hwrap
        omega
      rw [Nat.mod_eq_of_lt hlt'] at hwrap
      omega
    rw [Nat.mod_eq_sub_mod (by omega), Nat.mod_eq_of_lt (by omega)]
    omega

/-- One step of the doubling loop neither overflows its word nor carries more than one. -/
lemma double_step (l : UInt32) {c : UInt64} (hc : c.toNat < 2) :
    ((l.toUInt64 <<< 1) + c).toNat = 2 * l.toNat + c.toNat ∧
      ((l.toUInt64 <<< 1) + c).toNat / 2 ^ 32 < 2 := by
  have hl := Limbs.limb_lt l
  have hval : ((l.toUInt64 <<< 1) + c).toNat = 2 * l.toNat + c.toNat := by
    rw [UInt64.toNat_add, UInt64.toNat_shiftLeft, UInt32.toNat_toUInt64, UInt64.toNat_one,
      Nat.shiftLeft_eq, show 2 ^ (1 % 64) = 2 from rfl]
    omega
  rw [hval]
  omega

lemma carry_step (l : UInt32) {c : UInt64} (hc : c.toNat < 2) :
    (l.toUInt64 + c).toNat = l.toNat + c.toNat ∧ (l.toUInt64 + c).toNat / 2 ^ 32 < 2 := by
  have hl := Limbs.limb_lt l
  have hval : (l.toUInt64 + c).toNat = l.toNat + c.toNat := by
    rw [UInt64.toNat_add, UInt32.toNat_toUInt64]
    omega
  rw [hval]
  omega

lemma low_carry_ne_zero_iff {c : UInt64} (hc : c.toNat < 2) : c.toUInt32 ≠ 0 ↔ c.toNat ≠ 0 := by
  rw [Ne, ← UInt32.toNat_inj, UInt64.toNat_toUInt32, UInt32.toNat_zero]
  omega

/-- `2 * a` modulo the modulus, for reduced arguments: the double is below twice the modulus. -/
theorem doubleMod_spec {x m : RsaFixedBigInt} (hw : x.width = m.width) (hlt : x.toNat < m.toNat) :
    Is m.width (doubleMod x m) (2 * x.toNat % m.toNat) := by
  obtain ⟨hval, hcarry⟩ := Limbs.carryLoop_spec 2
    (fun i c hc => double_step (x.limbs.getD i 0) hc) 0 x.width (c := 0) (by simp)
  rw [Limbs.weigh_mul, Limbs.weigh_limbs (n := x.width) le_rfl, UInt64.toNat_zero,
    add_zero] at hval
  set doubled := Limbs.carryLoop (fun i c => ((x.limbs.getD i 0).toUInt64 <<< 1) + c) 0 x.width 0
  have hsum : Limbs.value doubled.1 + 2 ^ (32 * m.width) * doubled.2.toNat = 2 * x.toNat := by
    rw [← hw]
    exact hval
  have hspec := subtractModulusIfNeeded_spec ⟨doubled.1, by simpa [doubled] using
    x.valid_width⟩ m doubled.2.toUInt32 doubled.2.toNat
    (by simp [width, doubled]; exact hw) (low_carry_ne_zero_iff hcarry)
    (by change Limbs.value doubled.1 + _ < _; omega)
  change Is m.width _ ((Limbs.value doubled.1 + _) % _) at hspec
  rw [hsum] at hspec
  exact hspec

/-- `a + 1` modulo the modulus, for reduced arguments, also where the sum leaves the width. -/
theorem addOneMod_spec {x m : RsaFixedBigInt} (hw : x.width = m.width) (hlt : x.toNat < m.toNat) :
    Is m.width (addOneMod x m) ((x.toNat + 1) % m.toNat) := by
  obtain ⟨hval, hcarry⟩ := Limbs.carryLoop_spec 2
    (fun i c hc => carry_step (x.limbs.getD i 0) hc) 0 x.width (c := 1) (by simp)
  rw [Limbs.weigh_limbs (n := x.width) le_rfl, UInt64.toNat_one] at hval
  set sum := Limbs.carryLoop (fun i c => (x.limbs.getD i 0).toUInt64 + c) 0 x.width 1
  have hsum : Limbs.value sum.1 + 2 ^ (32 * m.width) * sum.2.toNat = x.toNat + 1 := by
    rw [← hw]
    exact hval
  have hm : 1 < m.toNat ∨ m.toNat = 1 := by omega
  have hspec := subtractModulusIfNeeded_spec ⟨sum.1, by simpa [sum] using
    x.valid_width⟩ m sum.2.toUInt32 sum.2.toNat
    (by simp [width, sum]; exact hw) (low_carry_ne_zero_iff hcarry)
    (by change Limbs.value sum.1 + _ < _; omega)
  change Is m.width _ ((Limbs.value sum.1 + _) % _) at hspec
  rw [hsum] at hspec
  exact hspec

/-! ### The checks -/

/-- A disjunction of words vanishes only if all of them do. -/
lemma foldl_or_eq_zero_iff (ls : List UInt32) (acc : UInt32) :
    ls.foldl (· ||| ·) acc = 0 ↔ acc = 0 ∧ ∀ l ∈ ls, l = 0 := by
  induction ls generalizing acc with
  | nil => simp
  | cons l ls ih =>
      rw [List.foldl_cons, ih, UInt32.or_eq_zero_iff, List.forall_mem_cons, and_assoc]

lemma isZero_iff (x : RsaFixedBigInt) : x.isZero = true ↔ x.toNat = 0 := by
  rw [isZero, beq_iff_eq, foldl_or_eq_zero_iff, toNat, Limbs.value_eq_zero_iff]
  simp

lemma requireMatchingWidths_ok {x y : RsaFixedBigInt} (h : x.width = y.width) :
    requireMatchingWidths x y = .ok () := by
  simp [requireMatchingWidths, h]

/-- The low bit of the low limb is the parity of the value. -/
lemma low_limb_and_one (x : RsaFixedBigInt) : x.limbs.getD 0 0 &&& 1 = 0 ↔ x.toNat % 2 = 0 := by
  have hbit := Limbs.value_testBit x.limbs 0
  rw [Limbs.bit, Nat.zero_div, Nat.zero_mod, Nat.testBit_zero, show UInt32.ofNat 0 = 0 from rfl,
    UInt32.shiftRight_zero] at hbit
  rw [← not_iff_not, ← Ne, ← bne_iff_ne, ← hbit, decide_eq_true_iff, toNat]
  omega

/-- The modulus check accepts the odd moduli above one. What else it could be is refused, which
`Properties/FixedIntegers.lean` shows. -/
lemma requireMontgomeryModulus_ok {m : RsaFixedBigInt} (hodd : m.toNat % 2 = 1)
    (hm : 1 < m.toNat) : requireMontgomeryModulus m = .ok () := by
  have hzero : m.isZero = false := by
    rw [← Bool.not_eq_true, isZero_iff]
    omega
  have hlow : (m.limbs.getD 0 0 &&& 1 == 0) = false := by
    rw [beq_eq_false_iff_ne, Ne, low_limb_and_one]
    omega
  have hbig : (m.limbs.getD 0 0 == 1 && (m.limbs.drop 1).foldl (· ||| ·) 0 == 0) = false := by
    rw [← Bool.not_eq_true, Bool.and_eq_true, beq_iff_eq, beq_iff_eq, foldl_or_eq_zero_iff,
      ← Limbs.value_eq_zero_iff]
    rintro ⟨hone, -, hrest⟩
    have hval := Limbs.value_take_add m.limbs 1 m.valid.1
    have htake : Limbs.value (m.limbs.take 1) = (m.limbs.getD 0 0).toNat := by
      obtain ⟨limbs, hlimbs⟩ := m
      obtain _ | ⟨l, ls⟩ := limbs
      · exact absurd hlimbs.1 (by simp)
      · simp
    rw [hrest, htake, hone] at hval
    rw [toNat, hval] at hm
    exact absurd hm (by decide)
  rw [requireMontgomeryModulus, hzero, hlow]
  change require (!(m.limbs.getD 0 0 == 1 && (m.limbs.drop 1).foldl (· ||| ·) 0 == 0)) _ = _
  rw [hbig]
  rfl

lemma requireReducedValue_ok {x m : RsaFixedBigInt} (hw : x.width = m.width)
    (hlt : x.toNat < m.toNat) : requireReducedValue x m = .ok () := by
  rw [requireReducedValue, lessThanMask, requireMatchingWidths_ok hw, lessThanMaskUnchecked_eq hw]
  simp [hlt, maskOfBit_eq_ff]

/-! ### Montgomery arithmetic -/

/-- The moduli of the Montgomery operations, as a condition on the value. The prime factors of a
parsed RSA key satisfy it. -/
structure MontgomeryModulus (m : RsaFixedBigInt) : Prop where
  odd : m.toNat % 2 = 1
  one_lt : 1 < m.toNat

/-- Reading `n` limbs from a position on, with zeros past the end, is a division and a remainder. -/
lemma value_map_getD_range (ls : List UInt32) (start n : ℕ) :
    Limbs.value ((List.range n).map fun i => ls.getD (start + i) 0) =
      Limbs.value (ls.drop start) % 2 ^ (32 * n) := by
  rw [← Limbs.value_take, ← Limbs.weigh_getD, ← Limbs.weigh_limbs (n := n) (by simp)]
  have hshift : ∀ (f : ℕ → ℕ) (i n : ℕ), Limbs.weigh f (start + i) n =
      Limbs.weigh (fun k => f (start + k)) i n := by
    intro f i n
    induction n generalizing i with
    | zero => rfl
    | succ n ih =>
        rw [Limbs.weigh, Limbs.weigh, ← ih (i + 1)]
        rfl
  have hcongr : ∀ (f g : ℕ → ℕ) (i n : ℕ), (∀ k < i + n, f k = g k) →
      Limbs.weigh f i n = Limbs.weigh g i n := by
    intro f g i n h
    induction n generalizing i with
    | zero => rfl
    | succ n ih =>
        rw [Limbs.weigh, Limbs.weigh, h i (by omega), ih (i + 1) fun k hk => h k (by omega)]
  rw [show start = start + 0 from rfl, hshift]
  apply hcongr
  intro k hk
  simp [List.getD_eq_getElem?_getD, show k < n by omega]

/-- The Montgomery product of reduced factors is reduced, and is the product divided by `2^(32 *
width)`. All checks pass, so that the operation does not fail. -/
theorem montgomeryMultiply_spec {x y m : RsaFixedBigInt} (hm : MontgomeryModulus m)
    (hxw : x.width = m.width) (hyw : y.width = m.width) (hx : x.toNat < m.toNat)
    (hy : y.toNat < m.toNat) :
    ∃ z, montgomeryMultiply x y m = .ok z ∧ z.width = m.width ∧ z.toNat < m.toNat ∧
      2 ^ (32 * m.width) * z.toNat ≡ x.toNat * y.toNat [MOD m.toNat] := by
  have hlow : m.limbs.getD 0 0 &&& 1 ≠ 0 := by
    rw [Ne, low_limb_and_one]
    have := hm.odd
    omega
  have hwle := m.valid.2
  have hmod := Limbs.montgomeryAccumulate_spec x.limbs y.limbs m.limbs (2 * kMaxLimbs + 2) hlow
    hxw hyw
    (by unfold kMaxLimbs at *; omega) hy
  set acc := Limbs.montgomeryAccumulate x.limbs y.limbs m.limbs
    (Limbs.lowInverse (m.limbs.getD 0 0)) (2 * kMaxLimbs + 2) with hacc
  set w := m.width with hw
  set high := acc.drop w with hhigh
  obtain ⟨hprod, hlt⟩ : 2 ^ (32 * w) * Limbs.value high ≡ x.toNat * y.toNat [MOD m.toNat] ∧
    Limbs.value high < 2 * m.toNat := hmod
  have hmlt := m.toNat_lt
  rw [← hw] at hmlt
  -- what does not fit in the width is at most one limb of value one
  have htop : Limbs.value (acc.drop (2 * w)) = Limbs.value high / 2 ^ (32 * w) := by
    rw [← Limbs.value_drop, hhigh, List.drop_drop, two_mul]
  have hacclen : acc.length = 2 * kMaxLimbs + 2 := by simp [hacc, Limbs.montgomeryAccumulate]
  have hwlt : 2 * w + 1 < acc.length := by
    rw [hacclen]
    unfold kMaxLimbs at *
    change w ≤ 64 at hwle
    omega
  have hsplit : acc.drop (2 * w) = acc.getD (2 * w) 0 :: acc.getD (2 * w + 1) 0 ::
      acc.drop (2 * w + 2) := by
    rw [List.drop_eq_getElem_cons (by omega), List.drop_eq_getElem_cons hwlt,
      List.getD_eq_getElem _ _ (by omega), List.getD_eq_getElem _ _ hwlt]
  have htoplt : Limbs.value (acc.drop (2 * w)) < 2 := by
    rw [htop]
    exact Nat.div_lt_of_lt_mul (by omega)
  have hor : (acc.getD (2 * w) 0 ||| acc.getD (2 * w + 1) 0) ≠ 0 ↔
      Limbs.value (acc.drop (2 * w)) ≠ 0 := by
    rw [not_iff_not, UInt32.or_eq_zero_iff, hsplit, Limbs.value_cons, Limbs.value_cons,
      ← UInt32.toNat_inj, ← UInt32.toNat_inj, UInt32.toNat_zero]
    rw [hsplit, Limbs.value_cons, Limbs.value_cons] at htoplt
    omega
  set reduced : RsaFixedBigInt :=
    ⟨(List.range w).map fun i => acc.getD (w + i) 0, by simpa using m.valid_width⟩ with hreduced
  have hredval : reduced.toNat = Limbs.value high % 2 ^ (32 * w) := value_map_getD_range acc w w
  have hsum : reduced.toNat + 2 ^ (32 * w) * Limbs.value (acc.drop (2 * w)) =
      Limbs.value high := by
    rw [hredval, htop, Nat.mod_add_div]
  have hspec := subtractModulusIfNeeded_spec reduced m _ _ (by simp [width, hreduced, hw])
    hor (by rw [← hw, hsum]; exact hlt)
  rw [← hw, hsum] at hspec
  refine ⟨_, ?_, hspec.1, ?_, ?_⟩
  · rw [montgomeryMultiply, requireMatchingWidths_ok (hxw.trans hyw.symm),
      requireMatchingWidths_ok hxw, requireMontgomeryModulus_ok hm.odd hm.one_lt,
      requireReducedValue_ok hxw hx, requireReducedValue_ok hyw hy, montgomeryN0Inverse,
      requireMontgomeryModulus_ok hm.odd hm.one_lt]
    rfl
  · rw [hspec.2]
    exact Nat.mod_lt _ (by have := hm.one_lt; omega)
  · rw [hspec.2]
    exact (Nat.ModEq.mul_left _ (Nat.mod_modEq _ _)).trans hprod

/-- The scaled representation of `u`, in which Montgomery products stand for products. -/
def scaled (m : RsaFixedBigInt) (u : ℕ) : ℕ :=
  2 ^ (32 * m.width) * u % m.toNat

variable {m : RsaFixedBigInt}

lemma MontgomeryModulus.coprime (hm : MontgomeryModulus m) (k : ℕ) :
    Nat.Coprime m.toNat (2 ^ k) :=
  (Nat.coprime_two_right.mpr (Nat.odd_iff.mpr hm.odd)).pow_right k

lemma MontgomeryModulus.pos (hm : MontgomeryModulus m) : 0 < m.toNat :=
  Nat.lt_of_succ_lt hm.one_lt

lemma scaled_lt (hm : MontgomeryModulus m) (u : ℕ) : scaled m u < m.toNat :=
  Nat.mod_lt _ hm.pos

/-- A Montgomery product of reduced factors that is a multiple of `2^(32 * width)`: the power of
two, prime to the modulus, is cancelled. -/
lemma montgomeryMultiply_cancel (hm : MontgomeryModulus m) {x y : RsaFixedBigInt} {a b u : ℕ}
    (hx : Is m.width x a) (hy : Is m.width y b) (ha : a < m.toNat) (hb : b < m.toNat)
    (hab : a * b ≡ 2 ^ (32 * m.width) * u [MOD m.toNat]) :
    Loops.Refines (Is m.width) (montgomeryMultiply x y m) (u % m.toNat) := by
  obtain ⟨z, hz, hw, hlt, hmod⟩ := montgomeryMultiply_spec hm hx.1 hy.1 (hx.2 ▸ ha) (hy.2 ▸ hb)
  rw [hx.2, hy.2] at hmod
  refine ⟨z, hz, hw, ?_⟩
  rw [← Nat.mod_eq_of_lt hlt]
  exact Nat.ModEq.cancel_left_of_coprime (hm.coprime _) (hmod.trans hab)

/-- Scaled factors have the scaled product. The ladder needs nothing else about its products. -/
lemma montgomeryMultiply_scaled (hm : MontgomeryModulus m) {x y : RsaFixedBigInt} {u v : ℕ}
    (hx : Is m.width x (scaled m u)) (hy : Is m.width y (scaled m v)) :
    Loops.Refines (Is m.width) (montgomeryMultiply x y m) (scaled m (u * v)) := by
  refine montgomeryMultiply_cancel hm hx hy (scaled_lt hm u) (scaled_lt hm v) ?_
  refine (Nat.ModEq.mul (Nat.mod_modEq _ _) (Nat.mod_modEq _ _)).trans ?_
  rw [show 2 ^ (32 * m.width) * u * (2 ^ (32 * m.width) * v) =
    2 ^ (32 * m.width) * (2 ^ (32 * m.width) * (u * v)) by ring]

/-- Doubling again and again multiplies by a power of two. Both the conversion into the scaled
representation and the square of the radix are such loops. -/
lemma doubleLoop_spec (n : ℕ) {x : RsaFixedBigInt} {a : ℕ} (hx : Is m.width x a)
    (ha : a < m.toNat) :
    Is m.width (Loops.loopUp (fun _ output => doubleMod output m) n x) (2 ^ n * a % m.toNat) :=
  Loops.loopUp_invariant _ (fun i s => Is m.width s (2 ^ i * a % m.toNat))
    (by simpa [Nat.mod_eq_of_lt ha] using hx) (by
      rintro i - s ⟨hw, hs⟩
      obtain ⟨hw', hs'⟩ := doubleMod_spec hw (hs ▸ Nat.mod_lt _ (by omega))
      refine ⟨hw', hs'.trans ?_⟩
      rw [hs, pow_succ', mul_assoc, Nat.mul_mod, Nat.mod_mod, ← Nat.mul_mod])

/-- The conversion computes the scaled representation of a reduced number. -/
theorem toMontgomery_spec (hm : MontgomeryModulus m) {x : RsaFixedBigInt} {a : ℕ}
    (hx : Is m.width x a) (ha : a < m.toNat) :
    Loops.Refines (Is m.width) (toMontgomery x m) (scaled m a) := by
  refine ⟨_, ?_, doubleLoop_spec (32 * m.width) hx ha⟩
  rw [toMontgomery, requireMatchingWidths_ok hx.1, requireMontgomeryModulus_ok hm.odd hm.one_lt,
    requireReducedValue_ok hx.1 (hx.2 ▸ ha), hx.1, mul_comm m.width]
  rfl

/-- The conversion back undoes the scaling, and reduces at the same time. -/
theorem fromMontgomery_spec (hm : MontgomeryModulus m) {x : RsaFixedBigInt} {u : ℕ}
    (hx : Is m.width x (scaled m u)) :
    Loops.Refines (Is m.width) (fromMontgomery x m) (u % m.toNat) := by
  rw [fromMontgomery, requireMatchingWidths_ok hx.1, ok_bind]
  refine montgomeryMultiply_cancel hm hx (b := 1) ⟨by simp [hx.1], by simp⟩ (scaled_lt hm u)
    hm.one_lt ?_
  rw [mul_one]
  exact Nat.mod_modEq _ _

/-- The radix is squared modulo the modulus, which takes twice as many doublings as it has bits. -/
lemma montgomeryRSquared_spec (hm : MontgomeryModulus m) :
    Loops.Refines (Is m.width) (montgomeryRSquared m) (2 ^ (64 * m.width) % m.toNat) := by
  have hone : Is m.width (oneOfWidth m.width m.valid_width) 1 := ⟨by simp, by simp⟩
  have hloop := doubleLoop_spec (m.width * 32 * 2) hone hm.one_lt
  rw [mul_one, show 2 ^ (m.width * 32 * 2) = 2 ^ (64 * m.width) by congr 1; ring] at hloop
  refine ⟨_, ?_, hloop⟩
  simp only [montgomeryRSquared, requireMontgomeryModulus_ok hm.odd hm.one_lt, ok_bind,
    requireReducedValue_ok hone.1 (by rw [hone.2]; exact hm.one_lt)]
  rfl

/-! ### Exponentiation -/

/-- The bit that the source picks out of the bytes is the bit of the number they stand for. -/
lemma exponentBit_eq (exponent : List UInt8) (i : ℕ) :
    exponentBit exponent i = (beValue exponent).testBit i := by
  rw [exponentBit]
  by_cases h : exponent.length ≤ i / 8
  · rw [beValue_testBit_eq_false h, if_pos h]
  · rw [if_neg (by omega), byte_bit _ (Nat.mod_lt _ (by norm_num)), beValue_testBit (by omega)]

/-- The ladder computes the power whose exponent is cut to `bits` bits. The invariant is that the
two registers hold consecutive powers, for the exponent bits read so far. -/
theorem montgomeryModExpSecret_spec (hm : MontgomeryModulus m) {base : RsaFixedBigInt} {b : ℕ}
    (hbase : Is m.width base b) (hb : b < m.toNat) (exponent : List UInt8) (bits : ℕ) :
    Loops.Refines (Is m.width) (montgomeryModExpSecret base exponent m bits)
      (b ^ (beValue exponent % 2 ^ bits) % m.toNat) := by
  set e := beValue exponent % 2 ^ bits with he
  have hone : Is m.width (oneOfWidth base.width base.valid_width) 1 :=
    ⟨by rw [width_oneOfWidth]; exact hbase.1, by simp⟩
  rw [montgomeryModExpSecret, requireMatchingWidths_ok hbase.1,
    requireMontgomeryModulus_ok hm.odd hm.one_lt, requireReducedValue_ok hbase.1 (hbase.2 ▸ hb)]
  simp only [ok_bind]
  refine (toMontgomery_spec hm hone hm.one_lt).bind fun r0 hr0 => ?_
  refine (toMontgomery_spec hm hbase hb).bind fun r1 hr1 => ?_
  -- the registers hold the scaled powers of the exponent prefix and of its successor
  have hladder := Loops.loopDownM_invariant (n := bits) (s := (r0, r1))
    (fun i (registers : RsaFixedBigInt × RsaFixedBigInt) => do
      let product ← montgomeryMultiply registers.1 registers.2 m
      let r0Squared ← montgomeryMultiply registers.1 registers.1 m
      let r1Squared ← montgomeryMultiply registers.2 registers.2 m
      let mask := maskOfBit (exponentBit exponent i)
      let selectedR0 ← select mask product r0Squared
      let selectedR1 ← select mask r1Squared product
      return (selectedR0, selectedR1))
    (fun i s => Is m.width s.1 (scaled m (b ^ (e / 2 ^ i))) ∧
      Is m.width s.2 (scaled m (b ^ (e / 2 ^ i + 1))))
    (by
      rw [Nat.div_eq_of_lt (Nat.mod_lt _ (by positivity)), pow_zero, zero_add, pow_one]
      exact ⟨hr0, hr1⟩)
    (by
      rintro i hi ⟨s0, s1⟩ ⟨h0, h1⟩
      obtain ⟨product, hp, hp'⟩ := montgomeryMultiply_scaled hm h0 h1
      obtain ⟨square0, hs0, hs0'⟩ := montgomeryMultiply_scaled hm h0 h0
      obtain ⟨square1, hs1, hs1'⟩ := montgomeryMultiply_scaled hm h1 h1
      obtain ⟨t0, ht0, ht0'⟩ := select_eq (exponentBit exponent i) hp' hs0'
      obtain ⟨t1, ht1, ht1'⟩ := select_eq (exponentBit exponent i) hs1' hp'
      have hbit : exponentBit exponent i = e.testBit i := by
        rw [exponentBit_eq, he, Nat.testBit_mod_two_pow, decide_eq_true hi, Bool.true_and]
      refine ⟨(t0, t1), ?_, ?_, ?_⟩
      · simp only [hp, hs0, hs1, ok_bind, ht0, ht1]
        rfl
      · rw [Loops.pow_div_two_pow_ladder b e i]
        rw [hbit] at ht0'
        cases hbit' : e.testBit i <;> simpa [hbit'] using ht0'
      · rw [Loops.pow_div_two_pow_succ b e i]
        rw [hbit] at ht1'
        cases hbit' : e.testBit i <;> simpa [hbit'] using ht1')
  obtain ⟨registers, hloop, h0, -⟩ := hladder
  simp only [pow_zero, Nat.div_one] at h0
  rw [hloop]
  exact fromMontgomery_spec hm h0

/-! ### Reduction of a byte string -/

/-- The eight rounds for one byte: the remainder is multiplied by 256 and the byte is added. -/
lemma fromBeBytesMod_byte (hm : MontgomeryModulus m) (byte : UInt8) {x : RsaFixedBigInt} {v : ℕ}
    (hx : Is m.width x (v % m.toNat)) :
    Loops.Refines (fun x v => Is m.width x (v % m.toNat))
      (Loops.loopDownM (fun bit output => do
        let output := doubleMod output m
        let incremented := addOneMod output m
        let mask := (0 : UInt8) - ((byte >>> UInt8.ofNat bit) &&& 1)
        select mask incremented output) 8 x) (v * 256 + byte.toNat) := by
  refine Loops.loopDownM_byte _ _ byte ?_ hx
  intro i hi s u hs
  have hdouble := doubleMod_spec hs.1 (hs.2 ▸ Nat.mod_lt _ hm.pos)
  rw [hs.2] at hdouble
  have hdlt : 2 * (u % m.toNat) % m.toNat < m.toNat := Nat.mod_lt _ hm.pos
  have hinc := addOneMod_spec hdouble.1 (hdouble.2 ▸ hdlt)
  rw [hdouble.2] at hinc
  obtain ⟨t, ht, ht'⟩ := select_eq (byte.toNat.testBit i) hinc hdouble
  refine ⟨t, by rw [maskOfBit_byte byte hi]; exact ht, ?_⟩
  cases hb : byte.toNat.testBit i <;> simpa [hb, Nat.add_mod, Nat.mul_mod] using ht'

/-- The remainder of a byte string of any length, so that an input as long as the modulus of an RSA
key is reduced modulo one of its factors. -/
theorem fromBeBytesMod_spec (hm : MontgomeryModulus m) (bytes : List UInt8) :
    Loops.Refines (Is m.width) (fromBeBytesMod bytes m) (beValue bytes % m.toNat) := by
  rw [fromBeBytesMod, requireMontgomeryModulus_ok hm.odd hm.one_lt, ok_bind]
  exact Loops.foldlM_bytes _ (fun x v => Is m.width x (v % m.toNat))
    (fun _ byte _ hx => fromBeBytesMod_byte hm byte hx) bytes ⟨by simp, by simp⟩

/-! ### Conversions -/

lemma beValue_dropExcessZeros (n : ℕ) (bytes : List UInt8) :
    beValue (dropExcessZeros n bytes) = beValue bytes := by
  induction bytes with
  | nil => rfl
  | cons b bs ih =>
      rw [dropExcessZeros]
      split
      next h => rw [ih, beValue_cons, h.2]; simp
      next => rfl

/-- A value that fits has no more than the wanted bytes left. -/
lemma length_dropExcessZeros_le {n : ℕ} {bytes : List UInt8} (h : beValue bytes < 256 ^ n) :
    (dropExcessZeros n bytes).length ≤ n := by
  induction bytes with
  | nil => simp [dropExcessZeros]
  | cons b bs ih =>
      rw [dropExcessZeros]
      split
      next hb =>
        apply ih
        rw [beValue_cons, hb.2] at h
        simpa using h
      next hb =>
        rw [not_and_or, not_lt] at hb
        rcases hb with hle | hb
        · exact hle
        · rw [length_eq_byteLength bs hb]
          exact (byteLength_le_iff _ _).mpr h

/-- Bytes whose value fits are accepted, however many leading zeros they have. -/
theorem fromBeBytes_spec {bytes : List UInt8} {w : ℕ} (hw : ValidWidth w)
    (h : beValue bytes < 2 ^ (32 * w)) :
    Loops.Refines (Is w) (fromBeBytes bytes w) (beValue bytes) := by
  have h256 : beValue bytes < 256 ^ (w * 4) := by
    rwa [show (256 : ℕ) = 2 ^ 8 from rfl, ← pow_mul, show 8 * (w * 4) = 32 * w by ring]
  have hlen := length_dropExcessZeros_le h256
  rw [fromBeBytes, dif_pos hw]
  simp only [if_neg (not_lt.mpr hlen)]
  refine Loops.Refines.ok ⟨by simp [width], ?_⟩
  change Limbs.value _ = _
  rw [Limbs.value_loadLimbs_reverse (by omega), beValue_dropExcessZeros]

/-- The bytes of the value at the full width, as the library writes them. -/
theorem toBeBytes_eq (x : RsaFixedBigInt) : x.toBeBytes = beBytes (4 * x.width) x.toNat :=
  Limbs.storeBytes_eq_beBytes x.limbs

end RsaFixedBigInt

end CryptoCore
