import CryptoCore.Framework.LimbProducts
import CryptoCore.Construction.BigInt
import CryptoCore.Construction.P256Curve

/-!
# The fixed-limb integers of P-256

`U256` is a vector of eight limbs and `U512` one of sixteen; the length is a field of the structure,
so that no operation has to check it. Products are reduced bit by bit, from the most significant bit
down, into a remainder that stays below the modulus; the bit that the shifted remainder loses
decides whether the subtraction may wrap.

The loops over limbs are those of `Framework/Limbs.lean`, which proves what they do to values. Here
a `U256` is its value: `U256.toNat` is injective (`U256.ext_toNat`), `U256.ofNat` is its inverse
below `2 ^ 256`, and each operation has one lemma that says what it does to the value. The lemma
that carries the module is `toNat_reduceRound`: a remainder below the modulus takes in one more bit
and stays below, although the doubled remainder may need 257 bits.

`ofField` is the representation of a field element, and each field operation of the source is the
operation of the field under it. `Construction/P256Fixed.lean` uses these lemmas as simp rules in
the same way as `Construction/P256.lean` uses those for `BigInt`; the readers at the end tie the
byte strings of `p256_fixed.cpp` to the coordinates of `Construction/P256Curve.lean`.
-/

namespace CryptoCore

open ByteStrings

namespace P256Fixed

/-- Eight limbs, least significant first. The length is carried as a proof: the source has an array
of fixed size, and an integer of another width cannot be built. -/
structure U256 where
  limbs : List UInt32
  length_limbs : limbs.length = 8

/-- Sixteen limbs, the width of a product before its reduction. -/
structure U512 where
  limbs : List UInt32
  length_limbs : limbs.length = 16

/-- The error of the fixed-limb backend. Its domain differs from that of the reference backend,
which is why the two agree up to the text of their errors only. -/
def fixedError (code : ErrorCode) (message : String) : Error :=
  makeError code "p256_fixed" message

/-! ## Constants -/

/-- The constants of the curve as limbs, least significant first, where the reference backend has
them as big-endian bytes. -/
def pValue : U256 :=
  ⟨[0xFFFFFFFF, 0xFFFFFFFF, 0xFFFFFFFF, 0x00000000,
    0x00000000, 0x00000000, 0x00000001, 0xFFFFFFFF], rfl⟩

def aValue : U256 :=
  ⟨[0xFFFFFFFC, 0xFFFFFFFF, 0xFFFFFFFF, 0x00000000,
    0x00000000, 0x00000000, 0x00000001, 0xFFFFFFFF], rfl⟩

def bValue : U256 :=
  ⟨[0x27D2604B, 0x3BCE3C3E, 0xCC53B0F6, 0x651D06B0,
    0x769886BC, 0xB3EBBD55, 0xAA3A93E7, 0x5AC635D8], rfl⟩

def gxValue : U256 :=
  ⟨[0xD898C296, 0xF4A13945, 0x2DEB33A0, 0x77037D81,
    0x63A440F2, 0xF8BCE6E5, 0xE12C4247, 0x6B17D1F2], rfl⟩

def gyValue : U256 :=
  ⟨[0x37BF51F5, 0xCBB64068, 0x6B315ECE, 0x2BCE3357,
    0x7C0F9E16, 0x8EE7EB4A, 0xFE1A7F9B, 0x4FE342E2], rfl⟩

def nValue : U256 :=
  ⟨[0xFC632551, 0xF3B9CAC2, 0xA7179E84, 0xBCE6FAAD,
    0xFFFFFFFF, 0xFFFFFFFF, 0x00000000, 0xFFFFFFFF], rfl⟩

def pMinusTwoValue : U256 :=
  ⟨[0xFFFFFFFD, 0xFFFFFFFF, 0xFFFFFFFF, 0x00000000,
    0x00000000, 0x00000000, 0x00000001, 0xFFFFFFFF], rfl⟩

def nMinusTwoValue : U256 :=
  ⟨[0xFC63254F, 0xF3B9CAC2, 0xA7179E84, 0xBCE6FAAD,
    0xFFFFFFFF, 0xFFFFFFFF, 0x00000000, 0xFFFFFFFF], rfl⟩

def zero : U256 :=
  ⟨List.replicate 8 0, rfl⟩

/-- A single limb as an integer, for the small factors of the formulas. -/
def word (value : UInt32) : U256 :=
  ⟨value :: List.replicate 7 0, rfl⟩

def one : U256 :=
  word 1

/-! ## Arithmetic -/

def isZero (value : U256) : Bool :=
  value.limbs.all (· == 0)

/-- The sign of the difference, from a scan of the limbs that starts at the most significant one. -/
def compare (lhs rhs : U256) : ℤ :=
  Limbs.compareDown lhs.limbs.reverse rhs.limbs.reverse

/-- Subtraction modulo `2 ^ 256`: the last borrow is dropped. The reduction calls it when the bit
that was shifted out makes up for the borrow. -/
def subtractWrapped (lhs rhs : U256) : U256 :=
  ⟨(Limbs.borrowLoop Limbs.digitBranch (lhs.limbs.getD · 0) (rhs.limbs.getD · 0) 0 8 0).1,
    by simp⟩

/-- The name is a promise of the callers, who compare the two numbers first; the code is that of the
subtraction that wraps. -/
def subtractChecked (lhs rhs : U256) : U256 :=
  subtractWrapped lhs rhs

/-- The schoolbook product, row by row into sixteen limbs that start at zero. -/
def multiplyWide (lhs rhs : U256) : U512 :=
  ⟨Limbs.mulRows lhs.limbs rhs.limbs (List.replicate 16 0), by simp⟩

/-- The shift and the bit that leaves the last limb. -/
def shiftLeftOneAdd (value : U256) (bit : Bool) : U256 × Bool :=
  let shifted := Limbs.shiftLeftOne value.limbs (if bit then 1 else 0)
  (⟨shifted.1, by simp [shifted, value.length_limbs]⟩, shifted.2 != 0)

/-- One round of the reduction: the next bit enters the remainder. -/
def reduceRound (modulus : U256) (bit : Bool) (remainder : U256) : U256 :=
  let shifted := shiftLeftOneAdd remainder bit
  if shifted.2 then subtractWrapped shifted.1 modulus
  else if compare shifted.1 modulus ≥ 0 then subtractChecked shifted.1 modulus
  else shifted.1

/-- The remainder of a product, from all the 512 bits of it. -/
def reduceWide (value : U512) (modulus : U256) : U256 :=
  Loops.loopDown (fun i => reduceRound modulus (Limbs.bit value.limbs i)) (16 * 32) zero

/-- The remainder of a 256-bit integer, which is extended by zero limbs first. -/
def reduce256 (value modulus : U256) : U256 :=
  reduceWide ⟨value.limbs ++ List.replicate 8 0, by simp [value.length_limbs]⟩ modulus

/-- The sum with its carry as a ninth limb, reduced like a product. The arguments need not be
reduced. -/
def modAdd (lhs rhs modulus : U256) : U256 :=
  let sum := Limbs.carryLoop
    (fun i carry => (lhs.limbs.getD i 0).toUInt64 + (rhs.limbs.getD i 0).toUInt64 + carry) 0 8 0
  reduceWide ⟨sum.1 ++ sum.2.toUInt32 :: List.replicate 7 0, by simp [sum]⟩ modulus

/-- The difference of reduced arguments. A negative difference is subtracted from the modulus
instead, so that no borrow is ever dropped. -/
def modSubtract (lhs rhs modulus : U256) : U256 :=
  if compare lhs rhs ≥ 0 then subtractChecked lhs rhs
  else
    let delta := subtractChecked rhs lhs
    subtractChecked modulus delta

def modMultiply (lhs rhs modulus : U256) : U256 :=
  reduceWide (multiplyWide lhs rhs) modulus

/-- Square and multiply over all the 256 bits of the exponent, from the top. The number of squarings
does not depend on the exponent; the multiplications do. -/
def modExp (base exponent modulus : U256) : U256 :=
  let base := reduce256 base modulus
  Loops.loopDown
    (fun i result =>
      let result := modMultiply result result modulus
      if Limbs.bit exponent.limbs i then modMultiply result base modulus else result)
    (8 * 32) (reduce256 one modulus)

def fieldAdd (lhs rhs : U256) : U256 :=
  modAdd lhs rhs pValue

def fieldSubtract (lhs rhs : U256) : U256 :=
  modSubtract lhs rhs pValue

def fieldMultiply (lhs rhs : U256) : U256 :=
  modMultiply lhs rhs pValue

def fieldInverse (value : U256) : U256 :=
  modExp value pMinusTwoValue pValue

def scalarReduce (value : U256) : U256 :=
  reduce256 value nValue

/-! ## Bytes -/

/-- Reading big-endian bytes. Leading zero bytes are skipped before the length is checked, so that a
long string with a small value is accepted. -/
def u256FromBe (bytes : List UInt8) : Result U256 :=
  let bytes := bytes.dropWhile (· == 0)
  if bytes.length > 32 then
    .error (fixedError .invalidArgument "integer exceeds 256 bits")
  else .ok ⟨Limbs.loadLimbs 8 bytes.reverse, by simp⟩

/-- A coordinate: exactly 32 bytes, and a value below the prime. -/
def coordinateFromBe (bytes : List UInt8) : Result U256 := do
  require (bytes.length == 32)
    (fixedError .invalidArgument "P-256 coordinates must be 32 bytes")
  let value ← u256FromBe bytes
  require (compare value pValue < 0) (fixedError .invalidKey "P-256 coordinate exceeds field")
  return value

/-- A scalar: any value below `2 ^ 256`, reduced modulo the order. -/
def scalarFromBeReduced (bytes : List UInt8) : Result U256 := do
  let value ← u256FromBe bytes
  return scalarReduce value

/-- The shortest bytes of a value, with a single zero byte for zero. -/
def toBeBytesMinimal (value : U256) : ByteBuffer :=
  if isZero value then [0] else Limbs.pushSignificant (Limbs.storeBytes value.limbs)

def toBeBytesFixed (value : U256) : ByteBuffer :=
  Limbs.storeBytes value.limbs

/-! ## A `U256` is its value -/

namespace U256

/-- The value of the limbs. Every statement below about an operation is about this number. -/
def toNat (x : U256) : ℕ :=
  Limbs.value x.limbs

lemma toNat_lt (x : U256) : x.toNat < 2 ^ 256 := by
  have h := Limbs.value_lt x.limbs
  rwa [x.length_limbs] at h

/-- The bits of the value are the bits of the limbs, which the reduction and the exponentiation
read. -/
lemma testBit_toNat (x : U256) (i : ℕ) : x.toNat.testBit i = Limbs.bit x.limbs i :=
  Limbs.value_testBit x.limbs i

/-- Equal values have equal limbs, since the length is fixed. -/
lemma ext_toNat {x y : U256} (h : x.toNat = y.toNat) : x = y := by
  obtain ⟨xs, hx⟩ := x
  obtain ⟨ys, hy⟩ := y
  obtain rfl : xs = ys := Limbs.value_injective (hx.trans hy.symm) h
  rfl

/-- The `U256` of a number, which is meant for numbers below `2 ^ 256`. -/
def ofNat (k : ℕ) : U256 :=
  ⟨Limbs.loadLimbs 8 (beBytes 32 k).reverse, by simp⟩

lemma toNat_ofNat {k : ℕ} (h : k < 2 ^ 256) : (ofNat k).toNat = k := by
  rw [ofNat, toNat, Limbs.value_loadLimbs_reverse (by simp), beValue_beBytes h]

@[simp] lemma ofNat_toNat (x : U256) : ofNat x.toNat = x :=
  ext_toNat (toNat_ofNat x.toNat_lt)

lemma eq_ofNat {x : U256} {k : ℕ} (h : x.toNat = k) : x = ofNat k := by
  rw [← h, ofNat_toNat]

end U256

lemma toNat_word (value : UInt32) : (word value).toNat = value.toNat := by
  simp [word, U256.toNat]

@[simp] lemma toNat_zero : zero.toNat = 0 := by
  simp [zero, U256.toNat]

lemma isZero_iff (x : U256) : isZero x = true ↔ x.toNat = 0 := by
  rw [U256.toNat, Limbs.value_eq_zero_iff, isZero, List.all_eq_true]
  simp

/-- Comparison as a sign. The three lemmas after it are the forms in which the branches use it. -/
lemma compare_eq (x y : U256) : compare x y = ((x.toNat : ℤ) - y.toNat).sign :=
  Limbs.compareDown_reverse (x.length_limbs.trans y.length_limbs.symm)

lemma compare_nonneg_iff (x y : U256) : compare x y ≥ 0 ↔ y.toNat ≤ x.toNat := by
  rw [compare_eq, ge_iff_le, Int.sign_nonneg_iff]
  omega

lemma compare_neg_iff (x y : U256) : compare x y < 0 ↔ x.toNat < y.toNat := by
  rw [← not_le, ← not_le, ← compare_nonneg_iff]

lemma compare_eq_zero_iff (x y : U256) : compare x y = 0 ↔ x.toNat = y.toNat := by
  rw [compare_eq, Int.sign_eq_zero_iff_zero]
  omega

/-- The subtraction that wraps, on values: the difference is determined by what it restores modulo
`2 ^ 256`. -/
lemma toNat_subtractWrapped (x y : U256) :
    ((subtractWrapped x y).toNat + y.toNat) % 2 ^ 256 = x.toNat := by
  have h := Limbs.borrowLoop_wrap x.limbs y.limbs x.length_limbs.le y.length_limbs.le
  rw [← Limbs.digitBranch_eq_digitWrap] at h
  rw [← Nat.mod_eq_of_lt x.toNat_lt]
  exact h

/-- For callers that have compared first, the subtraction is exact. -/
lemma toNat_subtractChecked {x y : U256} (h : y.toNat ≤ x.toNat) :
    (subtractChecked x y).toNat = x.toNat - y.toNat := by
  have hwrap := toNat_subtractWrapped x y
  have hlt := (subtractWrapped x y).toNat_lt
  have hx := x.toNat_lt
  have hy := y.toNat_lt
  rw [subtractChecked]
  omega

/-- No carry of the schoolbook product is lost: the sixteen limbs have the value of the product. -/
lemma toNat_multiplyWide (x y : U256) :
    Limbs.value (multiplyWide x y).limbs = x.toNat * y.toNat :=
  Limbs.mulRows_exact (by rw [x.length_limbs, y.length_limbs])

/-- The shifted remainder and the bit that left it are twice the value and the new bit, with nothing
lost between them. -/
lemma shiftLeftOneAdd_spec (x : U256) (bit : Bool) :
    (shiftLeftOneAdd x bit).1.toNat + (if (shiftLeftOneAdd x bit).2 then 2 ^ 256 else 0) =
      2 * x.toNat + bit.toNat := by
  obtain ⟨hval, hcarry⟩ := Limbs.value_shiftLeftOne x.limbs
    (show (if bit then 1 else 0 : UInt32).toNat < 2 by cases bit <;> simp)
  have hbit : (if bit then 1 else 0 : UInt32).toNat = bit.toNat := by cases bit <;> rfl
  rw [x.length_limbs, hbit] at hval
  have hflag : (if (shiftLeftOneAdd x bit).2 then 2 ^ 256 else 0) = 2 ^ (32 * 8) *
      (Limbs.shiftLeftOne x.limbs (if bit then 1 else 0)).2.toNat := by
    have hne : (shiftLeftOneAdd x bit).2 =
        ((Limbs.shiftLeftOne x.limbs (if bit then 1 else 0)).2 != 0) := rfl
    rw [hne]
    by_cases hzero : (Limbs.shiftLeftOne x.limbs (if bit then 1 else 0)).2 = 0
    · simp [hzero]
    · have hpos : (Limbs.shiftLeftOne x.limbs (if bit then 1 else 0)).2.toNat ≠ 0 :=
        fun h => hzero (UInt32.toNat_inj.mp h)
      have hone : (Limbs.shiftLeftOne x.limbs (if bit then 1 else 0)).2.toNat = 1 := by omega
      simp [hzero, hone]
  rw [hflag]
  exact hval

/-! ## Reduction -/

/-- A remainder below the modulus stays below it, and takes in one more bit. When the shift
overflows, the subtraction wraps and is right nevertheless, since the true difference is below the
modulus. -/
lemma toNat_reduceRound {m r : U256} (hr : r.toNat < m.toNat) (bit : Bool) :
    (reduceRound m bit r).toNat = (2 * r.toNat + bit.toNat) % m.toNat := by
  have hshift := shiftLeftOneAdd_spec r bit
  have hm := m.toNat_lt
  have hbit := Bool.toNat_lt bit
  unfold reduceRound
  by_cases hcarry : (shiftLeftOneAdd r bit).2 = true
  · have hwrap := toNat_subtractWrapped (shiftLeftOneAdd r bit).1 m
    have hlt := (subtractWrapped (shiftLeftOneAdd r bit).1 m).toNat_lt
    simp only [hcarry, if_true] at hshift ⊢
    rw [Nat.mod_eq_sub_mod (by omega), Nat.mod_eq_of_lt (by omega)]
    omega
  · simp only [hcarry, Bool.false_eq_true, if_false, add_zero] at hshift ⊢
    by_cases hle : m.toNat ≤ (shiftLeftOneAdd r bit).1.toNat
    · rw [if_pos ((compare_nonneg_iff _ _).mpr hle), toNat_subtractChecked hle, hshift,
        Nat.mod_eq_sub_mod (by omega), Nat.mod_eq_of_lt (by omega)]
    · rw [if_neg (fun h => hle ((compare_nonneg_iff _ _).mp h)), hshift,
        Nat.mod_eq_of_lt (by omega)]

/-- The reduction is the remainder. The invariant is that after the bits read so far the remainder
is theirs modulo the modulus. -/
theorem toNat_reduceWide (x : U512) {m : U256} (hm : m.toNat ≠ 0) :
    (reduceWide x m).toNat = Limbs.value x.limbs % m.toNat := by
  have hbound : Limbs.value x.limbs < 2 ^ (16 * 32) := by
    have hbits : 16 * 32 = 32 * x.limbs.length := by rw [x.length_limbs]
    rw [hbits]
    exact Limbs.value_lt x.limbs
  have hrun := Loops.loopDown_invariant
    (fun i => reduceRound m (Limbs.bit x.limbs i))
    (fun i (r : U256) => r.toNat = Limbs.value x.limbs / 2 ^ i % m.toNat)
    (show zero.toNat = _ by rw [toNat_zero, Nat.div_eq_of_lt hbound, Nat.zero_mod])
    (fun i _ r hr => by
      have hlt : r.toNat < m.toNat := hr ▸ Nat.mod_lt _ (Nat.pos_of_ne_zero hm)
      rw [toNat_reduceRound hlt, hr, Loops.div_two_pow_eq _ i, Limbs.value_testBit, Nat.add_mod,
        Nat.mul_mod_mod, ← Nat.add_mod])
  simpa [reduceWide] using hrun

@[simp] theorem toNat_reduce256 (x : U256) {m : U256} (hm : m.toNat ≠ 0) :
    (reduce256 x m).toNat = x.toNat % m.toNat := by
  rw [reduce256, toNat_reduceWide _ hm, Limbs.value_append, Limbs.value_replicate_zero]
  simp [U256.toNat]

theorem toNat_modAdd (x y : U256) {m : U256} (hm : m.toNat ≠ 0) :
    (modAdd x y m).toNat = (x.toNat + y.toNat) % m.toNat := by
  obtain ⟨hval, hcarry⟩ := Limbs.carryLoop_spec (2 ^ 32)
    (fun i c hc => BigInt.add_step (x.limbs.getD i 0) (y.limbs.getD i 0) hc) 0 8
    (show (0 : UInt64).toNat < 2 ^ 32 by simp)
  rw [Limbs.weigh_add, Limbs.weigh_limbs x.length_limbs.le, Limbs.weigh_limbs y.length_limbs.le,
    UInt64.toNat_zero, add_zero] at hval
  rw [modAdd, toNat_reduceWide _ hm]
  simp only [Limbs.value_append, Limbs.value_cons, Limbs.value_replicate_zero, mul_zero, add_zero,
    Limbs.length_carryLoop, UInt64.toNat_toUInt32, Nat.mod_eq_of_lt hcarry]
  rw [hval]
  rfl

/-- Only subtraction needs reduced arguments; the other operations reduce whatever they get. -/
theorem toNat_modSubtract {x y m : U256} (hx : x.toNat < m.toNat) (hy : y.toNat < m.toNat) :
    (modSubtract x y m).toNat = (x.toNat + (m.toNat - y.toNat)) % m.toNat := by
  unfold modSubtract
  by_cases hle : y.toNat ≤ x.toNat
  · rw [if_pos ((compare_nonneg_iff _ _).mpr hle), toNat_subtractChecked hle,
      show x.toNat + (m.toNat - y.toNat) = (x.toNat - y.toNat) + m.toNat by omega,
      Nat.add_mod_right, Nat.mod_eq_of_lt (by omega)]
  · have hdelta : (subtractChecked y x).toNat = y.toNat - x.toNat :=
      toNat_subtractChecked (by omega)
    rw [if_neg (fun h => hle ((compare_nonneg_iff _ _).mp h)),
      toNat_subtractChecked (by omega), hdelta, Nat.mod_eq_of_lt (by omega)]
    omega

theorem toNat_modMultiply (x y : U256) {m : U256} (hm : m.toNat ≠ 0) :
    (modMultiply x y m).toNat = x.toNat * y.toNat % m.toNat := by
  rw [modMultiply, toNat_reduceWide _ hm, toNat_multiplyWide]

/-- Exponentiation, for every base and every exponent of the width. -/
theorem toNat_modExp (base exponent : U256) {m : U256} (hm : m.toNat ≠ 0) :
    (modExp base exponent m).toNat = base.toNat ^ exponent.toNat % m.toNat := by
  have hone : one.toNat = 1 := toNat_word 1
  have hrun := Loops.loopDown_invariant
    (fun i result =>
      let result := modMultiply result result m
      if Limbs.bit exponent.limbs i then modMultiply result (reduce256 base m) m else result)
    (fun i (r : U256) => r.toNat = base.toNat ^ (exponent.toNat / 2 ^ i) % m.toNat)
    (show (reduce256 one m).toNat = _ by
      rw [toNat_reduce256 one hm, Nat.div_eq_of_lt exponent.toNat_lt, pow_zero, hone])
    (fun i (_ : i < 8 * 32) r hr => by
      dsimp only
      rw [Loops.pow_div_two_pow base.toNat, U256.testBit_toNat]
      have hsquare : (modMultiply r r m).toNat = base.toNat ^ (exponent.toNat / 2 ^ (i + 1)) *
          base.toNat ^ (exponent.toNat / 2 ^ (i + 1)) % m.toNat := by
        rw [toNat_modMultiply r r hm, hr, ← Nat.mul_mod]
      split
      · rw [toNat_modMultiply _ _ hm, hsquare, toNat_reduce256 base hm, ← Nat.mul_mod]
      · exact hsquare)
  simpa [modExp] using hrun

/-! ## Field elements and scalars -/

open P256Curve

/-- The representation of a coordinate in limbs: those of its reduced number. -/
def ofField (v : Coordinate) : U256 :=
  U256.ofNat v.val

lemma toNat_ofField (v : Coordinate) : (ofField v).toNat = v.val :=
  U256.toNat_ofNat (val_lt v)

lemma eq_ofField {x : U256} {v : Coordinate} (h : x.toNat = v.val) : x = ofField v :=
  U256.eq_ofNat h

/-- The moduli and the exponent of the inverse, evaluated once. -/
lemma modulus_values : pValue.toNat = p ∧ nValue.toNat = n ∧ pMinusTwoValue.toNat = p - 2 := by
  decide +kernel

/-- The constants of the curve and of its formulas. As in the reference backend, one evaluation
settles all of them, and the lemmas below read single constants off. -/
lemma field_values : aValue.toNat = a.val ∧ bValue.toNat = b.val ∧ gxValue.toNat = gx.val ∧
    gyValue.toNat = gy.val ∧ zero.toNat = (0 : Coordinate).val ∧
    one.toNat = (1 : Coordinate).val ∧ (word 2).toNat = (2 : Coordinate).val ∧
    (word 3).toNat = (3 : Coordinate).val ∧ (word 4).toNat = (4 : Coordinate).val ∧
    (word 8).toNat = (8 : Coordinate).val := by
  decide +kernel

lemma toNat_pValue : pValue.toNat = p := modulus_values.1

lemma toNat_nValue : nValue.toNat = n := modulus_values.2.1

lemma pValue_ne_zero : pValue.toNat ≠ 0 :=
  toNat_pValue ▸ prime_p.ne_zero

lemma nValue_ne_zero : nValue.toNat ≠ 0 :=
  toNat_nValue ▸ prime_n.ne_zero

lemma aValue_eq : aValue = ofField a :=
  eq_ofField field_values.1

lemma bValue_eq : bValue = ofField b :=
  eq_ofField field_values.2.1

lemma gxValue_eq : gxValue = ofField gx :=
  eq_ofField field_values.2.2.1

lemma gyValue_eq : gyValue = ofField gy :=
  eq_ofField field_values.2.2.2.1

lemma zero_eq : zero = ofField 0 :=
  eq_ofField field_values.2.2.2.2.1

lemma one_eq : one = ofField 1 :=
  eq_ofField field_values.2.2.2.2.2.1

lemma word_two : word 2 = ofField 2 :=
  eq_ofField field_values.2.2.2.2.2.2.1

lemma word_three : word 3 = ofField 3 :=
  eq_ofField field_values.2.2.2.2.2.2.2.1

lemma word_four : word 4 = ofField 4 :=
  eq_ofField field_values.2.2.2.2.2.2.2.2.1

lemma word_eight : word 8 = ofField 8 :=
  eq_ofField field_values.2.2.2.2.2.2.2.2.2

/-- The field operations on representations are those of the field; on fixed limbs they cannot fail,
so the equations are between integers and not between results. -/
@[simp] lemma fieldAdd_ofField (v w : Coordinate) :
    fieldAdd (ofField v) (ofField w) = ofField (v + w) := by
  apply eq_ofField
  rw [fieldAdd, toNat_modAdd _ _ pValue_ne_zero, toNat_ofField, toNat_ofField, toNat_pValue,
    ZMod.val_add]

@[simp] lemma fieldSubtract_ofField (v w : Coordinate) :
    fieldSubtract (ofField v) (ofField w) = ofField (v - w) := by
  have hv : (ofField v).toNat < pValue.toNat := by
    rw [toNat_ofField, toNat_pValue]
    exact ZMod.val_lt v
  have hw : (ofField w).toNat < pValue.toNat := by
    rw [toNat_ofField, toNat_pValue]
    exact ZMod.val_lt w
  apply eq_ofField
  rw [fieldSubtract, toNat_modSubtract hv hw, toNat_ofField, toNat_ofField, toNat_pValue,
    sub_eq_add_neg, ZMod.val_add, ZMod.neg_val', Nat.add_mod_mod]

@[simp] lemma fieldMultiply_ofField (v w : Coordinate) :
    fieldMultiply (ofField v) (ofField w) = ofField (v * w) := by
  apply eq_ofField
  rw [fieldMultiply, toNat_modMultiply _ _ pValue_ne_zero, toNat_ofField, toNat_ofField,
    toNat_pValue, ZMod.val_mul]

/-- Inversion by exponentiation is that of the field, which sends zero to zero. -/
@[simp] lemma fieldInverse_ofField (v : Coordinate) :
    fieldInverse (ofField v) = ofField v⁻¹ := by
  have hexp : pMinusTwoValue.toNat = p - 2 := modulus_values.2.2
  apply eq_ofField
  rw [fieldInverse, toNat_modExp _ _ pValue_ne_zero, toNat_ofField, toNat_pValue, hexp,
    ← val_pow, inverse_eq_pow]

@[simp] lemma isZero_ofField (v : Coordinate) : isZero (ofField v) = decide (v = 0) := by
  rw [Bool.eq_iff_iff, isZero_iff, toNat_ofField, ZMod.val_eq_zero, decide_eq_true_iff]

lemma compare_ofField (v w : Coordinate) : compare (ofField v) (ofField w) = 0 ↔ v = w := by
  rw [compare_eq_zero_iff, toNat_ofField, toNat_ofField]
  exact (ZMod.val_injective p).eq_iff

/-- The bytes of a representation are the encoding of the coordinate. -/
@[simp] lemma toBeBytesFixed_ofField (v : Coordinate) :
    toBeBytesFixed (ofField v) = coordinateBytes v := by
  rw [toBeBytesFixed, Limbs.storeBytes_eq_beBytes, (ofField v).length_limbs]
  exact congrArg (beBytes 32) (toNat_ofField v)

lemma toBeBytesMinimal_eq (x : U256) : toBeBytesMinimal x = minBeBytes x.toNat := by
  unfold toBeBytesMinimal
  by_cases hx : x.toNat = 0
  · rw [(isZero_iff x).mpr hx, hx]
    rfl
  · have hfalse : isZero x = false := by
      rw [← Bool.not_eq_true, isZero_iff]
      exact hx
    rw [hfalse]
    exact Limbs.pushSignificant_storeBytes hx

/-! ### Reading -/

/-- What is read, and when: leading zeros never matter, only the value does. -/
lemma u256FromBe_eq (bytes : List UInt8) :
    u256FromBe bytes = if beValue bytes < 2 ^ 256 then .ok (U256.ofNat (beValue bytes))
      else .error (fixedError .invalidArgument "integer exceeds 256 bits") := by
  have hvalue := beValue_dropWhile_zero bytes
  have hwidth : (bytes.dropWhile (· == 0)).length ≤ 32 ↔ beValue bytes < 2 ^ 256 :=
    length_dropWhile_zero_le_iff bytes 32
  unfold u256FromBe
  dsimp only
  by_cases hlt : beValue bytes < 2 ^ 256
  · have hlength := hwidth.mpr hlt
    rw [if_neg (by omega), if_pos hlt]
    refine congrArg Except.ok (U256.eq_ofNat ?_)
    rw [U256.toNat, Limbs.value_loadLimbs_reverse (by omega), hvalue]
  · rw [if_pos (by rw [gt_iff_lt, ← not_le, hwidth]; exact hlt), if_neg hlt]

/-- A byte string with a coordinate is read as its representation. -/
lemma coordinateFromBe_of_some {bytes : List UInt8} {v : Coordinate}
    (h : coordinateOf bytes = some v) : coordinateFromBe bytes = .ok (ofField v) := by
  rw [coordinateOf_eq_some] at h
  have hval : U256.ofNat (beValue bytes) = ofField v := by rw [h, beValue_coordinateBytes]; rfl
  have hlt : compare (ofField v) pValue < 0 := by
    rw [compare_neg_iff, toNat_ofField, toNat_pValue]
    exact ZMod.val_lt v
  have hread : u256FromBe bytes = .ok (ofField v) := by
    rw [u256FromBe_eq, hval, if_pos]
    rw [h, beValue_coordinateBytes]
    exact val_lt v
  have hlength : (bytes.length == 32) = true := by simp [h]
  rw [coordinateFromBe, hlength, hread, require_true, ok_bind, ok_bind, decide_eq_true hlt,
    require_true, ok_bind]
  rfl

/-- Any other byte string is an error, be it for its length or for its value. -/
lemma coordinateFromBe_of_none {bytes : List UInt8} (h : coordinateOf bytes = none) :
    ∃ e, coordinateFromBe bytes = .error e := by
  have hnot : ¬(bytes.length = 32 ∧ beValue bytes < p) := by
    intro hvalid
    simp [coordinateOf, hvalid] at h
  unfold coordinateFromBe
  by_cases hlength : bytes.length = 32
  · have hlt : beValue bytes < 2 ^ 256 := by
      have h := beValue_lt bytes
      rw [hlength] at h
      exact h
    have hcompare : ¬compare (U256.ofNat (beValue bytes)) pValue < 0 := by
      rw [compare_neg_iff, U256.toNat_ofNat hlt, toNat_pValue]
      exact fun hp => hnot ⟨hlength, hp⟩
    rw [u256FromBe_eq, if_pos hlt, hlength, beq_self_eq_true, require_true, ok_bind, ok_bind,
      decide_eq_false hcompare]
    exact ⟨_, rfl⟩
  · rw [beq_eq_false_iff_ne.mpr hlength]
    exact ⟨_, rfl⟩

/-- A scalar is read exactly when it fits in 256 bits. The reference backend has no such bound, so
the two backends are compared on scalars below it. -/
lemma scalarFromBeReduced_eq (bytes : List UInt8) :
    scalarFromBeReduced bytes =
      if beValue bytes < 2 ^ 256 then .ok (U256.ofNat (beValue bytes % n))
      else .error (fixedError .invalidArgument "integer exceeds 256 bits") := by
  rw [scalarFromBeReduced, u256FromBe_eq]
  by_cases hlt : beValue bytes < 2 ^ 256
  · rw [if_pos hlt, if_pos hlt, ok_bind]
    refine congrArg Except.ok (U256.eq_ofNat ?_)
    rw [scalarReduce, toNat_reduce256 _ nValue_ne_zero, U256.toNat_ofNat hlt, toNat_nValue]
  · rw [if_neg hlt, if_neg hlt, error_bind]

end P256Fixed

end CryptoCore
