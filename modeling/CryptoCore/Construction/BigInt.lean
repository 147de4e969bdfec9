import Mathlib.Data.ZMod.Basic
import CryptoCore.Framework.LimbProducts
import CryptoCore.Construction.Result

/-!
# The variable-length integers

`BigInt` is the reference integer of the library: a limb vector without a most significant zero
limb. Its modular exponentiations are the textbook one and two ladders with a fixed number of
rounds, one on reduced products and one on Montgomery products.

Since the limb vector is in normal form, which the structure carries as a proof, a `BigInt` is its
value: `ofNat` and `toNat` are inverse to each other, and each operation below comes with the
equation that says what it does on values. The loops over limbs are those of `Framework/Limbs.lean`;
what is proved here is that the words do not overflow in this code's loops (`add_step`,
`shift_step`) and that the remainder terminates (`mod_round`: every round takes a multiple of the
modulus away and shortens the remainder by a bit).

The two ladders share `ladder_spec`, which is stated for any representation of the powers of the
base: reduced numbers for one, numbers scaled by a power of two for the other. The users are the
public RSA operation, the reference backend of P-256 and the scalars of Ed25519; the run on checked
arrays and the failures are in `Properties/BigInt.lean` and `Properties/ModularExponentiation.lean`.
-/

namespace CryptoCore

open ByteStrings

/-- The byte `0xFF` for a set bit and `0x00` for a clear one: the masks of all branch-free
selections. -/
def maskOfBit (bit : Bool) : UInt8 :=
  0 - if bit then 1 else 0

/-- The word mask of a byte mask. Only the top bit of the byte is looked at. -/
def wordMaskFromByte (mask : UInt8) : UInt32 :=
  (0 : UInt32) - ((mask >>> 7) &&& 1).toUInt32

lemma wordMaskFromByte_maskOfBit (b : Bool) :
    wordMaskFromByte (maskOfBit b) = 0 - if b then 1 else 0 := by
  cases b <;> rfl

/-- The mask that the ladders compute from a bit of a byte is the mask of that bit of the number. -/
lemma maskOfBit_byte (b : UInt8) {i : ℕ} (hi : i < 8) :
    (0 : UInt8) - ((b >>> UInt8.ofNat i) &&& 1) = maskOfBit (b.toNat.testBit i) := by
  have hlt : ((b >>> UInt8.ofNat i) &&& 1).toNat < 2 := by
    rw [UInt8.toNat_and, UInt8.toNat_one]
    exact Nat.lt_succ_of_le Nat.and_le_right
  have hcases : (b >>> UInt8.ofNat i) &&& 1 = 0 ∨ (b >>> UInt8.ofNat i) &&& 1 = 1 := by
    rw [← UInt8.toNat_inj, ← UInt8.toNat_inj, UInt8.toNat_zero, UInt8.toNat_one]
    omega
  rw [← byte_bit b hi]
  rcases hcases with h | h <;> rw [h] <;> rfl

/-- A number as limbs, least significant first, without a zero limb at the top. Zero has no limbs.
-/
structure BigInt where
  limbs : List UInt32
  normal : Limbs.Normal limbs

namespace BigInt

/-! ## Conversions and comparison -/

/-- The constructor, which normalizes. Every operation ends with it, so that the normal form is an
invariant of the type. -/
def ofLimbs (limbs : List UInt32) : BigInt :=
  ⟨Limbs.normalize limbs, Limbs.normal_normalize limbs⟩

def zero : BigInt := ofLimbs []

def one : BigInt := ofLimbs [1]

/-- Big-endian bytes as a number. The source returns a result, although no input is refused. -/
def fromBeBytes (bytes : List UInt8) : Result BigInt :=
  let bytes := bytes.dropWhile (· == 0)
  if bytes = [] then .ok zero
  else .ok (ofLimbs (Limbs.loadLimbs ((bytes.length + 3) / 4) bytes.reverse))

def isZero (x : BigInt) : Bool :=
  x.limbs.isEmpty

/-- The shortest bytes of a number, with one zero byte for zero. -/
def toBeBytes (x : BigInt) : ByteBuffer :=
  if x.isZero then [0] else Limbs.pushSignificant (Limbs.storeBytes x.limbs)

/-- Comparison by length first, which is right for normal forms only; both sides are normalised
before. -/
def compareLimbs (lhs rhs : List UInt32) : ℤ :=
  let lhs := Limbs.normalize lhs
  let rhs := Limbs.normalize rhs
  if lhs.length < rhs.length then -1
  else if rhs.length < lhs.length then 1
  else Limbs.compareDown lhs.reverse rhs.reverse

def compare (x other : BigInt) : ℤ :=
  compareLimbs x.limbs other.limbs

def bit (x : BigInt) (index : ℕ) : Bool :=
  Limbs.bit x.limbs index

def bitLength (x : BigInt) : ℕ :=
  Limbs.bitLength x.limbs

/-! ## Arithmetic -/

def add (lhs rhs : BigInt) : BigInt :=
  ofLimbs (Limbs.carryLoop
    (fun i carry => (lhs.limbs.getD i 0).toUInt64 + (rhs.limbs.getD i 0).toUInt64 + carry)
    0 (max lhs.limbs.length rhs.limbs.length + 1) 0).1

/-- The difference of numbers in order. The callers compare first; for a larger subtrahend the last
borrow is dropped. -/
def subtract (lhs rhs : BigInt) : BigInt :=
  ofLimbs (Limbs.borrowLoop Limbs.digitBranch (lhs.limbs.getD · 0) (rhs.limbs.getD · 0)
    0 lhs.limbs.length 0).1

/-- The schoolbook product into a buffer with one limb to spare. -/
def multiply (lhs rhs : BigInt) : BigInt :=
  if lhs.isZero || rhs.isZero then zero
  else ofLimbs (Limbs.mulRows lhs.limbs rhs.limbs
    (List.replicate (lhs.limbs.length + rhs.limbs.length + 1) 0))

/-- A shift by whole limbs and by the bits that remain; what leaves the last limb becomes a limb of
its own. -/
def shiftLeftBits (value : BigInt) (bits : ℕ) : BigInt :=
  if value.isZero then zero
  else
    let limbShift := bits / 32
    let bitShift := bits % 32
    let shifted := Limbs.carryLoop
      (fun i carry => ((value.limbs.getD i 0).toUInt64 <<< UInt64.ofNat bitShift) ||| carry)
      0 value.limbs.length 0
    ofLimbs (List.replicate limbShift 0 ++ shifted.1 ++ [shifted.2.toUInt32])

/-- The loop of `mod`. Every round makes the remainder at least one bit shorter, so the bit length
of the value bounds the number of rounds; the source has no counter. -/
def modLoop (modulus : BigInt) : ℕ → BigInt → BigInt
  | 0, remainder => remainder
  | rounds + 1, remainder =>
      if remainder.compare modulus ≥ 0 then
        let shift := remainder.bitLength - modulus.bitLength
        let shifted := shiftLeftBits modulus shift
        if shifted.compare remainder > 0 then
          modLoop modulus rounds (subtract remainder (shiftLeftBits modulus (shift - 1)))
        else modLoop modulus rounds (subtract remainder shifted)
      else remainder

/-- The remainder. A zero modulus leaves the value as it is; the public operations refuse it before.
-/
def mod (value modulus : BigInt) : BigInt :=
  if modulus.isZero ∨ value.compare modulus < 0 then value
  else modLoop modulus value.bitLength value

/-! ## Modular arithmetic -/

def zeroModulusError : Error :=
  makeError .invalidArgument "bigint" "modulus must be non-zero"

def exponentWidthError : Error :=
  makeError .invalidArgument "bigint" "exponent bit width is too small"

/-- The sum of the remainders, reduced once more. The modulus must not be zero. -/
def modAdd (lhs rhs modulus : BigInt) : Result BigInt :=
  if modulus.isZero then .error zeroModulusError
  else .ok (mod (add (mod lhs modulus) (mod rhs modulus)) modulus)

/-- The difference of the remainders, with the modulus added where it would be negative. -/
def modSubtract (lhs rhs modulus : BigInt) : Result BigInt :=
  if modulus.isZero then .error zeroModulusError
  else
    let left := mod lhs modulus
    let right := mod rhs modulus
    if left.compare right ≥ 0 then .ok (subtract left right)
    else .ok (subtract (add left modulus) right)

def modMultiply (lhs rhs modulus : BigInt) : Result BigInt :=
  if modulus.isZero then .error zeroModulusError
  else .ok (mod (multiply (mod lhs modulus) (mod rhs modulus)) modulus)

/-- Square and multiply from the lowest bit, over the bits of the exponent and not of a public
bound. -/
def modExp (base exponent modulus : BigInt) : Result BigInt :=
  if modulus.isZero then .error zeroModulusError
  else
    let state := Loops.loopUp
      (fun i (result, power) =>
        (if exponent.bit i then mod (multiply result power) modulus else result,
          mod (multiply power power) modulus))
      exponent.bitLength (mod one modulus, mod base modulus)
    .ok state.1

/-- The masked selection between two numbers, over the limbs of a common width. Limbs past that
width would be lost, so the callers pass one that holds both. -/
def constantTimeSelect (mask : UInt8) (ifSet ifClear : BigInt) (width : ℕ) : BigInt :=
  ofLimbs (Limbs.select (wordMaskFromByte mask) (ifSet.limbs.getD · 0) (ifClear.limbs.getD · 0)
    width)

/-- `fixed_limbs`: the limbs of a value, cut or filled up to a size. -/
def fixedLimbs (value : BigInt) (size : ℕ) : List UInt32 :=
  value.limbs.take size ++ List.replicate (size - value.limbs.length) 0

/-- The `montgomery_multiply` of the Montgomery ladder. The factors are reduced first, and one
subtraction at the end brings the result below the modulus. -/
def montgomeryMultiply (modulus : BigInt) (n0Inverse : UInt32) (lhs rhs : BigInt) : BigInt :=
  let width := modulus.limbs.length
  let left := fixedLimbs (mod lhs modulus) width
  let right := fixedLimbs (mod rhs modulus) width
  let accumulator :=
    Limbs.montgomeryAccumulate left right modulus.limbs n0Inverse (2 * width + 2)
  let result := ofLimbs ((accumulator.drop width).take (width + 1))
  if result.compare modulus ≥ 0 then subtract result modulus else result

/-- The ladder on Montgomery products, for odd moduli. The number of rounds is an argument, which
must cover the exponent. -/
def modExpSecretMontgomery (base exponent modulus : BigInt) (exponentBits : ℕ) : Result BigInt :=
  if modulus.isZero then .error zeroModulusError
  else if exponent.bitLength > exponentBits then .error exponentWidthError
  else if modulus.limbs.getD 0 0 &&& 1 = 0 then
    .error (makeError .invalidArgument "bigint" "Montgomery exponentiation requires an odd modulus")
  else
    let width := modulus.limbs.length
    let multiply' := montgomeryMultiply modulus (Limbs.lowInverse (modulus.limbs.getD 0 0))
    let oneReduced := mod one modulus
    let baseReduced := mod base modulus
    let r := mod (shiftLeftBits one (width * 32)) modulus
    let rSquared := mod (multiply r r) modulus
    -- The second register is always the first times the base, whatever the bits were.
    let registers := Loops.loopDown
      (fun i (r0, r1) =>
        let product := multiply' r0 r1
        let r0Squared := multiply' r0 r0
        let r1Squared := multiply' r1 r1
        let mask := maskOfBit (exponent.bit i)
        (constantTimeSelect mask product r0Squared width,
          constantTimeSelect mask r1Squared product width))
      exponentBits (multiply' oneReduced rSquared, multiply' baseReduced rSquared)
    .ok (multiply' registers.1 oneReduced)

/-- The ladder that callers use: Montgomery products where the modulus is odd, reduced products
otherwise. -/
def modExpSecret (base exponent modulus : BigInt) (exponentBits : ℕ) : Result BigInt :=
  if modulus.isZero then .error zeroModulusError
  else if exponent.bitLength > exponentBits then .error exponentWidthError
  else if modulus.limbs ≠ [] ∧ modulus.limbs.getD 0 0 &&& 1 ≠ 0 then
    modExpSecretMontgomery base exponent modulus exponentBits
  else
    let registers := Loops.loopDown
      (fun i (r0, r1) =>
        let product := mod (multiply r0 r1) modulus
        let r0Squared := mod (multiply r0 r0) modulus
        let r1Squared := mod (multiply r1 r1) modulus
        let mask := maskOfBit (exponent.bit i)
        (constantTimeSelect mask product r0Squared modulus.limbs.length,
          constantTimeSelect mask r1Squared product modulus.limbs.length))
      exponentBits (mod one modulus, mod base modulus)
    .ok registers.1

/-! ## A `BigInt` is its value -/

/-- The value of the limbs, which determines the integer since they are in normal form. -/
def toNat (x : BigInt) : ℕ :=
  Limbs.value x.limbs

/-- Numbers in normal form are equal as soon as their values are. -/
lemma ext_toNat {x y : BigInt} (h : x.toNat = y.toNat) : x = y := by
  obtain ⟨xs, hx⟩ := x
  obtain ⟨ys, hy⟩ := y
  obtain rfl : xs = ys := Limbs.normal_injective hx hy h
  rfl

@[simp] lemma toNat_ofLimbs (ls : List UInt32) : (ofLimbs ls).toNat = Limbs.value ls :=
  Limbs.value_normalize ls

/-- The `BigInt` of a number. With `toNat` it makes the type a copy of the natural numbers. -/
def ofNat (n : ℕ) : BigInt :=
  ofLimbs (Limbs.loadLimbs (byteLength n) (beBytes (byteLength n) n).reverse)

@[simp] lemma toNat_ofNat (n : ℕ) : (ofNat n).toNat = n := by
  rw [ofNat, toNat_ofLimbs, Limbs.value_loadLimbs_reverse (by simp; omega),
    beValue_beBytes (lt_pow_byteLength n)]

@[simp] lemma ofNat_toNat (x : BigInt) : ofNat x.toNat = x :=
  ext_toNat (toNat_ofNat _)

lemma eq_ofNat {x : BigInt} {n : ℕ} (h : x.toNat = n) : x = ofNat n := by
  rw [← h, ofNat_toNat]

@[simp] lemma toNat_zero : zero.toNat = 0 := by simp [zero]

@[simp] lemma toNat_one : one.toNat = 1 := by simp [one]

lemma isZero_iff (x : BigInt) : x.isZero = true ↔ x.toNat = 0 := by
  rw [isZero, List.isEmpty_iff, toNat, Limbs.value_eq_zero_iff_of_normal x.normal]

lemma isZero_eq_false {x : BigInt} (h : x.toNat ≠ 0) : x.isZero = false := by
  rw [← Bool.not_eq_true, isZero_iff]
  exact h

/-- Reading bytes never fails and gives the number they stand for. -/
theorem fromBeBytes_eq (bytes : List UInt8) :
    fromBeBytes bytes = .ok (ofNat (beValue bytes)) := by
  rw [fromBeBytes, ← beValue_dropWhile_zero bytes]
  set stripped := bytes.dropWhile (· == 0) with hs
  by_cases h : stripped = []
  · simp only [h, if_true]
    rw [eq_ofNat toNat_zero, beValue_nil]
  · simp only [h, if_false]
    congr 1
    apply eq_ofNat
    rw [toNat_ofLimbs, Limbs.value_loadLimbs_reverse (by omega)]

/-- Writing gives the shortest bytes, so that reading back gives the same number. -/
theorem toBeBytes_eq (x : BigInt) : x.toBeBytes = minBeBytes x.toNat := by
  unfold toBeBytes
  split
  next h =>
    rw [isZero_iff] at h
    rw [h]
    rfl
  next h =>
    rw [isZero_iff] at h
    exact Limbs.pushSignificant_storeBytes h

/-- The comparison is that of the values. The lemmas after it are the forms that the branches use.
-/
theorem compare_eq (x y : BigInt) : x.compare y = ((x.toNat : ℤ) - y.toNat).sign := by
  have hlt : ∀ {u v : BigInt}, u.limbs.length < v.limbs.length → u.toNat < v.toNat := by
    intro u v h
    by_contra hle
    have := Limbs.length_le_of_normal v.normal ((not_lt.mp hle).trans_lt (Limbs.value_lt u.limbs))
    omega
  rw [compare, compareLimbs, Limbs.normalize_eq_self x.normal, Limbs.normalize_eq_self y.normal]
  split_ifs with h₁ h₂
  · have := hlt h₁
    rw [Int.sign_eq_neg_one_of_neg (by omega)]
  · have := hlt h₂
    rw [Int.sign_eq_one_of_pos (by omega)]
  · exact Limbs.compareDown_reverse (by omega)

lemma compare_nonneg_iff (x y : BigInt) : x.compare y ≥ 0 ↔ y.toNat ≤ x.toNat := by
  rw [compare_eq, ge_iff_le, Int.sign_nonneg_iff]
  omega

lemma compare_pos_iff (x y : BigInt) : x.compare y > 0 ↔ y.toNat < x.toNat := by
  rw [compare_eq, gt_iff_lt, Int.sign_pos_iff]
  omega

lemma compare_neg_iff (x y : BigInt) : x.compare y < 0 ↔ x.toNat < y.toNat := by
  rw [← not_le, ← ge_iff_le, compare_nonneg_iff, not_le]

lemma compare_eq_zero_iff (x y : BigInt) : x.compare y = 0 ↔ x.toNat = y.toNat := by
  rw [compare_eq, Int.sign_eq_zero_iff_zero]
  omega

lemma bit_eq (x : BigInt) (i : ℕ) : x.bit i = x.toNat.testBit i :=
  (Limbs.value_testBit x.limbs i).symm

lemma bitLength_eq (x : BigInt) : x.bitLength = x.toNat.size :=
  Limbs.bitLength_eq_size x.normal

/-! ## What the operations compute -/

/-- One limb of a sum: the word does not overflow, and the carry stays a carry. -/
lemma add_step (x y : UInt32) {c : UInt64} (hc : c.toNat < 2 ^ 32) :
    (x.toUInt64 + y.toUInt64 + c).toNat = x.toNat + y.toNat + c.toNat ∧
      (x.toUInt64 + y.toUInt64 + c).toNat / 2 ^ 32 < 2 ^ 32 := by
  have hx := Limbs.limb_lt x
  have hy := Limbs.limb_lt y
  have hsum : (x.toUInt64 + y.toUInt64 + c).toNat = x.toNat + y.toNat + c.toNat := by
    rw [UInt64.toNat_add, UInt64.toNat_add, UInt32.toNat_toUInt64, UInt32.toNat_toUInt64]
    omega
  rw [hsum]
  omega

/-- Sums are exact; the buffer has room for the last carry. -/
@[simp] theorem toNat_add (x y : BigInt) : (add x y).toNat = x.toNat + y.toNat := by
  set n := max x.limbs.length y.limbs.length + 1 with hn
  obtain ⟨hval, -⟩ := Limbs.carryLoop_spec (2 ^ 32)
    (fun i c hc => add_step (x.limbs.getD i 0) (y.limbs.getD i 0) hc) 0 n (c := 0) (by simp)
  rw [Limbs.weigh_add, Limbs.weigh_limbs (by omega), Limbs.weigh_limbs (by omega),
    UInt64.toNat_zero, add_zero] at hval
  rw [add, toNat_ofLimbs]
  set out := Limbs.carryLoop (fun i c =>
    (x.limbs.getD i 0).toUInt64 + (y.limbs.getD i 0).toUInt64 + c) 0 n 0
  -- the extra limb takes the last carry
  have hx := (Limbs.value_lt x.limbs).trans_le
    (Nat.pow_le_pow_right (by norm_num) (show 32 * x.limbs.length ≤ 32 * (n - 1) by omega))
  have hy := (Limbs.value_lt y.limbs).trans_le
    (Nat.pow_le_pow_right (by norm_num) (show 32 * y.limbs.length ≤ 32 * (n - 1) by omega))
  have hpow : 2 ^ (32 * n) = 2 ^ 32 * 2 ^ (32 * (n - 1)) := by
    rw [← pow_add]
    congr 1
    omega
  have hcarry : out.2.toNat = 0 := by
    by_contra hne
    have : 2 ^ (32 * n) ≤ 2 ^ (32 * n) * out.2.toNat :=
      Nat.le_mul_of_pos_right _ (Nat.pos_of_ne_zero hne)
    omega
  rw [hcarry, mul_zero, add_zero] at hval
  exact hval

lemma length_le_of_toNat_le {x y : BigInt} (h : y.toNat ≤ x.toNat) :
    y.limbs.length ≤ x.limbs.length :=
  Limbs.length_le_of_normal y.normal (lt_of_le_of_lt h (Limbs.value_lt x.limbs))

/-- Differences of numbers in order are exact; the source assumes the order and does not check it.
-/
theorem toNat_subtract {x y : BigInt} (h : y.toNat ≤ x.toNat) :
    (subtract x y).toNat = x.toNat - y.toNat := by
  rw [subtract, toNat_ofLimbs, Limbs.digitBranch_eq_digitWrap,
    Limbs.borrowLoop_sub le_rfl (length_le_of_toNat_le h) h]
  rfl

/-- Products are exact, zero factors included, which the code treats on their own. -/
@[simp] theorem toNat_multiply (x y : BigInt) : (multiply x y).toNat = x.toNat * y.toNat := by
  unfold multiply
  split
  next h =>
    rw [Bool.or_eq_true, isZero_iff, isZero_iff] at h
    rcases h with h | h <;> simp [h]
  next => rw [toNat_ofLimbs, Limbs.mulRows_exact (by omega), toNat, toNat]

/-- A shifted limb and a carry below the shift do not overlap, so that their disjunction is a sum.
-/
lemma shift_step (l : UInt32) {s : ℕ} (hs : s < 32) {c : UInt64} (hc : c.toNat < 2 ^ s) :
    ((l.toUInt64 <<< UInt64.ofNat s) ||| c).toNat = 2 ^ s * l.toNat + c.toNat ∧
      ((l.toUInt64 <<< UInt64.ofNat s) ||| c).toNat / 2 ^ 32 < 2 ^ s := by
  have hl : l.toNat + 1 ≤ 2 ^ 32 := Limbs.limb_lt l
  have hlt : 2 ^ s * l.toNat + c.toNat < 2 ^ s * 2 ^ 32 := by
    calc 2 ^ s * l.toNat + c.toNat < 2 ^ s * (l.toNat + 1) := by rw [mul_add, mul_one]; omega
      _ ≤ _ := Nat.mul_le_mul_left _ hl
  have hpow : 2 ^ s * 2 ^ 32 ≤ 2 ^ 64 := by
    rw [← pow_add]
    exact Nat.pow_le_pow_right (by norm_num) (by omega)
  have hfit : l.toNat * 2 ^ s < 2 ^ 64 := by rw [mul_comm]; omega
  have hmod : s % 2 ^ 64 % 64 = s := by omega
  have hval : ((l.toUInt64 <<< UInt64.ofNat s) ||| c).toNat = 2 ^ s * l.toNat + c.toNat := by
    rw [UInt64.toNat_or, UInt64.toNat_shiftLeft, UInt32.toNat_toUInt64, UInt64.toNat_ofNat', hmod,
      Nat.shiftLeft_eq, Nat.mod_eq_of_lt hfit, mul_comm l.toNat, Nat.two_pow_add_eq_or_of_lt hc]
  exact ⟨hval, by rw [hval]; exact Nat.div_lt_of_lt_mul (by rw [mul_comm (2 ^ 32)]; exact hlt)⟩

/-- A shift multiplies by a power of two, for every number of bits. -/
@[simp] theorem toNat_shiftLeftBits (x : BigInt) (bits : ℕ) :
    (shiftLeftBits x bits).toNat = 2 ^ bits * x.toNat := by
  unfold shiftLeftBits
  split
  next h =>
    rw [isZero_iff] at h
    simp [h]
  next =>
    have hs : bits % 32 < 32 := Nat.mod_lt _ (by norm_num)
    obtain ⟨hval, hcarry⟩ := Limbs.carryLoop_spec (2 ^ (bits % 32))
      (fun i c hc => shift_step (x.limbs.getD i 0) hs hc) 0 x.limbs.length (c := 0) (by simp)
    rw [Limbs.weigh_mul, Limbs.weigh_limbs le_rfl, UInt64.toNat_zero, add_zero] at hval
    set out := Limbs.carryLoop (fun i c =>
      ((x.limbs.getD i 0).toUInt64 <<< UInt64.ofNat (bits % 32)) ||| c) 0 x.limbs.length 0
    have hlen : out.1.length = x.limbs.length := Limbs.length_carryLoop _ _ _ _
    have hlast : out.2.toUInt32.toNat = out.2.toNat := by
      have : 2 ^ (bits % 32) ≤ 2 ^ 32 := Nat.pow_le_pow_right (by norm_num) hs.le
      rw [UInt64.toNat_toUInt32]
      omega
    rw [toNat_ofLimbs, Limbs.value_append, Limbs.value_append, Limbs.value_replicate_zero,
      Limbs.value_cons, Limbs.value_nil, hlast, List.length_append, List.length_replicate, hlen,
      mul_zero, add_zero, zero_add, mul_add 32, pow_add, mul_assoc, ← mul_add, hval, ← mul_assoc,
      ← pow_add, Nat.div_add_mod, toNat]

/-! ### The remainder -/

/-- One round of `mod` takes a multiple of the modulus away and makes the remainder shorter. The
multiple is the modulus shifted up to the length of the remainder, or one bit less if that is too
much. -/
lemma mod_round {m r : BigInt} (hm : m.toNat ≠ 0) (hle : m.toNat ≤ r.toNat) :
    ∃ k, 2 ^ k * m.toNat ≤ r.toNat ∧ (r.toNat - 2 ^ k * m.toNat).size < r.toNat.size ∧
      (if (shiftLeftBits m (r.bitLength - m.bitLength)).compare r > 0 then
        shiftLeftBits m (r.bitLength - m.bitLength - 1)
      else shiftLeftBits m (r.bitLength - m.bitLength)).toNat = 2 ^ k * m.toNat := by
  have hmpos := Nat.pos_of_ne_zero hm
  have hmb : 2 ^ (m.toNat.size - 1) ≤ m.toNat :=
    Nat.lt_size.mp (Nat.sub_lt (Nat.size_pos.mpr hmpos) one_pos)
  have hmlt : m.toNat < 2 ^ m.toNat.size := Nat.lt_size_self _
  have hrlt : r.toNat < 2 ^ r.toNat.size := Nat.lt_size_self _
  have hsize : m.toNat.size ≤ r.toNat.size := Nat.size_le_size hle
  have hmsize : 0 < m.toNat.size := Nat.size_pos.mpr hmpos
  have hhalf : 2 ^ r.toNat.size = 2 * 2 ^ (r.toNat.size - 1) := by
    rw [← pow_succ']
    congr 1
    omega
  set s := r.toNat.size - m.toNat.size with hs
  -- The aligned modulus carries the top bit of the remainder, so subtracting it or its half takes
  -- that bit away.
  have hlow : 2 ^ (r.toNat.size - 1) ≤ 2 ^ s * m.toNat := by
    calc 2 ^ (r.toNat.size - 1) = 2 ^ s * 2 ^ (m.toNat.size - 1) := by
          rw [← pow_add]
          congr 1
          omega
      _ ≤ _ := Nat.mul_le_mul_left _ hmb
  have hshorter : ∀ d, d < 2 ^ (r.toNat.size - 1) → d.size < r.toNat.size := fun d hd => by
    have := Nat.size_le.mpr hd
    omega
  rw [bitLength_eq, bitLength_eq, ← hs]
  split
  next hgt =>
    -- Aligning went past the remainder, and one bit back it cannot.
    rw [gt_iff_lt, ← gt_iff_lt, compare_pos_iff, toNat_shiftLeftBits] at hgt
    have hs0 : s ≠ 0 := by
      rintro h0
      rw [h0, pow_zero, one_mul] at hgt
      omega
    have hdouble : 2 ^ s * m.toNat = 2 * (2 ^ (s - 1) * m.toNat) := by
      rw [← mul_assoc, ← pow_succ']
      congr 2
      omega
    have htop : 2 ^ s * m.toNat < 2 ^ r.toNat.size := by
      calc 2 ^ s * m.toNat < 2 ^ s * 2 ^ m.toNat.size :=
            Nat.mul_lt_mul_of_pos_left hmlt (by positivity)
        _ = 2 ^ r.toNat.size := by
            rw [← pow_add]
            congr 1
            omega
    have hrlow : 2 ^ (r.toNat.size - 1) ≤ r.toNat :=
      Nat.lt_size.mp (by omega)
    exact ⟨s - 1, by omega, hshorter _ (by omega), toNat_shiftLeftBits _ _⟩
  next hle' =>
    rw [compare_pos_iff, toNat_shiftLeftBits, not_lt] at hle'
    exact ⟨s, hle', hshorter _ (by omega), toNat_shiftLeftBits _ _⟩

/-- With enough rounds the loop ends at the remainder, by induction on the rounds. -/
lemma toNat_modLoop {m : BigInt} (hm : m.toNat ≠ 0) (rounds : ℕ) {r : BigInt}
    (hr : r.toNat.size ≤ rounds) : (modLoop m rounds r).toNat = r.toNat % m.toNat := by
  induction rounds generalizing r with
  | zero =>
      have h0 : r.toNat = 0 := Nat.size_eq_zero.mp (Nat.le_zero.mp hr)
      simp [modLoop, h0]
  | succ rounds ih =>
      rw [modLoop]
      split
      next hge =>
        rw [compare_nonneg_iff] at hge
        obtain ⟨k, hle, hshorter, hval⟩ := mod_round hm hge
        have hsub : ∀ y : BigInt, y.toNat = 2 ^ k * m.toNat →
            (modLoop m rounds (subtract r y)).toNat = r.toNat % m.toNat := fun y hy => by
          have hry := toNat_subtract (x := r) (y := y) (by rw [hy]; exact hle)
          rw [ih (by rw [hry, hy]; omega), hry, hy]
          conv_rhs => rw [← Nat.sub_add_cancel hle]
          rw [Nat.add_mul_mod_self_right]
        dsimp only
        split
        next hgt => rw [if_pos hgt] at hval; exact hsub _ hval
        next hgt => rw [if_neg hgt] at hval; exact hsub _ hval
      next hlt =>
        rw [compare_nonneg_iff, not_le] at hlt
        rw [Nat.mod_eq_of_lt hlt]

/-- The remainder is that of numbers, where the one by zero is the number itself. -/
@[simp] theorem toNat_mod (x m : BigInt) : (mod x m).toNat = x.toNat % m.toNat := by
  unfold mod
  split
  next h =>
    rw [isZero_iff, compare_neg_iff] at h
    rcases h with h | h
    · rw [h, Nat.mod_zero]
    · rw [Nat.mod_eq_of_lt h]
  next h =>
    rw [isZero_iff, not_or] at h
    exact toNat_modLoop h.1 _ (bitLength_eq x).ge

/-! ### Sums, differences and products modulo a number -/

variable {m : BigInt}

theorem modAdd_eq (x y : BigInt) (hm : m.toNat ≠ 0) :
    modAdd x y m = .ok (ofNat ((x.toNat + y.toNat) % m.toNat)) := by
  rw [modAdd, isZero_eq_false hm]
  simp only [Bool.false_eq_true, if_false]
  congr 1
  apply eq_ofNat
  simp [Nat.add_mod]

/-- The difference modulo the modulus, without a negative number in between. -/
theorem modSubtract_eq (x y : BigInt) (hm : m.toNat ≠ 0) :
    modSubtract x y m =
      .ok (ofNat ((x.toNat % m.toNat + (m.toNat - y.toNat % m.toNat)) % m.toNat)) := by
  have hx := Nat.mod_lt x.toNat (Nat.pos_of_ne_zero hm)
  have hy := Nat.mod_lt y.toNat (Nat.pos_of_ne_zero hm)
  have hxm := toNat_mod x m
  have hym := toNat_mod y m
  rw [modSubtract, isZero_eq_false hm]
  simp only [Bool.false_eq_true, if_false]
  rw [← hxm] at hx ⊢
  rw [← hym] at hy ⊢
  split
  next h =>
    rw [compare_nonneg_iff] at h
    congr 1
    apply eq_ofNat
    rw [toNat_subtract h, show (mod x m).toNat + (m.toNat - (mod y m).toNat) =
      (mod x m).toNat - (mod y m).toNat + m.toNat by omega, Nat.add_mod_right,
      Nat.mod_eq_of_lt (show (mod x m).toNat - (mod y m).toNat < m.toNat by omega)]
  next h =>
    rw [compare_nonneg_iff, not_le] at h
    congr 1
    apply eq_ofNat
    rw [toNat_subtract (by rw [toNat_add]; omega), toNat_add, Nat.add_sub_assoc hy.le,
      Nat.mod_eq_of_lt
        (show (mod x m).toNat + (m.toNat - (mod y m).toNat) < m.toNat by omega)]

theorem modMultiply_eq (x y : BigInt) (hm : m.toNat ≠ 0) :
    modMultiply x y m = .ok (ofNat (x.toNat * y.toNat % m.toNat)) := by
  rw [modMultiply, isZero_eq_false hm]
  simp only [Bool.false_eq_true, if_false]
  congr 1
  apply eq_ofNat
  simp [Nat.mul_mod]

/-! ### Exponentiation -/

/-- The power modulo the modulus. Before round `i` the result is the power for the low `i` bits of
the exponent, and the second register is the next square. -/
theorem modExp_eq (base exponent : BigInt) (hm : m.toNat ≠ 0) :
    modExp base exponent m = .ok (ofNat (base.toNat ^ exponent.toNat % m.toNat)) := by
  set b := base.toNat
  set e := exponent.toNat with he
  rw [modExp, isZero_eq_false hm]
  simp only [Bool.false_eq_true, if_false]
  congr 1
  apply eq_ofNat
  -- before round `i`: the low `i` bits are done, and `power` is the next square
  have hinv := Loops.loopUp_invariant (n := exponent.bitLength)
    (fun i (s : BigInt × BigInt) =>
      (if exponent.bit i then mod (multiply s.1 s.2) m else s.1, mod (multiply s.2 s.2) m))
    (fun i s => s.1.toNat = b ^ (e % 2 ^ i) % m.toNat ∧ s.2.toNat = b ^ 2 ^ i % m.toNat)
    (s := (mod one m, mod base m)) (by simp [Nat.mod_one, b]) (by
      rintro i - ⟨result, power⟩ ⟨hresult, hpower⟩
      simp only at hresult hpower ⊢
      constructor
      · rw [bit_eq, ← he, Loops.pow_mod_two_pow_succ]
        split
        · rw [toNat_mod, toNat_multiply, hresult, hpower, ← Nat.mul_mod]
        · exact hresult
      · rw [toNat_mod, toNat_multiply, hpower, ← Nat.mul_mod, ← pow_add, ← two_mul, ← pow_succ'])
  rw [bitLength_eq, ← he, Nat.mod_eq_of_lt (Nat.lt_size_self e)] at hinv
  rw [bitLength_eq, ← he]
  exact hinv.1

lemma length_le_of_lt {x y : BigInt} (h : x.toNat < y.toNat) : x.limbs.length ≤ y.limbs.length :=
  length_le_of_toNat_le h.le

/-- The selection with the mask of a bit, for numbers that the width holds. -/
lemma toNat_constantTimeSelect (b : Bool) {x y : BigInt} {width : ℕ} (hx : x.limbs.length ≤ width)
    (hy : y.limbs.length ≤ width) :
    (constantTimeSelect (maskOfBit b) x y width).toNat = if b then x.toNat else y.toNat := by
  rw [constantTimeSelect, toNat_ofLimbs, wordMaskFromByte_maskOfBit, Limbs.value_select b _ _ hx hy]
  rfl

/-- The ladder on any representation of the powers of the base by reduced numbers: when the products
represent products, the registers end at the representations of `x^e` and `x^(e+1)`. -/
lemma ladder_spec {width bits : ℕ} (mul : BigInt → BigInt → BigInt) (exponent : BigInt)
    (hwidth : width = m.limbs.length) (hbits : exponent.bitLength ≤ bits) (rep : ℕ → ℕ) (b : ℕ)
    (hmul : ∀ x y u v, x.toNat = rep u → y.toNat = rep v → (mul x y).toNat = rep (u * v))
    (hrep : ∀ u, rep u < m.toNat) (r0 r1 : BigInt) (h0 : r0.toNat = rep 1) (h1 : r1.toNat = rep b) :
    (Loops.loopDown (fun i (s : BigInt × BigInt) =>
      (constantTimeSelect (maskOfBit (exponent.bit i)) (mul s.1 s.2) (mul s.1 s.1) width,
        constantTimeSelect (maskOfBit (exponent.bit i)) (mul s.2 s.2) (mul s.1 s.2) width))
      bits (r0, r1)).1.toNat = rep (b ^ exponent.toNat) := by
  set e := exponent.toNat with he
  have hshort : ∀ x : BigInt, ∀ u, x.toNat = rep u → x.limbs.length ≤ width := fun x u hx => by
    rw [hwidth]
    exact length_le_of_lt (by rw [hx]; exact hrep u)
  have hstart : e / 2 ^ bits = 0 :=
    Nat.div_eq_of_lt (Nat.size_le.mp (by rwa [bitLength_eq] at hbits))
  have hinv := Loops.loopDown_invariant (n := bits)
    (fun i (s : BigInt × BigInt) =>
      (constantTimeSelect (maskOfBit (exponent.bit i)) (mul s.1 s.2) (mul s.1 s.1) width,
        constantTimeSelect (maskOfBit (exponent.bit i)) (mul s.2 s.2) (mul s.1 s.2) width))
    (fun i s => s.1.toNat = rep (b ^ (e / 2 ^ i)) ∧ s.2.toNat = rep (b ^ (e / 2 ^ i + 1)))
    (s := (r0, r1)) (by rw [hstart]; simpa using ⟨h0, h1⟩) (by
      rintro i - ⟨s0, s1⟩ ⟨hs0, hs1⟩
      simp only at hs0 hs1 ⊢
      have h01 := hmul _ _ _ _ hs0 hs1
      have h00 := hmul _ _ _ _ hs0 hs0
      have h11 := hmul _ _ _ _ hs1 hs1
      rw [toNat_constantTimeSelect _ (hshort _ _ h01) (hshort _ _ h00),
        toNat_constantTimeSelect _ (hshort _ _ h11) (hshort _ _ h01), bit_eq, ← he,
        Loops.pow_div_two_pow_ladder b e i, Loops.pow_div_two_pow_succ b e i, h01, h00, h11]
      cases e.testBit i <;> simp)
  simpa using hinv.1

/-- The parity of a number is read off its low limb. -/
lemma odd_of_low_limb {x : BigInt} (h : x.limbs.getD 0 0 &&& 1 ≠ 0) : x.toNat % 2 = 1 := by
  have hbit := Limbs.value_testBit x.limbs 0
  rw [Limbs.bit, Nat.zero_div, Nat.zero_mod] at hbit
  have htrue : (x.limbs.getD 0 0 >>> UInt32.ofNat 0) &&& 1 != 0 := by
    rw [show UInt32.ofNat 0 = 0 from rfl, UInt32.shiftRight_zero]
    simpa using h
  rw [htrue, Nat.testBit_zero] at hbit
  rw [toNat]
  simpa using hbit

lemma low_limb_ne_zero_of_odd {x : BigInt} (h : x.toNat % 2 = 1) :
    x.limbs.getD 0 0 &&& 1 ≠ 0 := by
  have hbit := Limbs.value_testBit x.limbs 0
  rw [Limbs.bit, Nat.zero_div, Nat.zero_mod, Nat.testBit_zero,
    show UInt32.ofNat 0 = 0 from rfl, UInt32.shiftRight_zero] at hbit
  have htrue : decide (Limbs.value x.limbs % 2 = 1) = true := by simpa [toNat] using h
  rw [htrue] at hbit
  simpa using hbit.symm

/-- Filling up does not change the value, and nothing is cut off a number that fits. -/
lemma value_fixedLimbs {x : BigInt} {size : ℕ} (h : x.limbs.length ≤ size) :
    Limbs.value (fixedLimbs x size) = x.toNat := by
  rw [fixedLimbs, List.take_of_length_le h, Limbs.value_append, Limbs.value_replicate_zero,
    mul_zero, add_zero, toNat]

lemma length_fixedLimbs (x : BigInt) (size : ℕ) : (fixedLimbs x size).length = size := by
  simp [fixedLimbs]
  omega

/-- The Montgomery product is reduced and is the product divided by `2^(32 * width)`, for any
factors, since they are reduced first. -/
lemma montgomeryMultiply_spec (hodd : m.limbs.getD 0 0 &&& 1 ≠ 0) (x y : BigInt) :
    let product := montgomeryMultiply m (Limbs.lowInverse (m.limbs.getD 0 0)) x y
    2 ^ (32 * m.limbs.length) * product.toNat ≡ x.toNat * y.toNat [MOD m.toNat] ∧
      product.toNat < m.toNat := by
  intro product
  have hmpos : 0 < m.toNat := Nat.pos_of_ne_zero fun h => by
    have := odd_of_low_limb hodd
    omega
  set width := m.limbs.length with hw
  have hlen : ∀ z : BigInt, (mod z m).limbs.length ≤ width := fun z =>
    length_le_of_lt (by rw [toNat_mod]; exact Nat.mod_lt _ hmpos)
  have hx := value_fixedLimbs (hlen x)
  have hy := value_fixedLimbs (hlen y)
  rw [toNat_mod] at hx hy
  obtain ⟨hmod, hlt⟩ := Limbs.montgomeryAccumulate_spec (fixedLimbs (mod x m) width)
    (fixedLimbs (mod y m) width) m.limbs (2 * width + 2) hodd (length_fixedLimbs _ _)
    (length_fixedLimbs _ _) (by omega) (by rw [hy]; exact Nat.mod_lt _ hmpos)
  set high := (Limbs.montgomeryAccumulate (fixedLimbs (mod x m) width) (fixedLimbs (mod y m) width)
    m.limbs (Limbs.lowInverse (m.limbs.getD 0 0)) (2 * width + 2)).drop width with hhigh
  rw [hx, hy] at hmod
  change _ < 2 * m.toNat at hlt
  -- The part above `width + 1` limbs is zero, so cutting it off loses nothing.
  have htake : (ofLimbs (high.take (width + 1))).toNat = Limbs.value high := by
    rw [toNat_ofLimbs, Limbs.value_take, Nat.mod_eq_of_lt]
    have hmlt : m.toNat < 2 ^ (32 * width) := Limbs.value_lt m.limbs
    have hroom : 2 * 2 ^ (32 * width) ≤ 2 ^ (32 * (width + 1)) := by
      rw [← pow_succ']
      exact Nat.pow_le_pow_right (by norm_num) (by omega)
    omega
  have hprod : 2 ^ (32 * width) * Limbs.value high ≡ x.toNat * y.toNat [MOD m.toNat] :=
    hmod.trans (Nat.ModEq.mul (Nat.mod_modEq _ _) (Nat.mod_modEq _ _))
  -- One conditional subtraction is enough for a value below twice the modulus.
  have hdef : product = if (ofLimbs (high.take (width + 1))).compare m ≥ 0 then
      subtract (ofLimbs (high.take (width + 1))) m else ofLimbs (high.take (width + 1)) := rfl
  rw [hdef]
  split
  next h =>
    rw [compare_nonneg_iff, htake] at h
    rw [toNat_subtract (by rw [htake]; exact h), htake]
    refine ⟨(Nat.ModEq.mul_left _ ?_).trans hprod, by omega⟩
    exact (Nat.modEq_iff_dvd' (Nat.sub_le _ _)).mpr (by rw [Nat.sub_sub_self h])
  next h =>
    rw [compare_nonneg_iff, htake, not_le] at h
    rw [htake]
    exact ⟨hprod, h⟩

lemma coprime_two_pow (hodd : m.toNat % 2 = 1) (k : ℕ) : Nat.Coprime m.toNat (2 ^ k) :=
  (Nat.coprime_two_right.mpr (Nat.odd_iff.mpr hodd)).pow_right k

/-- A Montgomery product of scaled factors is the scaled product. -/
lemma montgomeryMultiply_scaled (hodd : m.limbs.getD 0 0 &&& 1 ≠ 0) {x y : BigInt} {w : ℕ}
    (h : x.toNat * y.toNat ≡ 2 ^ (32 * m.limbs.length) * w [MOD m.toNat]) :
    (montgomeryMultiply m (Limbs.lowInverse (m.limbs.getD 0 0)) x y).toNat = w % m.toNat := by
  obtain ⟨hmod, hlt⟩ := montgomeryMultiply_spec hodd x y
  rw [← Nat.mod_eq_of_lt hlt]
  exact Nat.ModEq.cancel_left_of_coprime (coprime_two_pow (odd_of_low_limb hodd) _) (hmod.trans h)

/-- The ladder on Montgomery products gives the power, for odd moduli and enough rounds. -/
theorem modExpSecretMontgomery_eq (base exponent : BigInt) (hodd : m.toNat % 2 = 1) {bits : ℕ}
    (hbits : exponent.toNat.size ≤ bits) :
    modExpSecretMontgomery base exponent m bits =
      .ok (ofNat (base.toNat ^ exponent.toNat % m.toNat)) := by
  have hm : m.toNat ≠ 0 := by omega
  have hlow := low_limb_ne_zero_of_odd hodd
  set R := 2 ^ (32 * m.limbs.length) with hR
  rw [← bitLength_eq] at hbits
  rw [modExpSecretMontgomery, isZero_eq_false hm, if_neg (by simp), if_neg (by omega), if_neg hlow]
  refine congrArg Except.ok (eq_ofNat ?_)
  have hreduced : ∀ u, R * u % m.toNat < m.toNat := fun u => Nat.mod_lt _ (Nat.pos_of_ne_zero hm)
  have hr : (mod (shiftLeftBits one (m.limbs.length * 32)) m).toNat = R % m.toNat := by
    rw [toNat_mod, toNat_shiftLeftBits, toNat_one, mul_one, mul_comm m.limbs.length]
  -- multiplying by `R * R` scales a number by `R`
  have hscale : ∀ x : BigInt, (montgomeryMultiply m (Limbs.lowInverse (m.limbs.getD 0 0))
      (mod x m) (mod (multiply (mod (shiftLeftBits one (m.limbs.length * 32)) m)
        (mod (shiftLeftBits one (m.limbs.length * 32)) m)) m)).toNat = R * x.toNat % m.toNat :=
    fun x => montgomeryMultiply_scaled hlow (by
      rw [toNat_mod, toNat_mod, toNat_multiply, hr, ← Nat.mul_mod]
      refine (Nat.ModEq.mul (Nat.mod_modEq _ _) (Nat.mod_modEq _ _)).trans ?_
      rw [show x.toNat * (R * R) = R * (R * x.toNat) by ring])
  -- the registers hold `R` times the powers
  have hladder := ladder_spec (m := m)
    (montgomeryMultiply m (Limbs.lowInverse (m.limbs.getD 0 0))) exponent rfl hbits
    (fun u => R * u % m.toNat) base.toNat
    (fun x y u v hx hy => montgomeryMultiply_scaled hlow (by
      rw [hx, hy]
      refine (Nat.ModEq.mul (Nat.mod_modEq _ _) (Nat.mod_modEq _ _)).trans ?_
      rw [show R * u * (R * v) = R * (R * (u * v)) by ring]))
    hreduced (montgomeryMultiply m (Limbs.lowInverse (m.limbs.getD 0 0)) (mod one m) _) _
    (by rw [hscale, toNat_one]) (hscale base)
  exact montgomeryMultiply_scaled hlow (by
    rw [hladder, toNat_mod, toNat_one]
    refine (Nat.ModEq.mul (Nat.mod_modEq _ _) (Nat.mod_modEq _ _)).trans ?_
    rw [mul_one])

/-- The ladder that callers use gives the power for every modulus but zero, whichever products it
runs on. -/
theorem modExpSecret_eq (base exponent : BigInt) (hm : m.toNat ≠ 0) {bits : ℕ}
    (hbits : exponent.toNat.size ≤ bits) :
    modExpSecret base exponent m bits =
      .ok (ofNat (base.toNat ^ exponent.toNat % m.toNat)) := by
  have hbits' := hbits
  rw [← bitLength_eq] at hbits'
  rw [modExpSecret, isZero_eq_false hm, if_neg (by simp), if_neg (by omega)]
  split
  next h => exact modExpSecretMontgomery_eq base exponent (odd_of_low_limb h.2) hbits
  next =>
    refine congrArg Except.ok (eq_ofNat ?_)
    exact ladder_spec (m := m) (fun x y => mod (multiply x y) m) exponent rfl hbits'
      (fun u => u % m.toNat) base.toNat
      (fun x y u v hx hy => by rw [toNat_mod, toNat_multiply, hx, hy, ← Nat.mul_mod])
      (fun u => Nat.mod_lt _ (Nat.pos_of_ne_zero hm)) _ _ (by simp) (by simp)

end BigInt

end CryptoCore
