import Mathlib.Data.Nat.Bitwise
import Mathlib.Data.Nat.Size
import Mathlib.Tactic
import CryptoCore.Framework.ByteStrings

/-!
# Little-endian limb vectors

A multi-precision number is a list of 32-bit limbs, least significant first, and `value` is the
natural number it stands for. Everything a loop over limbs does is said once here, in terms of
`value`:

* `carryLoop` is the loop that adds something limb by limb and keeps the excess in a 64-bit carry,
  `borrowLoop` its counterpart for subtraction;
* `compareDown`, `lessMask` and `select` are the comparisons, by branching and by masks;
* `loadLimbs` and `storeBytes` convert from and to big-endian byte strings.

A loop that reads `i < size ? limbs[i] : 0` reads `limbs.getD i 0`, so the terms of a loop are a
function of the index and `weigh` is the number those terms add up to.

Two kinds of numbers are built on this. One keeps its vectors in normal form, without a most
significant zero limb; then the value determines the vector (`normal_injective`) and bounds its
length. The other keeps the length fixed, and then the value determines the vector of that length
(`value_injective`). The lemmas about loops are stated for both: a loop over `n` limbs only asks
that the vectors it reads are not longer than `n`.

Arithmetic on the limbs themselves wraps around at 64 bits, as it does in a program. That it does
not do so inside a carry loop is the hypothesis `bound` of `carryLoop_spec`, an invariant of the
carry.
-/

namespace Limbs

/-! ## Value -/

/-- The number a limb vector stands for, the first limb being the lowest. -/
def value : List UInt32 → ℕ
  | [] => 0
  | l :: ls => l.toNat + 2 ^ 32 * value ls

@[simp] lemma value_nil : value [] = 0 := rfl

@[simp] lemma value_cons (l : UInt32) (ls : List UInt32) :
    value (l :: ls) = l.toNat + 2 ^ 32 * value ls := rfl

lemma limb_lt (l : UInt32) : l.toNat < 2 ^ 32 := l.toNat_lt

lemma value_append (as bs : List UInt32) :
    value (as ++ bs) = value as + 2 ^ (32 * as.length) * value bs := by
  induction as with
  | nil => simp
  | cons a as ih =>
      rw [List.cons_append, value_cons, ih, value_cons, List.length_cons, Nat.mul_succ, pow_add]
      ring

lemma value_lt (ls : List UInt32) : value ls < 2 ^ (32 * ls.length) := by
  induction ls with
  | nil => simp
  | cons l ls ih =>
      have hl := limb_lt l
      rw [value_cons, List.length_cons, Nat.mul_succ, pow_add]
      calc l.toNat + 2 ^ 32 * value ls < 2 ^ 32 * (value ls + 1) := by omega
        _ ≤ 2 ^ 32 * 2 ^ (32 * ls.length) := Nat.mul_le_mul_left _ ih
        _ = 2 ^ (32 * ls.length) * 2 ^ 32 := mul_comm _ _

@[simp] lemma value_replicate_zero (n : ℕ) : value (List.replicate n 0) = 0 := by
  induction n with
  | zero => rfl
  | succ n ih => simp [List.replicate_succ, ih]

/-- A limb vector is determined by its length and its value. -/
lemma value_injective {as bs : List UInt32} (hlen : as.length = bs.length)
    (hval : value as = value bs) : as = bs := by
  induction as generalizing bs with
  | nil => exact (List.length_eq_zero_iff.mp hlen.symm).symm
  | cons a as ih =>
      obtain _ | ⟨b, bs⟩ := bs
      · simp at hlen
      have ha := limb_lt a
      have hb := limb_lt b
      rw [value_cons, value_cons] at hval
      have hhead : a.toNat = b.toNat := by omega
      have htail : value as = value bs := by omega
      rw [UInt32.toNat_inj.mp hhead, ih (by simpa using hlen) htail]

lemma value_eq_zero_iff (ls : List UInt32) : value ls = 0 ↔ ∀ l ∈ ls, l = 0 := by
  induction ls with
  | nil => simp
  | cons l ls ih =>
      rw [value_cons, List.forall_mem_cons, ← ih, ← UInt32.toNat_inj]
      simp

/-- Splitting a limb vector splits its value into quotient and remainder. -/
lemma value_take_add (ls : List UInt32) (n : ℕ) (hn : n ≤ ls.length) :
    value ls = value (ls.take n) + 2 ^ (32 * n) * value (ls.drop n) := by
  conv_lhs => rw [← List.take_append_drop n ls]
  rw [value_append, List.length_take, min_eq_left hn]

lemma value_take (ls : List UInt32) (n : ℕ) : value (ls.take n) = value ls % 2 ^ (32 * n) := by
  rcases le_total n ls.length with h | h
  · have hlt := value_lt (ls.take n)
    rw [List.length_take, min_eq_left h] at hlt
    rw [value_take_add ls n h, Nat.add_mul_mod_self_left, Nat.mod_eq_of_lt hlt]
  · rw [List.take_of_length_le h, Nat.mod_eq_of_lt]
    exact (value_lt ls).trans_le (Nat.pow_le_pow_right (by norm_num) (by omega))

lemma value_drop (ls : List UInt32) (n : ℕ) : value (ls.drop n) = value ls / 2 ^ (32 * n) := by
  rcases le_total n ls.length with h | h
  · have hlt := value_lt (ls.take n)
    rw [List.length_take, min_eq_left h] at hlt
    rw [value_take_add ls n h, Nat.add_mul_div_left _ _ (by positivity), Nat.div_eq_of_lt hlt,
      zero_add]
  · rw [List.drop_of_length_le h, value_nil, Nat.div_eq_of_lt]
    exact (value_lt ls).trans_le (Nat.pow_le_pow_right (by norm_num) (by omega))

/-! ## Normal form -/

/-- Popping the most significant zero limbs, which are at the end of the vector. -/
def normalize (ls : List UInt32) : List UInt32 :=
  ls.rdropWhile (· == 0)

/-- No most significant zero limb. The vector of the number zero has no limbs at all. -/
def Normal (ls : List UInt32) : Prop :=
  ls.getLast? ≠ some 0

lemma value_normalize (ls : List UInt32) : value (normalize ls) = value ls := by
  unfold normalize
  induction ls using List.reverseRecOn with
  | nil => simp
  | append_singleton ls l ih =>
      by_cases hl : l = 0
      · subst hl
        simp [ih, value_append]
      · rw [List.rdropWhile_concat_neg _ _ _ (by simp [hl])]

lemma normal_normalize (ls : List UInt32) : Normal (normalize ls) := by
  unfold normalize Normal
  induction ls using List.reverseRecOn with
  | nil => simp
  | append_singleton ls l ih =>
      by_cases hl : l = 0
      · subst hl
        simpa using ih
      · rw [List.rdropWhile_concat_neg _ _ _ (by simp [hl])]
        simp [hl]

lemma normalize_eq_self {ls : List UInt32} (h : Normal ls) : normalize ls = ls := by
  unfold normalize
  induction ls using List.reverseRecOn with
  | nil => simp
  | append_singleton ls l _ =>
      have hl : l ≠ 0 := by simpa [Normal] using h
      rw [List.rdropWhile_concat_neg _ _ _ (by simp [hl])]

/-- The top limb of a normal vector makes it as long as its value needs: without that limb the value
would be too large to be stored. -/
lemma le_value_of_normal {ls : List UInt32} (h : Normal ls) (hne : ls ≠ []) :
    2 ^ (32 * (ls.length - 1)) ≤ value ls := by
  obtain ⟨ls, l, rfl⟩ := (List.eq_nil_or_concat' ls).resolve_left hne
  have hl : l ≠ 0 := by simpa [Normal] using h
  have hpos : 0 < l.toNat := Nat.pos_of_ne_zero fun h0 => hl (UInt32.toNat_inj.mp h0)
  rw [value_append, List.length_append, List.length_singleton, Nat.add_sub_cancel]
  calc 2 ^ (32 * ls.length) ≤ 2 ^ (32 * ls.length) * l.toNat := Nat.le_mul_of_pos_right _ hpos
    _ ≤ _ := by simp

/-- A normal vector is at most as long as any bound on its value allows. -/
lemma length_le_of_normal {ls : List UInt32} (h : Normal ls) {n : ℕ}
    (hlt : value ls < 2 ^ (32 * n)) : ls.length ≤ n := by
  rcases eq_or_ne ls [] with rfl | hne
  · simp
  · have hle := (le_value_of_normal h hne).trans_lt hlt
    have := (Nat.pow_lt_pow_iff_right (by norm_num)).mp hle
    omega

/-- A number has one normal limb vector. -/
lemma normal_injective {as bs : List UInt32} (ha : Normal as) (hb : Normal bs)
    (h : value as = value bs) : as = bs :=
  value_injective (le_antisymm (length_le_of_normal ha (h ▸ value_lt bs))
    (length_le_of_normal hb (h ▸ value_lt as))) h

lemma value_eq_zero_iff_of_normal {ls : List UInt32} (h : Normal ls) : value ls = 0 ↔ ls = [] :=
  ⟨fun h0 => normal_injective h (by simp [Normal]) (by simpa using h0), by rintro rfl; rfl⟩

/-! ## Loops with a carry -/

/-- The number that `n` terms from index `i` on add up to, the first of them being the lowest. A
term may be more than a limb. -/
def weigh (term : ℕ → ℕ) : ℕ → ℕ → ℕ
  | _, 0 => 0
  | i, n + 1 => term i + 2 ^ 32 * weigh term (i + 1) n

lemma weigh_add (s t : ℕ → ℕ) (i n : ℕ) :
    weigh (fun k => s k + t k) i n = weigh s i n + weigh t i n := by
  induction n generalizing i with
  | zero => rfl
  | succ n ih =>
      simp only [weigh, ih]
      ring

lemma weigh_mul (c : ℕ) (t : ℕ → ℕ) (i n : ℕ) :
    weigh (fun k => c * t k) i n = c * weigh t i n := by
  induction n generalizing i with
  | zero => rfl
  | succ n ih =>
      simp only [weigh, ih]
      ring

lemma weigh_getD (ls : List UInt32) (i n : ℕ) :
    weigh (fun k => (ls.getD k 0).toNat) i n = value ((ls.drop i).take n) := by
  induction n generalizing i with
  | zero => simp [weigh]
  | succ n ih =>
      rcases lt_or_ge i ls.length with h | h
      · rw [weigh, ih, List.drop_eq_getElem_cons h, List.take_succ_cons, value_cons,
          List.getD_eq_getElem _ _ h]
      · have hn := ih (i + 1)
        rw [List.drop_of_length_le (by omega)] at hn
        rw [weigh, hn, List.drop_of_length_le h, List.getD_eq_default _ _ h]
        simp

/-- The terms `limbs[i]`, zero beyond the end, add up to the number itself. -/
lemma weigh_limbs {ls : List UInt32} {n : ℕ} (h : ls.length ≤ n) :
    weigh (fun k => (ls.getD k 0).toNat) 0 n = value ls := by
  rw [weigh_getD, List.drop_zero, List.take_of_length_le h]

/-- The loop `sum = step i carry; output[i] = low limb of sum; carry = sum >> 32` for `n` limbs
from index `i` on: the limbs written and the carry that is left. -/
def carryLoop (step : ℕ → UInt64 → UInt64) : ℕ → ℕ → UInt64 → List UInt32 × UInt64
  | _, 0, carry => ([], carry)
  | i, n + 1, carry =>
      let sum := step i carry
      let rest := carryLoop step (i + 1) n (sum >>> 32)
      (sum.toUInt32 :: rest.1, rest.2)

@[simp] lemma length_carryLoop (step : ℕ → UInt64 → UInt64) (i n : ℕ) (c : UInt64) :
    (carryLoop step i n c).1.length = n := by
  induction n generalizing i c with
  | zero => rfl
  | succ n ih => simp [carryLoop, ih]

lemma toNat_shiftRight_32 (s : UInt64) : (s >>> 32).toNat = s.toNat / 2 ^ 32 := by
  simp [Nat.shiftRight_eq_div_pow]

/-- A 64-bit sum is its low limb and the carry. -/
lemma low_add_carry (s : UInt64) : s.toUInt32.toNat + 2 ^ 32 * (s >>> 32).toNat = s.toNat := by
  rw [toNat_shiftRight_32, UInt64.toNat_toUInt32]
  omega

/-- What a carry loop computes: when no step overflows 64 bits (`bound` bounds the carries), the
limbs and the last carry together are the weighted sum of the terms. -/
lemma carryLoop_spec {step : ℕ → UInt64 → UInt64} {term : ℕ → ℕ} (bound : ℕ)
    (hstep : ∀ i c, c.toNat < bound →
      (step i c).toNat = term i + c.toNat ∧ (step i c).toNat / 2 ^ 32 < bound)
    (i n : ℕ) {c : UInt64} (hc : c.toNat < bound) :
    value (carryLoop step i n c).1 + 2 ^ (32 * n) * (carryLoop step i n c).2.toNat =
        weigh term i n + c.toNat ∧
      (carryLoop step i n c).2.toNat < bound := by
  induction n generalizing i c with
  | zero => simp [carryLoop, weigh, hc]
  | succ n ih =>
      obtain ⟨hsum, hcarry⟩ := hstep i c hc
      rw [← toNat_shiftRight_32] at hcarry
      obtain ⟨hval, hlast⟩ := ih (i + 1) hcarry
      refine ⟨?_, hlast⟩
      have hlow := low_add_carry (step i c)
      simp only [carryLoop, value_cons, weigh]
      rw [Nat.mul_succ, pow_add]
      linear_combination hlow + hsum + 2 ^ 32 * hval

/-! ## Loops with a borrow -/

/-- The loop `output[i] = digit left (right + borrow); borrow = left < right + borrow` for `n`
limbs from index `i` on. -/
def borrowLoop (digit : UInt64 → UInt64 → UInt32) (left right : ℕ → UInt32) :
    ℕ → ℕ → UInt64 → List UInt32 × UInt64
  | _, 0, borrow => ([], borrow)
  | i, n + 1, borrow =>
      let l := (left i).toUInt64
      let r := (right i).toUInt64 + borrow
      let rest := borrowLoop digit left right (i + 1) n (if l < r then 1 else 0)
      (digit l r :: rest.1, rest.2)

/-- The digit of a subtraction step that branches on the borrow, and adds the weight of a limb when
there is one. -/
def digitBranch (left right : UInt64) : UInt32 :=
  if right ≤ left then (left - right).toUInt32
  else (((1 : UInt64) <<< 32) + left - right).toUInt32

/-- The digit of a subtraction step that lets the difference wrap. The low limb is the same. -/
def digitWrap (left right : UInt64) : UInt32 :=
  (left - right).toUInt32

lemma digitBranch_eq_digitWrap : digitBranch = digitWrap := by
  funext l r
  unfold digitBranch digitWrap
  split
  · rfl
  · have h32 : ((1 : UInt64) <<< 32).toNat = 2 ^ 32 := rfl
    apply UInt32.toNat_inj.mp
    rw [UInt64.toNat_toUInt32, UInt64.toNat_toUInt32, UInt64.toNat_sub, UInt64.toNat_sub,
      UInt64.toNat_add, h32]
    have := l.toNat_lt
    have := r.toNat_lt
    omega

@[simp] lemma length_borrowLoop (digit : UInt64 → UInt64 → UInt32) (left right : ℕ → UInt32)
    (i n : ℕ) (b : UInt64) : (borrowLoop digit left right i n b).1.length = n := by
  induction n generalizing i b with
  | zero => rfl
  | succ n ih => simp [borrowLoop, ih]

/-- One subtraction step: the digit minus the new borrow is the difference. -/
lemma digitWrap_step (l r : UInt32) {b : UInt64} (hb : b.toNat < 2) :
    (digitWrap l.toUInt64 (r.toUInt64 + b)).toNat + r.toNat + b.toNat =
      l.toNat + 2 ^ 32 * (if l.toUInt64 < r.toUInt64 + b then (1 : UInt64) else 0).toNat := by
  have hl := limb_lt l
  have hr := limb_lt r
  have hsum : (r.toUInt64 + b).toNat = r.toNat + b.toNat := by
    rw [UInt64.toNat_add, UInt32.toNat_toUInt64]
    omega
  have hdigit : (digitWrap l.toUInt64 (r.toUInt64 + b)).toNat =
      (2 ^ 64 - (r.toNat + b.toNat) + l.toNat) % 2 ^ 64 % 2 ^ 32 := by
    rw [digitWrap, UInt64.toNat_toUInt32, UInt64.toNat_sub, hsum, UInt32.toNat_toUInt64]
  rw [hdigit]
  split
  next h =>
    rw [UInt64.lt_iff_toNat_lt, hsum, UInt32.toNat_toUInt64] at h
    simp only [UInt64.toNat_one]
    omega
  next h =>
    rw [UInt64.lt_iff_toNat_lt, hsum, UInt32.toNat_toUInt64] at h
    simp only [UInt64.toNat_zero]
    omega

lemma borrowLoop_spec (left right : ℕ → UInt32) (i n : ℕ) {b : UInt64} (hb : b.toNat < 2) :
    value (borrowLoop digitWrap left right i n b).1 + weigh (fun k => (right k).toNat) i n +
        b.toNat =
      weigh (fun k => (left k).toNat) i n +
        2 ^ (32 * n) * (borrowLoop digitWrap left right i n b).2.toNat ∧
      (borrowLoop digitWrap left right i n b).2.toNat < 2 := by
  induction n generalizing i b with
  | zero => simp [borrowLoop, weigh, hb]
  | succ n ih =>
      have hstep := digitWrap_step (left i) (right i) hb
      have hb' :
          (if (left i).toUInt64 < (right i).toUInt64 + b then (1 : UInt64) else 0).toNat < 2 := by
        split <;> simp
      obtain ⟨hval, hlast⟩ := ih (i + 1) hb'
      refine ⟨?_, hlast⟩
      simp only [borrowLoop, value_cons, weigh]
      rw [Nat.mul_succ, pow_add]
      linear_combination hstep + 2 ^ 32 * hval

/-- A subtraction that does not borrow at the end is the difference. This is the case of the larger
number on the left. -/
lemma borrowLoop_sub {ls rs : List UInt32} {n : ℕ} (hl : ls.length ≤ n) (hr : rs.length ≤ n)
    (hle : value rs ≤ value ls) :
    value (borrowLoop digitWrap (ls.getD · 0) (rs.getD · 0) 0 n 0).1 = value ls - value rs := by
  obtain ⟨hval, -⟩ := borrowLoop_spec (ls.getD · 0) (rs.getD · 0) 0 n (b := 0) (by simp)
  rw [weigh_limbs hl, weigh_limbs hr] at hval
  have hlt := value_lt (borrowLoop digitWrap (ls.getD · 0) (rs.getD · 0) 0 n 0).1
  rw [length_borrowLoop] at hlt
  have hls : value ls < 2 ^ (32 * n) :=
    (value_lt ls).trans_le (Nat.pow_le_pow_right (by norm_num) (by omega))
  set out := borrowLoop digitWrap (ls.getD · 0) (rs.getD · 0) 0 n 0
  have hzero : out.2.toNat = 0 := by
    by_contra hne
    have : 2 ^ (32 * n) ≤ 2 ^ (32 * n) * out.2.toNat :=
      Nat.le_mul_of_pos_right _ (Nat.pos_of_ne_zero hne)
    simp at hval
    omega
  simp [hzero] at hval
  omega

/-- A subtraction at a fixed width wraps around. -/
lemma borrowLoop_wrap (ls rs : List UInt32) {n : ℕ} (hl : ls.length ≤ n) (hr : rs.length ≤ n) :
    (value (borrowLoop digitWrap (ls.getD · 0) (rs.getD · 0) 0 n 0).1 + value rs) % 2 ^ (32 * n) =
      value ls % 2 ^ (32 * n) := by
  obtain ⟨hval, -⟩ := borrowLoop_spec (ls.getD · 0) (rs.getD · 0) 0 n (b := 0) (by simp)
  rw [weigh_limbs hl, weigh_limbs hr] at hval
  simp only [UInt64.toNat_zero, add_zero] at hval
  rw [hval, Nat.add_mul_mod_self_left]

/-- The loop that shifts by one bit, from the least significant limb up, and the bit that leaves
the last limb. -/
def shiftLeftOne : List UInt32 → UInt32 → List UInt32 × UInt32
  | [], carry => ([], carry)
  | l :: ls, carry =>
      let rest := shiftLeftOne ls (l >>> 31)
      (((l <<< 1) ||| carry) :: rest.1, rest.2)

@[simp] lemma length_shiftLeftOne (ls : List UInt32) (carry : UInt32) :
    (shiftLeftOne ls carry).1.length = ls.length := by
  induction ls generalizing carry with
  | nil => rfl
  | cons l ls ih => simp [shiftLeftOne, ih]

/-- One limb of the shift: the new limb and the bit that goes on. -/
lemma shiftLeftOne_step (l : UInt32) {carry : UInt32} (h : carry.toNat < 2) :
    ((l <<< 1) ||| carry).toNat + 2 ^ 32 * (l >>> 31).toNat = 2 * l.toNat + carry.toNat ∧
      (l >>> 31).toNat < 2 := by
  have hl := limb_lt l
  have hshift : (l <<< 1).toNat = l.toNat * 2 % 2 ^ 32 := by
    simp [UInt32.toNat_shiftLeft, Nat.shiftLeft_eq]
  have hhigh : (l >>> 31).toNat = l.toNat / 2 ^ 31 := by
    simp [UInt32.toNat_shiftRight, Nat.shiftRight_eq_div_pow]
  have hdvd : (l <<< 1).toNat = 2 ^ 1 * ((l <<< 1).toNat / 2) := by omega
  have hor : ((l <<< 1) ||| carry).toNat = (l <<< 1).toNat + carry.toNat := by
    rw [UInt32.toNat_or, hdvd]
    exact (Nat.two_pow_add_eq_or_of_lt h _).symm
  rw [hor, hshift, hhigh]
  omega

lemma value_shiftLeftOne (ls : List UInt32) {carry : UInt32} (h : carry.toNat < 2) :
    value (shiftLeftOne ls carry).1 + 2 ^ (32 * ls.length) * (shiftLeftOne ls carry).2.toNat =
        2 * value ls + carry.toNat ∧ (shiftLeftOne ls carry).2.toNat < 2 := by
  induction ls generalizing carry with
  | nil => simpa [shiftLeftOne] using h
  | cons l ls ih =>
      obtain ⟨hlimb, hcarry⟩ := shiftLeftOne_step l h
      obtain ⟨hrest, hbit⟩ := ih hcarry
      refine ⟨?_, hbit⟩
      simp only [shiftLeftOne, value_cons, List.length_cons, Nat.mul_succ, pow_add]
      linear_combination hlimb + 2 ^ 32 * hrest

/-! ## Comparison -/

/-- The loop of a comparison from the most significant limb down: `-1`, `0` or `1`, at the first
limb that differs. -/
def compareDown : List UInt32 → List UInt32 → ℤ
  | l :: ls, r :: rs => if l < r then -1 else if r < l then 1 else compareDown ls rs
  | _, _ => 0

/-- The loop of a comparison with masks: the two masks `less` and `greater` after all limbs,
most significant first. -/
def compareMasks : List UInt32 → List UInt32 → UInt32 × UInt32 → UInt32 × UInt32
  | l :: ls, r :: rs, (less, greater) =>
      let undecided := ~~~(less ||| greater)
      compareMasks ls rs
        (less ||| undecided &&& (0 - if l < r then 1 else 0),
          greater ||| undecided &&& (0 - if r < l then 1 else 0))
  | _, _, masks => masks

/-- The most significant limb decides a comparison. -/
lemma value_concat_lt {as bs : List UInt32} {a b : UInt32} (hlen : as.length = bs.length)
    (h : a < b) : value (as ++ [a]) < value (bs ++ [b]) := by
  have hlt := value_lt as
  have hab : a.toNat + 1 ≤ b.toNat := UInt32.lt_iff_toNat_lt.mp h
  rw [value_append, value_append, ← hlen]
  simp only [value_cons, value_nil, mul_zero, add_zero]
  calc value as + 2 ^ (32 * as.length) * a.toNat
      < 2 ^ (32 * as.length) * (a.toNat + 1) := by rw [mul_add, mul_one]; omega
    _ ≤ 2 ^ (32 * as.length) * b.toNat := Nat.mul_le_mul_left _ hab
    _ ≤ _ := Nat.le_add_left _ _

/-- Induction on two vectors of one length, which get their top limbs together. The comparisons read
the vectors in this order. -/
@[elab_as_elim]
lemma concat_induction {motive : List UInt32 → List UInt32 → Prop} (nil : motive [] [])
    (concat : ∀ as a bs b, as.length = bs.length → motive as bs →
      motive (as ++ [a]) (bs ++ [b])) :
    ∀ as bs : List UInt32, as.length = bs.length → motive as bs := by
  intro as
  induction as using List.reverseRecOn with
  | nil =>
      intro bs hlen
      obtain rfl := List.length_eq_zero_iff.mp hlen.symm
      exact nil
  | append_singleton as a ih =>
      intro bs hlen
      obtain rfl | ⟨bs, b, rfl⟩ := List.eq_nil_or_concat' bs
      · simp at hlen
      have hlen' : as.length = bs.length := by simpa using hlen
      exact concat as a bs b hlen' (ih bs hlen')

lemma eq_of_not_lt {a b : UInt32} (h₁ : ¬ a < b) (h₂ : ¬ b < a) : a = b := by
  rw [UInt32.lt_iff_toNat_lt] at h₁ h₂
  exact UInt32.toNat_inj.mp (by omega)

lemma compareDown_reverse {as bs : List UInt32} (hlen : as.length = bs.length) :
    compareDown as.reverse bs.reverse = ((value as : ℤ) - value bs).sign := by
  refine concat_induction ?_ (fun as a bs b hlen ih => ?_) as bs hlen
  · simp [compareDown]
  · simp only [List.reverse_append, List.reverse_cons, List.reverse_nil, List.nil_append,
      List.cons_append, compareDown]
    split_ifs with h₁ h₂
    · have := value_concat_lt hlen h₁
      rw [Int.sign_eq_neg_one_of_neg (by omega)]
    · have := value_concat_lt hlen.symm h₂
      rw [Int.sign_eq_one_of_pos (by omega)]
    · rw [ih, value_append, value_append, eq_of_not_lt h₁ h₂, hlen]
      congr 1
      push_cast
      ring

/-- Once a mask is set it decides the comparison, and the limbs below change nothing. -/
lemma compareMasks_decided (ls rs : List UInt32) (less greater : UInt32)
    (h : less ||| greater = 0xFFFFFFFF) :
    compareMasks ls rs (less, greater) = (less, greater) := by
  induction ls generalizing rs with
  | nil => simp [compareMasks]
  | cons l ls ih =>
      cases rs with
      | nil => simp [compareMasks]
      | cons r rs =>
          simp only [compareMasks]
          rw [h, show ~~~(0xFFFFFFFF : UInt32) = 0 from rfl, UInt32.zero_and, UInt32.or_zero,
            UInt32.zero_and, UInt32.or_zero, ih]

lemma compareMasks_reverse (as bs : List UInt32) (hlen : as.length = bs.length) :
    (compareMasks as.reverse bs.reverse (0, 0)).1 =
      if value as < value bs then 0xFFFFFFFF else 0 := by
  refine concat_induction ?_ (fun as a bs b hlen ih => ?_) as bs hlen
  · simp [compareMasks]
  · simp only [List.reverse_append, List.reverse_cons, List.reverse_nil, List.nil_append,
      List.cons_append, compareMasks]
    by_cases h₁ : a < b
    · have h₂ : ¬ b < a := by
        rw [UInt32.lt_iff_toNat_lt] at h₁ ⊢
        omega
      rw [if_pos h₁, if_neg h₂, compareMasks_decided _ _ _ _ (by decide),
        if_pos (value_concat_lt hlen h₁)]
      rfl
    by_cases h₂ : b < a
    · have hnot := (value_concat_lt hlen.symm h₂).not_gt
      rw [if_neg h₁, if_pos h₂, compareMasks_decided _ _ _ _ (by decide), if_neg hnot]
      rfl
    · have hiff : value (as ++ [a]) < value (bs ++ [b]) ↔ value as < value bs := by
        rw [value_append, value_append, eq_of_not_lt h₁ h₂, hlen]
        omega
      simp only [if_neg h₁, if_neg h₂, hiff]
      exact ih

/-! ## Selection -/

/-- The loop `output[i] = (set[i] & mask) | (clear[i] & ~mask)`. -/
def select (mask : UInt32) (set clear : ℕ → UInt32) (n : ℕ) : List UInt32 :=
  (List.range n).map fun i => (set i &&& mask) ||| (clear i &&& ~~~mask)

@[simp] lemma length_select (mask : UInt32) (set clear : ℕ → UInt32) (n : ℕ) :
    (select mask set clear n).length = n := by
  simp [select]

lemma map_getD_range {ls : List UInt32} {n : ℕ} (h : ls.length ≤ n) :
    (List.range n).map (ls.getD · 0) = ls ++ List.replicate (n - ls.length) 0 := by
  apply List.ext_getElem
  · simp [h]
  · intro i h₁ h₂
    rcases lt_or_ge i ls.length with hi | hi
    · simp [hi]
    · simp [hi, List.getElem_append_right hi]

/-- A selection takes one of its two inputs, filled up with zeros: the mask is all ones or all
zeros. -/
lemma value_select (b : Bool) (set clear : List UInt32) {n : ℕ} (hs : set.length ≤ n)
    (hc : clear.length ≤ n) :
    value (select (0 - if b then 1 else 0) (set.getD · 0) (clear.getD · 0) n) =
      if b then value set else value clear := by
  have hones : ∀ l : UInt32, l &&& (0 - 1) = l := fun l => by
    rw [show (0 - 1 : UInt32) = -1 from rfl, UInt32.and_neg_one]
  cases b with
  | true =>
      have : ∀ l m : UInt32, (l &&& (0 - 1)) ||| (m &&& ~~~(0 - 1)) = l := fun l m => by
        rw [hones, show ~~~(0 - 1 : UInt32) = 0 from rfl, UInt32.and_zero, UInt32.or_zero]
      simp only [select, if_true, this, map_getD_range hs, value_append, value_replicate_zero,
        mul_zero, add_zero]
  | false =>
      have : ∀ l m : UInt32, (l &&& (0 - 0)) ||| (m &&& ~~~(0 - 0)) = m := fun l m => by
        rw [show (0 - 0 : UInt32) = 0 from rfl, UInt32.and_zero, UInt32.zero_or,
          show ~~~(0 : UInt32) = -1 from rfl, UInt32.and_neg_one]
      simp only [select, if_false, Bool.false_eq_true, this, map_getD_range hc, value_append,
        value_replicate_zero, mul_zero, add_zero]

/-! ## Bits -/

/-- Bit `i` of a limb vector, `false` beyond its end. -/
def bit (ls : List UInt32) (i : ℕ) : Bool :=
  (ls.getD (i / 32) 0 >>> UInt32.ofNat (i % 32)) &&& 1 != 0

lemma limb_bit (l : UInt32) {k : ℕ} (hk : k < 32) :
    ((l >>> UInt32.ofNat k) &&& 1 != 0) = l.toNat.testBit k := by
  have hval : ((l >>> UInt32.ofNat k) &&& 1).toNat = l.toNat / 2 ^ k % 2 := by
    simp [UInt32.toNat_and, UInt32.toNat_shiftRight, Nat.shiftRight_eq_div_pow, Nat.mod_eq_of_lt hk]
  rw [Nat.testBit_eq_decide_div_mod_eq, Bool.eq_iff_iff, bne_iff_ne, decide_eq_true_iff, Ne,
    ← UInt32.toNat_inj, hval, UInt32.toNat_zero]
  omega

lemma value_testBit (ls : List UInt32) (i : ℕ) : (value ls).testBit i = bit ls i := by
  unfold bit
  rw [limb_bit _ (Nat.mod_lt _ (by norm_num))]
  induction ls generalizing i with
  | nil => simp
  | cons l ls ih =>
      rw [value_cons, add_comm, Nat.testBit_two_pow_mul_add _ (limb_lt l)]
      split
      next h => rw [Nat.div_eq_of_lt h, Nat.mod_eq_of_lt h]; rfl
      next h =>
        have hdiv : i / 32 = (i - 32) / 32 + 1 := by omega
        have hmod : i % 32 = (i - 32) % 32 := by omega
        rw [hdiv, hmod, List.getD_cons_succ, ih]

/-- The loop that looks for the highest set bit below bit `k` of a limb, from the top. -/
def highBit (high : UInt32) : ℕ → ℕ
  | 0 => 0
  | k + 1 => if (high >>> UInt32.ofNat k) &&& 1 != 0 then k + 1 else highBit high k

/-- The number of bits of a limb vector, read off its last limb. An empty vector has no bits. -/
def bitLength (ls : List UInt32) : ℕ :=
  match ls.getLast? with
  | none => 0
  | some high => (ls.length - 1) * 32 + highBit high 32

lemma size_eq_succ {n k : ℕ} (hle : 2 ^ k ≤ n) (hlt : n < 2 ^ (k + 1)) : n.size = k + 1 :=
  le_antisymm (Nat.size_le.mpr hlt) (Nat.lt_size.mpr hle)

lemma highBit_eq_size (l : UInt32) {k : ℕ} (hk : k ≤ 32) :
    highBit l k = (l.toNat % 2 ^ k).size := by
  induction k with
  | zero => simp [highBit, Nat.mod_one]
  | succ k ih =>
      have hmod : l.toNat % 2 ^ (k + 1) = l.toNat % 2 ^ k + 2 ^ k * (l.toNat / 2 ^ k % 2) := by
        rw [pow_succ, Nat.mod_mul]
      have hlt : l.toNat % 2 ^ k < 2 ^ k := Nat.mod_lt _ (by positivity)
      rw [highBit, limb_bit l (by omega), ih (by omega), Nat.testBit_eq_decide_div_mod_eq]
      by_cases hbit : l.toNat / 2 ^ k % 2 = 1
      · rw [hbit, mul_one] at hmod
        rw [if_pos (by simpa using hbit), hmod,
          size_eq_succ (Nat.le_add_left _ _) (by rw [pow_succ]; omega)]
      · have hzero : l.toNat / 2 ^ k % 2 = 0 := by omega
        rw [hzero, mul_zero, add_zero] at hmod
        rw [if_neg (by simpa using hbit), hmod]

/-- The bit length of a normal limb vector is that of its value. -/
lemma bitLength_eq_size {ls : List UInt32} (h : Normal ls) : bitLength ls = (value ls).size := by
  obtain rfl | ⟨ls, l, rfl⟩ := List.eq_nil_or_concat' ls
  · simp [bitLength]
  have hl : l ≠ 0 := by simpa [Normal] using h
  have hpos : 0 < l.toNat := Nat.pos_of_ne_zero fun h0 => hl (UInt32.toNat_inj.mp h0)
  obtain ⟨k, hk⟩ : ∃ k, l.toNat.size = k + 1 :=
    Nat.exists_eq_succ_of_ne_zero (Nat.size_pos.mpr hpos).ne'
  have hhigh : highBit l 32 = k + 1 := by
    rw [highBit_eq_size l le_rfl, Nat.mod_eq_of_lt (limb_lt l), hk]
  have hle : 2 ^ k ≤ l.toNat := Nat.lt_size.mp (by omega)
  have hlt : l.toNat < 2 ^ (k + 1) := Nat.size_le.mp hk.le
  have hlow := value_lt ls
  have hval : value (ls ++ [l]) = value ls + 2 ^ (32 * ls.length) * l.toNat := by
    simp [value_append]
  have hsize : (value (ls ++ [l])).size = 32 * ls.length + k + 1 := by
    apply size_eq_succ
    · rw [hval, pow_add]
      exact (Nat.mul_le_mul_left _ hle).trans (Nat.le_add_left _ _)
    · rw [hval, add_assoc, pow_add]
      calc value ls + 2 ^ (32 * ls.length) * l.toNat
          < 2 ^ (32 * ls.length) * (l.toNat + 1) := by rw [mul_add, mul_one]; omega
        _ ≤ _ := Nat.mul_le_mul_left _ hlt
  rw [hsize]
  simp [bitLength, hhigh]
  omega

/-! ## Bytes -/

/-- The loop `limb |= bytes[--byte_index] << (i * 8)` for `i < 4` on the bytes not yet consumed,
the last one first. -/
def loadLimb : List UInt8 → ℕ → UInt32 → UInt32
  | byte :: bytes, i, limb =>
      if i < 4 then loadLimb bytes (i + 1) (limb ||| byte.toUInt32 <<< UInt32.ofNat (i * 8))
      else limb
  | [], _, limb => limb

/-- The loop that fills `n` limbs from a byte string, whose last byte comes first here. -/
def loadLimbs : ℕ → List UInt8 → List UInt32
  | 0, _ => []
  | n + 1, bytes => loadLimb bytes 0 0 :: loadLimbs n (bytes.drop 4)

@[simp] lemma length_loadLimbs (n : ℕ) (bytes : List UInt8) : (loadLimbs n bytes).length = n := by
  induction n generalizing bytes with
  | zero => rfl
  | succ n ih => simp [loadLimbs, ih]

lemma or_shiftLeft_toNat {limb : UInt32} (byte : UInt8) {i : ℕ} (hi : i < 4)
    (h : limb.toNat < 2 ^ (8 * i)) :
    (limb ||| byte.toUInt32 <<< UInt32.ofNat (i * 8)).toNat =
      limb.toNat + 2 ^ (8 * i) * byte.toNat := by
  have hb := byte.toNat_lt
  have hmod : i * 8 % 2 ^ 32 % 32 = 8 * i := by omega
  have hfit : byte.toNat * 2 ^ (8 * i) < 2 ^ 32 := by
    calc byte.toNat * 2 ^ (8 * i) < 2 ^ 8 * 2 ^ (8 * i) := by
          exact Nat.mul_lt_mul_of_pos_right hb (by positivity)
      _ = 2 ^ (8 + 8 * i) := (pow_add _ _ _).symm
      _ ≤ 2 ^ 32 := Nat.pow_le_pow_right (by norm_num) (by omega)
  rw [UInt32.toNat_or, UInt32.toNat_shiftLeft, UInt8.toNat_toUInt32, UInt32.toNat_ofNat', hmod,
    Nat.shiftLeft_eq, Nat.mod_eq_of_lt hfit, Nat.or_comm, mul_comm byte.toNat,
    ← Nat.two_pow_add_eq_or_of_lt h, add_comm]

lemma loadLimb_spec (bytes : List UInt8) (i : ℕ) (limb : UInt32) (hi : i ≤ 4)
    (h : limb.toNat < 2 ^ (8 * i)) :
    (loadLimb bytes i limb).toNat =
      limb.toNat + 2 ^ (8 * i) * ByteStrings.leValue (bytes.take (4 - i)) := by
  induction bytes generalizing i limb with
  | nil => simp [loadLimb]
  | cons byte bytes ih =>
      rw [loadLimb]
      split
      next hlt =>
        have hstep := or_shiftLeft_toNat byte hlt h
        have hb : byte.toNat + 1 ≤ 2 ^ 8 := byte.toNat_lt
        have hnext :
            (limb ||| byte.toUInt32 <<< UInt32.ofNat (i * 8)).toNat < 2 ^ (8 * (i + 1)) := by
          rw [hstep, Nat.mul_succ, pow_add]
          calc limb.toNat + 2 ^ (8 * i) * byte.toNat < 2 ^ (8 * i) * (byte.toNat + 1) := by
                rw [mul_add, mul_one]; omega
            _ ≤ _ := Nat.mul_le_mul_left _ hb
        rw [ih (i + 1) _ hlt hnext, hstep, show 4 - i = (4 - (i + 1)) + 1 by omega,
          List.take_succ_cons,
          ByteStrings.leValue_cons, Nat.mul_succ, pow_add]
        ring
      next hge => simp [show 4 - i = 0 by omega]

lemma value_loadLimbs (n : ℕ) (bytes : List UInt8) :
    value (loadLimbs n bytes) = ByteStrings.leValue (bytes.take (4 * n)) := by
  induction n generalizing bytes with
  | zero => simp [loadLimbs]
  | succ n ih =>
      have hlimb := loadLimb_spec bytes 0 0 (by norm_num) (by simp)
      rw [loadLimbs, value_cons, ih, hlimb, show 4 * (n + 1) = 4 + 4 * n by ring, List.take_add,
        ByteStrings.leValue_append]
      rcases le_total 4 bytes.length with h | h
      · simp [h]
      · simp [List.drop_of_length_le h]

/-- Filling enough limbs from the end of a byte string keeps its value. -/
lemma value_loadLimbs_reverse {n : ℕ} {bytes : List UInt8} (h : bytes.length ≤ 4 * n) :
    value (loadLimbs n bytes.reverse) = ByteStrings.beValue bytes := by
  rw [value_loadLimbs, List.take_of_length_le (by simpa using h), ByteStrings.leValue_reverse]

/-- The four bytes of a limb, most significant first, each cut out by a shift and a mask. -/
def limbBytes (limb : UInt32) : List UInt8 :=
  [((limb >>> 24) &&& 0xFF).toUInt8, ((limb >>> 16) &&& 0xFF).toUInt8,
    ((limb >>> 8) &&& 0xFF).toUInt8, (limb &&& 0xFF).toUInt8]

/-- The bytes of a limb vector, from its last limb down, so that they are those of a big-endian
number. -/
def storeBytes (ls : List UInt32) : List UInt8 :=
  ls.reverse.flatMap limbBytes

lemma beValue_limbBytes (l : UInt32) : ByteStrings.beValue (limbBytes l) = l.toNat := by
  have hand : ∀ x : UInt32, (x &&& 0xFF).toUInt8.toNat = x.toNat % 256 := fun x => by
    rw [UInt32.toNat_toUInt8, UInt32.toNat_and, show (0xFF : UInt32).toNat = 2 ^ 8 - 1 from rfl,
      Nat.and_two_pow_sub_one_eq_mod]
    omega
  have hl := limb_lt l
  simp only [limbBytes, ByteStrings.beValue_cons, ByteStrings.beValue_nil, hand, List.length_cons,
    List.length_nil]
  simp [Nat.shiftRight_eq_div_pow]
  omega

@[simp] lemma length_storeBytes (ls : List UInt32) : (storeBytes ls).length = 4 * ls.length := by
  induction ls with
  | nil => rfl
  | cons l ls ih =>
      have h4 : (limbBytes l).length = 4 := rfl
      simp only [storeBytes, List.reverse_cons, List.flatMap_append, List.length_append] at ih ⊢
      rw [ih]
      simp [h4]
      ring

lemma beValue_storeBytes (ls : List UInt32) : ByteStrings.beValue (storeBytes ls) = value ls := by
  induction ls with
  | nil => rfl
  | cons l ls ih =>
      rw [storeBytes, List.reverse_cons, List.flatMap_append, List.flatMap_cons, List.flatMap_nil,
        List.append_nil, ByteStrings.beValue_append, beValue_limbBytes, value_cons]
      rw [storeBytes] at ih
      rw [ih, show (limbBytes l).length = 4 from rfl]
      ring

lemma storeBytes_eq_beBytes (ls : List UInt32) :
    storeBytes ls = ByteStrings.beBytes (4 * ls.length) (value ls) :=
  ByteStrings.eq_beBytes (length_storeBytes ls) (beValue_storeBytes ls)

/-- The loop that pushes bytes, skipping zeros as long as nothing has been pushed. Nothing is pushed
for the number zero. -/
def pushSignificant (bytes : List UInt8) : List UInt8 :=
  bytes.foldl (fun out byte => if out ≠ [] ∨ byte ≠ 0 then out ++ [byte] else out) []

lemma foldl_push_of_ne_nil (bytes out : List UInt8) (h : out ≠ []) :
    bytes.foldl (fun out byte => if out ≠ [] ∨ byte ≠ 0 then out ++ [byte] else out) out =
      out ++ bytes := by
  induction bytes generalizing out with
  | nil => simp
  | cons b bs ih =>
      rw [List.foldl_cons, if_pos (Or.inl h), ih _ (by simp)]
      simp

lemma pushSignificant_eq_dropWhile (bytes : List UInt8) :
    pushSignificant bytes = bytes.dropWhile (· == 0) := by
  unfold pushSignificant
  induction bytes with
  | nil => rfl
  | cons b bs ih =>
      by_cases hb : b = 0
      · subst hb
        simpa using ih
      · rw [List.foldl_cons, if_pos (Or.inr hb), foldl_push_of_ne_nil _ _ (by simp)]
        simp [hb]

/-- Pushing the significant bytes of a non-zero number writes its shortest encoding. -/
lemma pushSignificant_storeBytes {ls : List UInt32} (h : value ls ≠ 0) :
    pushSignificant (storeBytes ls) = ByteStrings.minBeBytes (value ls) := by
  have hval := beValue_storeBytes ls
  rw [pushSignificant_eq_dropWhile, ByteStrings.dropWhile_zero_eq_minBeBytes (by rwa [hval]), hval]

end Limbs
