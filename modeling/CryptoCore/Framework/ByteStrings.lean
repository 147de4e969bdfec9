import Mathlib.Data.List.DropRight
import Mathlib.Data.List.GetD
import Mathlib.Data.Nat.Size
import Mathlib.Tactic

/-!
# Byte strings as numbers

Big-endian and little-endian readings of a byte string, the two writings that go with them —
`beBytes w n`, the `w`-byte big-endian encoding, and `minBeBytes n`, the shortest one with a
single zero byte for `0` — and the facts that make them inverse to each other.

The reading `beValue` is a left fold because that is how a byte string is consumed one byte at
a time, most significant first; `leValue` is the same number read from the other end.
`beValue_injective` is the uniqueness statement everything else leans on: a byte string is
determined by its length and its value.
-/

namespace ByteStrings

/-! ## Reading -/

/-- The big-endian value of a byte string, of any length and with any leading zeros. -/
def beValue (bytes : List UInt8) : ℕ :=
  bytes.foldl (fun acc byte => acc * 256 + byte.toNat) 0

/-- The little-endian value of a byte string, by recursion from its lowest byte. -/
def leValue : List UInt8 → ℕ
  | [] => 0
  | b :: bs => b.toNat + 256 * leValue bs

@[simp] lemma beValue_nil : beValue [] = 0 := rfl

@[simp] lemma leValue_nil : leValue [] = 0 := rfl

@[simp] lemma leValue_cons (b : UInt8) (bs : List UInt8) :
    leValue (b :: bs) = b.toNat + 256 * leValue bs := rfl

/-- A further byte at the end multiplies the value by 256 and adds to it: the step of every reading
loop. -/
lemma beValue_concat (bs : List UInt8) (b : UInt8) :
    beValue (bs ++ [b]) = beValue bs * 256 + b.toNat := by
  simp [beValue]

/-- The front of a byte string counts with the weight of what follows it. -/
lemma beValue_append (as bs : List UInt8) :
    beValue (as ++ bs) = beValue as * 256 ^ bs.length + beValue bs := by
  induction bs using List.reverseRecOn with
  | nil => simp
  | append_singleton bs b ih =>
      rw [← List.append_assoc, beValue_concat, ih, beValue_concat, List.length_append,
        List.length_singleton, pow_succ]
      ring

lemma beValue_cons (b : UInt8) (bs : List UInt8) :
    beValue (b :: bs) = b.toNat * 256 ^ bs.length + beValue bs := by
  rw [show b :: bs = [b] ++ bs from rfl, beValue_append]
  simp [beValue]

@[simp] lemma beValue_singleton (b : UInt8) : beValue [b] = b.toNat := by
  simp [beValue]

lemma leValue_append (as bs : List UInt8) :
    leValue (as ++ bs) = leValue as + 256 ^ as.length * leValue bs := by
  induction as with
  | nil => simp
  | cons a as ih =>
      rw [List.cons_append, leValue_cons, ih, leValue_cons, List.length_cons, pow_succ]
      ring

/-- Reading from one end is reading the reversal from the other. -/
lemma leValue_reverse (bs : List UInt8) : leValue bs.reverse = beValue bs := by
  induction bs with
  | nil => rfl
  | cons b bs ih =>
      rw [List.reverse_cons, leValue_append, ih, beValue_cons, List.length_reverse]
      simp [mul_comm, add_comm]

lemma beValue_reverse (bs : List UInt8) : beValue bs.reverse = leValue bs := by
  rw [← leValue_reverse, List.reverse_reverse]

/-- A value has no more digits than there are bytes. -/
lemma beValue_lt (bs : List UInt8) : beValue bs < 256 ^ bs.length := by
  induction bs with
  | nil => simp
  | cons b bs ih =>
      have hb : b.toNat + 1 ≤ 256 := b.toNat_lt
      rw [beValue_cons, List.length_cons, pow_succ]
      calc b.toNat * 256 ^ bs.length + beValue bs
          < b.toNat * 256 ^ bs.length + 256 ^ bs.length := by omega
        _ = (b.toNat + 1) * 256 ^ bs.length := by ring
        _ ≤ 256 ^ bs.length * 256 := by rw [mul_comm]; exact Nat.mul_le_mul_left _ hb

lemma leValue_lt (bs : List UInt8) : leValue bs < 256 ^ bs.length := by
  rw [← beValue_reverse, ← List.length_reverse]
  exact beValue_lt _

/-- A byte string is determined by its length and its value. Canonical encodings are compared this
way. -/
lemma beValue_injective {as bs : List UInt8} (hlen : as.length = bs.length)
    (hval : beValue as = beValue bs) : as = bs := by
  induction as generalizing bs with
  | nil => exact (List.length_eq_zero_iff.mp hlen.symm).symm
  | cons a as ih =>
      obtain _ | ⟨b, bs⟩ := bs
      · simp at hlen
      have hlen' : as.length = bs.length := by simpa using hlen
      rw [beValue_cons, beValue_cons, hlen'] at hval
      have has := hlen' ▸ beValue_lt as
      have hbs := beValue_lt bs
      have hpos : 0 < 256 ^ bs.length := by positivity
      have hhead : a.toNat = b.toNat := by
        have h := congrArg (· / 256 ^ bs.length) hval
        simpa [Nat.add_div_of_dvd_right, Nat.mul_div_cancel _ hpos, Nat.div_eq_of_lt has,
          Nat.div_eq_of_lt hbs] using h
      have htail : beValue as = beValue bs := by rw [hhead] at hval; omega
      rw [UInt8.toNat_inj.mp hhead, ih hlen' htail]

/-- Leading zero bytes do not change the value, so that normalising an input keeps what it stands
for. -/
lemma beValue_dropWhile_zero (bs : List UInt8) :
    beValue (bs.dropWhile (· == 0)) = beValue bs := by
  induction bs with
  | nil => rfl
  | cons b bs ih =>
      by_cases hb : b = 0
      · subst hb
        simpa [beValue_cons] using ih
      · simp [hb]

/-- Only zeros stand for zero. -/
lemma beValue_eq_zero_iff (bs : List UInt8) : beValue bs = 0 ↔ bs.dropWhile (· == 0) = [] := by
  induction bs with
  | nil => simp
  | cons b bs ih =>
      by_cases hb : b = 0
      · subst hb
        simpa [beValue_cons] using ih
      · have : b.toNat ≠ 0 := fun h => hb (UInt8.toNat_inj.mp h)
        simp [hb, beValue_cons, this]

/-! ## Writing at a fixed width -/

/-- The `w`-byte big-endian encoding of `n`; higher digits of `n` are dropped. -/
def beBytes : ℕ → ℕ → List UInt8
  | 0, _ => []
  | w + 1, n => beBytes w (n / 256) ++ [UInt8.ofNat n]

@[simp] lemma length_beBytes (w n : ℕ) : (beBytes w n).length = w := by
  induction w generalizing n with
  | zero => rfl
  | succ w ih => simp [beBytes, ih]

/-- What a fixed width keeps of a number is its remainder. -/
lemma beValue_beBytes_mod (w n : ℕ) : beValue (beBytes w n) = n % 256 ^ w := by
  induction w generalizing n with
  | zero => simp [beBytes, Nat.mod_one]
  | succ w ih =>
      have hb : (UInt8.ofNat n).toNat = n % 256 := by simp
      rw [beBytes, beValue_concat, ih, hb, pow_succ, mul_comm (256 ^ w) 256, Nat.mod_mul]
      ring

lemma beValue_beBytes {w n : ℕ} (h : n < 256 ^ w) : beValue (beBytes w n) = n := by
  rw [beValue_beBytes_mod, Nat.mod_eq_of_lt h]

/-- A byte string is the fixed-width encoding of its own value, at its own length. -/
lemma beBytes_beValue (bs : List UInt8) : beBytes bs.length (beValue bs) = bs :=
  beValue_injective (by simp) (beValue_beBytes (beValue_lt bs))

lemma eq_beBytes {bs : List UInt8} {w n : ℕ} (hlen : bs.length = w) (hval : beValue bs = n) :
    bs = beBytes w n := by
  rw [← hlen, ← hval, beBytes_beValue]

/-- The little-endian writing of a fixed width: the same bytes in the other order. -/
def leBytes (w n : ℕ) : List UInt8 :=
  (beBytes w n).reverse

@[simp] lemma length_leBytes (w n : ℕ) : (leBytes w n).length = w := by
  rw [leBytes, List.length_reverse, length_beBytes]

lemma leValue_leBytes {w n : ℕ} (h : n < 256 ^ w) : leValue (leBytes w n) = n := by
  rw [leBytes, leValue_reverse, beValue_beBytes h]

lemma eq_leBytes {bs : List UInt8} {w n : ℕ} (hlen : bs.length = w) (hval : leValue bs = n) :
    bs = leBytes w n := by
  rw [← beValue_reverse] at hval
  rw [leBytes, ← eq_beBytes (List.length_reverse.trans hlen) hval, List.reverse_reverse]

/-! ## The shortest writing -/

/-- The number of bytes of `n`, rounded up from its bits. Zero has none. -/
def byteLength (n : ℕ) : ℕ := (n.size + 7) / 8

lemma lt_pow_byteLength (n : ℕ) : n < 256 ^ byteLength n := by
  have h : n < 2 ^ n.size := Nat.lt_size_self n
  have hle : n.size ≤ 8 * byteLength n := by unfold byteLength; omega
  calc n < 2 ^ n.size := h
    _ ≤ 2 ^ (8 * byteLength n) := Nat.pow_le_pow_right (by norm_num) hle
    _ = 256 ^ byteLength n := by rw [pow_mul]; norm_num

/-- A width is enough for a number exactly when the number is below the power of that width. -/
lemma byteLength_le_iff (n w : ℕ) : byteLength n ≤ w ↔ n < 256 ^ w := by
  have h : (256 : ℕ) ^ w = 2 ^ (8 * w) := by rw [pow_mul]; norm_num
  rw [h, ← Nat.size_le, byteLength]
  omega

/-- Taking the last byte off leaves one byte less, on which inductions over the bytes of a number
run. -/
lemma byteLength_div (n : ℕ) (h : n ≠ 0) : byteLength n = byteLength (n / 256) + 1 := by
  apply le_antisymm
  · rw [byteLength_le_iff, pow_succ]
    have := lt_pow_byteLength (n / 256)
    omega
  · have hle := (byteLength_le_iff n (byteLength n)).mp le_rfl
    rcases hk : byteLength n with _ | k
    · rw [hk, pow_zero] at hle
      omega
    · rw [hk, pow_succ] at hle
      exact Nat.succ_le_succ ((byteLength_le_iff _ _).mpr (by omega))

/-- The shortest big-endian encoding; zero is written as one zero byte. -/
def minBeBytes (n : ℕ) : List UInt8 :=
  if n = 0 then [0] else beBytes (byteLength n) n

@[simp] lemma beValue_minBeBytes (n : ℕ) : beValue (minBeBytes n) = n := by
  unfold minBeBytes
  split
  · simp [*]
  · exact beValue_beBytes (lt_pow_byteLength n)

lemma minBeBytes_injective {m n : ℕ} (h : minBeBytes m = minBeBytes n) : m = n := by
  rw [← beValue_minBeBytes m, h, beValue_minBeBytes]

lemma length_minBeBytes_le_iff {n w : ℕ} (hw : 0 < w) :
    (minBeBytes n).length ≤ w ↔ n < 256 ^ w := by
  unfold minBeBytes
  split
  next h =>
    subst h
    simp
    omega
  next h => rw [length_beBytes, byteLength_le_iff]

/-- A non-empty byte string without a leading zero is as short as its value allows. -/
lemma length_eq_byteLength {b : UInt8} (bs : List UInt8) (hb : b ≠ 0) :
    (b :: bs).length = byteLength (beValue (b :: bs)) := by
  have hb' : 0 < b.toNat := Nat.pos_of_ne_zero fun h => hb (UInt8.toNat_inj.mp h)
  apply le_antisymm
  · rw [List.length_cons, Nat.succ_le_iff, ← not_le, byteLength_le_iff, not_lt, beValue_cons]
    have : 256 ^ bs.length ≤ b.toNat * 256 ^ bs.length := Nat.le_mul_of_pos_left _ hb'
    omega
  · exact (byteLength_le_iff _ _).mpr (beValue_lt _)

/-- Dropping the leading zero bytes of a non-zero string gives the shortest encoding of its value.
-/
lemma dropWhile_zero_eq_minBeBytes {bs : List UInt8} (h : beValue bs ≠ 0) :
    bs.dropWhile (· == 0) = minBeBytes (beValue bs) := by
  rw [minBeBytes, if_neg h, ← beValue_dropWhile_zero bs]
  rcases hd : bs.dropWhile (· == 0) with _ | ⟨b, cs⟩
  · exact absurd ((beValue_eq_zero_iff bs).mpr hd) h
  · have hb : b ≠ 0 := by
      have := List.head?_dropWhile_not (fun x : UInt8 => x == 0) bs
      rw [hd] at this
      simpa using this
    rw [← length_eq_byteLength cs hb, beBytes_beValue]

/-- The shortest encoding has no leading zero byte, except that zero is one zero byte. -/
lemma minBeBytes_beValue (bs : List UInt8) :
    minBeBytes (beValue bs) =
      if bs.dropWhile (· == 0) = [] then [0] else bs.dropWhile (· == 0) := by
  by_cases hzero : beValue bs = 0
  · rw [if_pos ((beValue_eq_zero_iff bs).mp hzero), hzero]
    rfl
  · rw [if_neg fun hnil => hzero ((beValue_eq_zero_iff bs).mpr hnil),
      dropWhile_zero_eq_minBeBytes hzero]

/-- The bytes that remain without leading zeros are as many as the value needs, which is how a check
of a length becomes one of a value. -/
lemma length_dropWhile_zero_le_iff (bs : List UInt8) (w : ℕ) :
    (bs.dropWhile (· == 0)).length ≤ w ↔ beValue bs < 256 ^ w := by
  by_cases hzero : beValue bs = 0
  · rw [(beValue_eq_zero_iff bs).mp hzero, hzero]
    simp
  · rw [dropWhile_zero_eq_minBeBytes hzero, minBeBytes, if_neg hzero, length_beBytes,
      byteLength_le_iff]

/-- A byte string that starts with a non-zero byte is a shortest encoding, of its own value. -/
lemma eq_minBeBytes_of_head_ne_zero {b : UInt8} (bs : List UInt8) (hb : b ≠ 0) :
    b :: bs = minBeBytes (beValue (b :: bs)) := by
  have hne : beValue (b :: bs) ≠ 0 := by
    rw [Ne, beValue_eq_zero_iff]
    simp [hb]
  rw [← dropWhile_zero_eq_minBeBytes hne]
  simp [hb]

/-- Padding the shortest encoding on the left with zeros gives the fixed-width one. -/
lemma replicate_append_minBeBytes {n w : ℕ} (hw : (minBeBytes n).length ≤ w) :
    List.replicate (w - (minBeBytes n).length) 0 ++ minBeBytes n = beBytes w n := by
  apply eq_beBytes
  · simp
    omega
  · rw [beValue_append, beValue_minBeBytes]
    have : beValue (List.replicate (w - (minBeBytes n).length) 0) = 0 := by
      rw [beValue_eq_zero_iff]
      simp
    simp [this]

/-- The last `w` bytes of a wider encoding are the narrower encoding, which forgets the digits in
front. -/
lemma drop_beBytes (u w n : ℕ) : (beBytes (u + w) n).drop u = beBytes w n := by
  induction w generalizing n with
  | zero => simp [beBytes]
  | succ w ih =>
      rw [← Nat.add_assoc, beBytes, beBytes, List.drop_append_of_le_length (by simp), ih]

/-- A wider encoding is the encoding of the high part in front of that of the low part. -/
lemma beBytes_append (u w n : ℕ) :
    beBytes (u + w) n = beBytes u (n / 256 ^ w) ++ beBytes w n := by
  induction w generalizing n with
  | zero => simp [beBytes]
  | succ w ih =>
      rw [← Nat.add_assoc, beBytes, ih, beBytes, ← List.append_assoc, Nat.div_div_eq_div_mul,
        pow_succ']

/-! ## Bits -/

/-- The test of one bit that the sources write with a shift and a mask. -/
lemma byte_bit (b : UInt8) {k : ℕ} (hk : k < 8) :
    ((b >>> UInt8.ofNat k) &&& 1 != 0) = b.toNat.testBit k := by
  have hval : ((b >>> UInt8.ofNat k) &&& 1).toNat = b.toNat / 2 ^ k % 2 := by
    simp [UInt8.toNat_and, UInt8.toNat_shiftRight, Nat.shiftRight_eq_div_pow, Nat.mod_eq_of_lt hk]
  rw [Nat.testBit_eq_decide_div_mod_eq, Bool.eq_iff_iff, bne_iff_ne, decide_eq_true_iff, Ne,
    ← UInt8.toNat_inj, hval, UInt8.toNat_zero]
  omega

lemma leValue_testBit (bs : List UInt8) (i : ℕ) :
    (leValue bs).testBit i = (bs.getD (i / 8) 0).toNat.testBit (i % 8) := by
  induction bs generalizing i with
  | nil => simp
  | cons b bs ih =>
      rw [leValue_cons, show (256 : ℕ) = 2 ^ 8 from rfl, add_comm,
        Nat.testBit_two_pow_mul_add _ b.toNat_lt]
      split
      next h => rw [Nat.div_eq_of_lt h, Nat.mod_eq_of_lt h]; rfl
      next h =>
        have hdiv : i / 8 = (i - 8) / 8 + 1 := by omega
        have hmod : i % 8 = (i - 8) % 8 := by omega
        rw [hdiv, hmod, List.getD_cons_succ, ih]

/-- Bit `i` of a big-endian number lies in byte `i / 8` from the end, so that a loop over bits reads
the bytes from behind. -/
lemma beValue_testBit {bs : List UInt8} {i : ℕ} (h : i / 8 < bs.length) :
    (beValue bs).testBit i = (bs.getD (bs.length - i / 8 - 1) 0).toNat.testBit (i % 8) := by
  rw [← leValue_reverse, leValue_testBit, List.getD_eq_getElem _ _ (by simpa using h),
    List.getElem_reverse, List.getD_eq_getElem _ _ (by omega)]
  congr 3
  omega

lemma beValue_testBit_eq_false {bs : List UInt8} {i : ℕ} (h : bs.length ≤ i / 8) :
    (beValue bs).testBit i = false := by
  rw [← leValue_reverse, leValue_testBit, List.getD_eq_default _ _ (by simpa using h)]
  simp

end ByteStrings
