import CryptoCore.Construction.Result

/-!
# Constant-time byte operations

Masks are the bytes `0x00` and `0xFF`; the functions below compute with them instead of branching.
Each has a lemma that says which branch it stands for, and those on Booleans and on zero tests are
in the simp set, so that a proof about code with masks sees conditionals.

A selection reads the top bit of its mask only, so its lemmas are stated for the two masks that
occur. The comparison of two byte strings collects the differing bits over all positions before it
tests them; `constantTimeEqual_iff` says that it is equality all the same. Timing is not modelled:
what matters here is that the values are those of the branching code.

The users are the paddings in `Construction/AesCbc.lean`, `Construction/RsaPss.lean` and
`Construction/RsaOaep.lean`, the tag of `Construction/AesGcm.lean`, and the table of the base point
in `Construction/P256Fixed.lean`.
-/

namespace CryptoCore

/-- `0xFF` for true and `0x00` for false, by a subtraction that wraps. -/
def constantTimeBoolMask (value : Bool) : UInt8 :=
  (0 : UInt8) - value.toUInt8

/-- `0xFF` for zero and `0x00` for any other byte, computed in a wider word. -/
def constantTimeIsZero (value : UInt8) : UInt8 :=
  let wide := value.toUInt32
  let nonZero := (wide ||| ((0 : UInt32) - wide)) >>> 31
  (0 : UInt8) - (nonZero ^^^ 1).toUInt8

/-- The first byte under a mask with its top bit set, the second under any other. -/
def constantTimeSelect (mask ifSet ifClear : UInt8) : UInt8 :=
  let canonicalMask := (0 : UInt8) - ((mask >>> 7) &&& 1)
  (ifSet &&& canonicalMask) ||| (ifClear &&& ~~~canonicalMask)

/-- The selection between two sizes, by the top bit of the mask. -/
def constantTimeSelectSize (mask : UInt8) (ifSet ifClear : UInt64) : UInt64 :=
  let canonicalMask := (0 : UInt64) - ((mask >>> 7) &&& 1).toUInt64
  (ifSet &&& canonicalMask) ||| (ifClear &&& ~~~canonicalMask)

/-- The bits in which two byte strings differ, collected over all positions. -/
def constantTimeDiff (lhs rhs : ByteBuffer) : UInt8 :=
  (List.zipWith (· ^^^ ·) lhs rhs).foldl (· ||| ·) 0

/-- Equality of byte strings. The lengths are compared first, and are no secret. -/
def constantTimeEqual (lhs rhs : ByteBuffer) : Bool :=
  lhs.length == rhs.length && constantTimeDiff lhs rhs == 0

@[simp] lemma constantTimeBoolMask_eq (value : Bool) :
    constantTimeBoolMask value = if value then 0xFF else 0 := by
  cases value <;> rfl

@[simp] lemma constantTimeIsZero_eq (value : UInt8) :
    constantTimeIsZero value = if value = 0 then 0xFF else 0 := by
  obtain ⟨bits⟩ := value
  revert bits
  decide +kernel

lemma constantTimeSelect_set (ifSet ifClear : UInt8) :
    constantTimeSelect 0xFF ifSet ifClear = ifSet := by
  have hmask : (0 : UInt8) - (((0xFF : UInt8) >>> 7) &&& 1) = -1 := by decide
  simp [constantTimeSelect, hmask]

lemma constantTimeSelect_clear (ifSet ifClear : UInt8) :
    constantTimeSelect 0 ifSet ifClear = ifClear := by
  simp [constantTimeSelect]

lemma constantTimeSelectSize_set (ifSet ifClear : UInt64) :
    constantTimeSelectSize 0xFF ifSet ifClear = ifSet := by
  have hmask : (0 : UInt64) - (((0xFF : UInt8) >>> 7) &&& 1).toUInt64 = -1 := by decide
  simp only [constantTimeSelectSize, hmask]
  simp

lemma constantTimeSelectSize_clear (ifSet ifClear : UInt64) :
    constantTimeSelectSize 0 ifSet ifClear = ifClear := by
  simp [constantTimeSelectSize]

lemma foldl_or_eq_zero (bytes : List UInt8) (start : UInt8) :
    bytes.foldl (· ||| ·) start = 0 ↔ start = 0 ∧ ∀ b ∈ bytes, b = 0 := by
  induction bytes generalizing start with
  | nil => simp
  | cons b bytes ih =>
      rw [List.foldl_cons, ih, UInt8.or_eq_zero_iff, List.forall_mem_cons, and_assoc]

/-- Strings of one length without a differing bit are equal. -/
lemma constantTimeDiff_eq_zero {lhs rhs : ByteBuffer} (hlength : lhs.length = rhs.length) :
    constantTimeDiff lhs rhs = 0 ↔ lhs = rhs := by
  rw [constantTimeDiff, foldl_or_eq_zero]
  simp only [true_and]
  induction lhs generalizing rhs with
  | nil => simp [List.length_eq_zero_iff.mp hlength.symm]
  | cons a lhs ih =>
      cases rhs with
      | nil => simp at hlength
      | cons b rhs =>
          rw [List.zipWith_cons_cons, List.forall_mem_cons, ih (by simpa using hlength),
            UInt8.xor_eq_zero_iff, List.cons.injEq]

/-- The comparison that looks at every byte is equality, of byte strings of any two lengths. -/
theorem constantTimeEqual_iff (lhs rhs : ByteBuffer) :
    constantTimeEqual lhs rhs = true ↔ lhs = rhs := by
  by_cases hlength : lhs.length = rhs.length
  · simp [constantTimeEqual, hlength, constantTimeDiff_eq_zero hlength]
  · constructor
    · intro h
      simp [constantTimeEqual, hlength] at h
    · intro h
      exact absurd (congrArg List.length h) hlength

@[simp] lemma constantTimeEqual_eq (lhs rhs : ByteBuffer) :
    constantTimeEqual lhs rhs = decide (lhs = rhs) := by
  rw [Bool.eq_iff_iff, constantTimeEqual_iff, decide_eq_true_iff]

end CryptoCore
