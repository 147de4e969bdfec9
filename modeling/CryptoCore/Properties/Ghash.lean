import CryptoCore.Framework.BinaryFields
import CryptoCore.Construction.AesGcm

/-!
# The hash of AES-GCM

A block stands for a polynomial over the field of two elements, its first bit for the constant
coefficient. `gfMultiply` is the product of these polynomials modulo a polynomial of degree 128, and
`ghash` evaluates the polynomial whose coefficients are the blocks that it absorbs at the hash
subkey.

The code multiplies by shifting a block one bit at a time and folding the bit that leaves it back
in. In terms of polynomials a shift is a multiplication by `X`, since the bits of a byte count from
its top; `residue_double` says that the second half of a round is that multiplication, in the ring
of remainders. The loop is then the sum over the bits of one factor (`residue_gfMultiply`).

Everything else is carried over from that ring. A block is the one polynomial of degree below 128
with its residue (`residue_injective`), which gives the laws of the product and the formula for the
hash. That the modulus is irreducible, so that the ring is a field, is checked by Rabin's test.
-/

namespace CryptoCore

open Polynomial BinaryPolynomials Blocks ByteStrings Loops

namespace AesGcm

open Aes

/-! ## Blocks as polynomials -/

/-- The polynomial of a block, whose coefficients are its bits. -/
noncomputable def toPolynomial (block : Block) : (ZMod 2)[X] :=
  ofBits 128 (bitAt block)

/-- The modulus without its leading term, which is what is folded in. -/
noncomputable def lowPart : (ZMod 2)[X] :=
  X ^ 7 + X ^ 2 + X + 1

/-- The polynomial that products are reduced by. -/
noncomputable def ghashModulus : (ZMod 2)[X] :=
  X ^ 128 + lowPart

lemma bitAt_eq (block : Block) (i : ℕ) :
    bitAt block i = (block.getD (i / 8) 0).toNat.testBit (7 - i % 8) :=
  byte_bit _ (by omega)

lemma getD_eq_getElem (block : Block) {i : ℕ} (hi : i < 16) : block.getD i 0 = block[i] := by
  simp [Vector.getD, Array.getD, hi]

lemma bitAt_xorBlock (x y : Block) {i : ℕ} (hi : i < 128) :
    bitAt (xorBlock x y) i = (bitAt x i ^^ bitAt y i) := by
  have hbyte : i / 8 < 16 := by omega
  rw [bitAt_eq, bitAt_eq, bitAt_eq, getD_eq_getElem _ hbyte, getD_eq_getElem _ hbyte,
    getD_eq_getElem _ hbyte, xorBlock, Vector.getElem_zipWith, UInt8.toNat_xor, Nat.testBit_xor]

/-- A byte behind the last bit of the byte before it. -/
lemma toNat_shiftedByte (byte carry : UInt8) :
    ((byte >>> 1) ||| ((carry &&& 1) <<< 7)).toNat =
      2 ^ 7 * (carry.toNat % 2) + byte.toNat / 2 := by
  have hb := byte.toNat_lt
  have hlow : byte.toNat / 2 < 2 ^ 7 := by omega
  have hcarry : ((carry &&& 1) <<< 7).toNat = 2 ^ 7 * (carry.toNat % 2) := by
    rw [UInt8.toNat_shiftLeft, UInt8.toNat_and, UInt8.toNat_one, Nat.and_one_is_mod,
      show (7 : UInt8).toNat % 8 = 7 from rfl, Nat.shiftLeft_eq]
    omega
  rw [UInt8.toNat_or, UInt8.toNat_shiftRight, hcarry, show (1 : UInt8).toNat % 8 = 1 from rfl,
    Nat.shiftRight_one, Nat.or_comm, ← Nat.two_pow_add_eq_or_of_lt hlow]

lemma testBit_shiftedByte (byte carry : UInt8) {k : ℕ} (hk : k < 8) :
    ((byte >>> 1) ||| ((carry &&& 1) <<< 7)).toNat.testBit k =
      if k = 7 then carry.toNat.testBit 0 else byte.toNat.testBit (k + 1) := by
  have hb := byte.toNat_lt
  rw [toNat_shiftedByte, Nat.testBit_two_pow_mul_add _ (by omega)]
  by_cases hlast : k = 7
  · rw [if_neg (by omega), if_pos hlast, hlast, Nat.sub_self, Nat.testBit_zero, Nat.testBit_zero,
      Nat.mod_mod]
  · rw [if_pos (by omega), if_neg hlast, Nat.testBit_succ]

lemma getElem_shiftRightOne (block : Block) {j : ℕ} (hj : j < 16) :
    (shiftRightOne block)[j] =
      (block.getD j 0 >>> 1) |||
        (((if j = 0 then 0 else block.getD (j - 1) 0) &&& 1) <<< 7) := by
  rw [shiftRightOne, Vector.getElem_ofFn]
  by_cases hzero : j = 0 <;> simp [hzero]

/-- The shift moves every bit one place up. -/
lemma bitAt_shiftRightOne (block : Block) {i : ℕ} (hi : i < 128) :
    bitAt (shiftRightOne block) i = shift (bitAt block) i := by
  have hbyte : i / 8 < 16 := by omega
  rw [bitAt_eq, getD_eq_getElem _ hbyte, getElem_shiftRightOne _ hbyte,
    testBit_shiftedByte _ _ (by omega)]
  cases i with
  | zero => simp [shift]
  | succ i =>
      rw [shift, bitAt_eq]
      by_cases hfirst : 7 - (i + 1) % 8 = 7
      · have hprevious : (i + 1) / 8 - 1 = i / 8 := by omega
        rw [if_pos hfirst, if_neg (by omega), hprevious, show 7 - i % 8 = 0 by omega]
      · rw [if_neg hfirst, show (i + 1) / 8 = i / 8 by omega,
          show 7 - (i + 1) % 8 + 1 = 7 - i % 8 by omega]

/-! ## Products -/

/-- The block of the modulus without its leading term: the byte that the code folds in, and zeros.
-/
def lowBlock : Block :=
  (Vector.replicate 16 0).set 0 0xe1 firstByte_lt

lemma bitAt_lowBlock {i : ℕ} (hi : i < 128) :
    bitAt lowBlock i = decide (i = 0 ∨ i = 1 ∨ i = 2 ∨ i = 7) := by
  revert i
  decide +kernel

lemma toPolynomial_lowBlock : toPolynomial lowBlock = lowPart := by
  ext n
  rw [toPolynomial, coeff_ofBits, lowPart]
  simp only [coeff_add, coeff_X_pow, coeff_X, coeff_one]
  by_cases hn : n < 128
  · rw [bitAt_lowBlock hn]
    by_cases hset : n = 0 ∨ n = 1 ∨ n = 2 ∨ n = 7
    · rcases hset with rfl | rfl | rfl | rfl <;> simp
    · rw [if_neg (by simp [hset]), if_neg (by omega), if_neg (by omega), if_neg (by omega),
        if_neg (by omega)]
      simp
  · rw [if_neg fun h => hn h.1, if_neg (by omega), if_neg (by omega), if_neg (by omega),
      if_neg (by omega)]
    simp

/-- The first bit of the first byte is the constant coefficient. -/
lemma coeff_toPolynomial (block : Block) (n : ℕ) :
    (toPolynomial block).coeff n =
      if n < 128 ∧ (block.getD (n / 8) 0).toNat.testBit (7 - n % 8) = true then 1 else 0 := by
  rw [toPolynomial, coeff_ofBits, bitAt_eq]

lemma toPolynomial_xorBlock (x y : Block) :
    toPolynomial (xorBlock x y) = toPolynomial x + toPolynomial y := by
  rw [toPolynomial, toPolynomial, toPolynomial, ← ofBits_xor]
  exact ofBits_congr fun i hi => bitAt_xorBlock x y hi

lemma bitAt_zero {i : ℕ} (hi : i < 128) : bitAt (Vector.replicate 16 0) i = false := by
  rw [bitAt_eq, getD_eq_getElem _ (by omega), Vector.getElem_replicate, UInt8.toNat_zero,
    Nat.zero_testBit]

@[simp] lemma toPolynomial_zero : toPolynomial (Vector.replicate 16 0) = 0 := by
  rw [toPolynomial, ← ofBits_false 128]
  exact ofBits_congr fun i hi => bitAt_zero hi

lemma toPolynomial_injective : Function.Injective toPolynomial := by
  intro x y h
  refine Vector.ext fun j hj => ?_
  rw [← UInt8.toNat_inj]
  refine Nat.eq_of_testBit_eq fun k => ?_
  by_cases hk : k < 8
  · have hbit := ofBits_injective h (show 8 * j + (7 - k) < 128 by omega)
    rw [bitAt_eq, bitAt_eq, show (8 * j + (7 - k)) / 8 = j by omega,
      show 7 - (8 * j + (7 - k)) % 8 = k by omega] at hbit
    rwa [getD_eq_getElem _ hj, getD_eq_getElem _ hj] at hbit
  · have hhigh : ∀ byte : UInt8, byte.toNat.testBit k = false := fun byte =>
      Nat.testBit_eq_false_of_lt (byte.toNat_lt.trans_le
        (Nat.pow_le_pow_right (by norm_num) (Nat.not_lt.mp hk)))
    rw [hhigh, hhigh]

lemma bitAt_last (block : Block) :
    bitAt block 127 = true ↔ getElem block 15 lastByte_lt &&& 1 ≠ 0 := by
  rw [bitAt, getD_eq_getElem block (by norm_num), bne_iff_ne,
    show (7 - 127 % 8 : ℕ).toUInt8 = 0 from rfl, UInt8.shiftRight_zero]

lemma set_eq_xorBlock (block : Block) :
    block.set 0 (getElem block 0 firstByte_lt ^^^ 0xe1) firstByte_lt = xorBlock block lowBlock := by
  refine Vector.ext fun j hj => ?_
  rw [xorBlock, Vector.getElem_zipWith, lowBlock]
  by_cases hzero : j = 0
  · subst hzero
    simp
  · rw [Vector.getElem_set_ne _ _ (Ne.symm hzero), Vector.getElem_set_ne _ _ (Ne.symm hzero),
      Vector.getElem_replicate, UInt8.xor_zero]

/-- The second half of a round: the shift, and the modulus where the last bit was set before it. -/
lemma gfMultiplyStep_snd (x : Block) (bit : ℕ) (state : Block × Block) :
    (gfMultiplyStep x bit state).2 =
      if bitAt state.2 127 then xorBlock (shiftRightOne state.2) lowBlock
      else shiftRightOne state.2 := by
  rw [gfMultiplyStep, ← set_eq_xorBlock]
  exact if_congr (bitAt_last state.2).symm rfl rfl

lemma ghashModulus_eq : ghashModulus = X ^ 128 + ofBits 128 (bitAt lowBlock) := by
  unfold ghashModulus
  rw [← toPolynomial_lowBlock, toPolynomial]

/-! ### In the ring of remainders -/

/-- The class of a block modulo the modulus. -/
noncomputable def residue (block : Block) : AdjoinRoot ghashModulus :=
  AdjoinRoot.mk ghashModulus (toPolynomial block)

lemma residue_zero : residue (Vector.replicate 16 0) = 0 := by
  rw [residue, toPolynomial_zero, map_zero]

lemma residue_xorBlock (x y : Block) : residue (xorBlock x y) = residue x + residue y := by
  rw [residue, toPolynomial_xorBlock, map_add]
  rfl

lemma residue_double (x : Block) (bit : ℕ) (state : Block × Block) :
    residue (gfMultiplyStep x bit state).2 =
      AdjoinRoot.root ghashModulus * residue state.2 := by
  have hshift : toPolynomial (shiftRightOne state.2) = ofBits 128 (shift (bitAt state.2)) :=
    ofBits_congr fun i hi => bitAt_shiftRightOne state.2 hi
  have hdouble := mk_X_mul_ofBits (by norm_num) ghashModulus_eq (bitAt state.2)
  rw [gfMultiplyStep_snd, residue, residue]
  refine Eq.trans (congrArg _ ?_) hdouble.symm
  change _ = _ + if bitAt state.2 127 then toPolynomial lowBlock else 0
  split
  next => rw [toPolynomial_xorBlock, hshift]
  next => rw [hshift, add_zero]

/-- The class of a product is the product of the classes. -/
lemma residue_gfMultiply (x y : Block) : residue (gfMultiply x y) = residue x * residue y := by
  have hsum : ∀ i (s : Block × Block), residue (gfMultiplyStep x i s).1 =
      residue s.1 + if bitAt x i then residue s.2 else 0 := by
    intro i s
    rw [gfMultiplyStep]
    dsimp only
    split
    next => rw [residue_xorBlock]
    next => rw [add_zero]
  have hrun := loopUp_shiftAdd residue (AdjoinRoot.root ghashModulus) (bitAt x) (gfMultiplyStep x)
    hsum (residue_double x) 128 (Vector.replicate 16 0, y)
  rw [gfMultiply, hrun, ← mk_ofBits, residue_zero, zero_add]
  rfl

/-- The polynomial of a block is the remainder of whatever the block is congruent to. -/
lemma toPolynomial_eq_modByMonic {block : Block} {p : (ZMod 2)[X]}
    (h : residue block = AdjoinRoot.mk ghashModulus p) :
    toPolynomial block = p %ₘ ghashModulus :=
  ofBits_eq_modByMonic ghashModulus_eq h

lemma residue_injective : Function.Injective residue := fun _ _ h =>
  toPolynomial_injective (ofBits_eq_of_mk_eq ghashModulus_eq h)

/-- Rabin's test, on the modulus as the number of its coefficients. -/
theorem irreducible_ghashModulus : Irreducible ghashModulus := by
  have hpacked : ghashModulus = X ^ 128 + ofBits 128 (2 ^ 128 + 135 : ℕ).testBit := by
    rw [ghashModulus_eq]
    refine congrArg _ (ofBits_congr fun i hi => ?_)
    rw [bitAt_lowBlock hi]
    revert i
    decide +kernel
  exact BinaryFields.irreducible_of_packed (e := 6) 129460184901158119860735353079755610614
    210407306859290181404817842025723703320 (by norm_num) hpacked (by decide +kernel)
    (by decide +kernel) (by decide +kernel)

/-! ## The laws of the field -/

theorem gfMultiply_eq_modByMonic (x y : Block) :
    toPolynomial (gfMultiply x y) = toPolynomial x * toPolynomial y %ₘ ghashModulus :=
  toPolynomial_eq_modByMonic (by rw [residue_gfMultiply, residue, residue, map_mul])

lemma gfMultiply_comm (x y : Block) : gfMultiply x y = gfMultiply y x :=
  residue_injective (by rw [residue_gfMultiply, residue_gfMultiply, mul_comm])

lemma gfMultiply_assoc (x y z : Block) :
    gfMultiply (gfMultiply x y) z = gfMultiply x (gfMultiply y z) :=
  residue_injective (by simp only [residue_gfMultiply, mul_assoc])

lemma gfMultiply_xorBlock (x y z : Block) :
    gfMultiply x (xorBlock y z) = xorBlock (gfMultiply x y) (gfMultiply x z) :=
  residue_injective (by simp only [residue_gfMultiply, residue_xorBlock, mul_add])

/-! ## The hash -/

/-- A last block that is filled up with zeros. -/
def zeroPadded (bytes : List UInt8) : List UInt8 :=
  bytes ++ List.replicate (16 - bytes.length) 0

lemma toList_blockOfBytes {bytes : List UInt8} (h : bytes.length ≤ 16) :
    (blockOfBytes bytes).toList = zeroPadded bytes := by
  refine List.ext_getElem (by simp [zeroPadded, h]) fun i hi _ => ?_
  have hi16 : i < 16 := by simpa using hi
  simp only [blockOfBytes, Vector.getElem_toList, Vector.getElem_ofFn]
  by_cases hlt : i < bytes.length
  · simp [zeroPadded, hlt]
  · simp [zeroPadded, Nat.not_lt.mp hlt]

/-- The blocks of the associated data, those of the data and the lengths of both in bits. A short
last block of either is filled up with zeros. -/
def hashBlocks (aad data : List UInt8) : List Block :=
  (blocks 16 aad).map blockOfBytes ++ (blocks 16 data).map blockOfBytes ++
    [blockOfBytes (beBytes 8 (8 * aad.length) ++ beBytes 8 (8 * data.length))]

lemma toList_hashBlocks (aad data : List UInt8) :
    (hashBlocks aad data).map Vector.toList =
      (blocks 16 aad).map zeroPadded ++ (blocks 16 data).map zeroPadded ++
        [beBytes 8 (8 * aad.length) ++ beBytes 8 (8 * data.length)] := by
  have hblocks : ∀ input : List UInt8,
      ((blocks 16 input).map blockOfBytes).map Vector.toList =
        (blocks 16 input).map zeroPadded := fun input => by
    rw [List.map_map]
    exact List.map_congr_left fun block hblock =>
      toList_blockOfBytes (length_le_of_mem_blocks (by norm_num) input block hblock)
  rw [hashBlocks, List.map_append, List.map_append, hblocks, hblocks, List.map_singleton,
    toList_blockOfBytes (by simp), zeroPadded]
  simp

lemma length_hashBlocks (aad data : List UInt8) :
    (hashBlocks aad data).length = (aad.length + 15) / 16 + (data.length + 15) / 16 + 1 := by
  simp [hashBlocks, length_blocks (show 0 < 16 by norm_num), Nat.add_assoc]

/-- The hash absorbs one block after the other, each by an exclusive or and a product. -/
lemma ghash_eq_foldl (h : Block) (aad data : List UInt8) :
    ghash h aad data =
      (hashBlocks aad data).foldl (fun y block => gfMultiply (xorBlock y block) h)
        (Vector.replicate 16 0) := by
  have hlength : ∀ n : ℕ, storeBe64 (UInt64.ofNat n * 8) = beBytes 8 (8 * n) := fun n => by
    rw [← storeBe64_ofNat, mul_comm 8 n, UInt64.ofNat_mul]
    rfl
  rw [ghash, ghashUpdate, ghashUpdate, hlength, hlength, hashBlocks, List.foldl_append,
    List.foldl_append, List.foldl_map, List.foldl_map]
  rfl

lemma residue_ghash (h : Block) (aad data : List UInt8) :
    residue (ghash h aad data) =
      ((hashBlocks aad data).map residue).foldl (fun y block => (y + block) * residue h) 0 := by
  have hfold : ∀ (bs : List Block) (y : Block),
      residue (bs.foldl (fun y block => gfMultiply (xorBlock y block) h) y) =
        (bs.map residue).foldl (fun y block => (y + block) * residue h) (residue y) := by
    intro bs
    induction bs with
    | nil => exact fun y => rfl
    | cons b bs ih =>
        intro y
        rw [List.foldl_cons, ih, residue_gfMultiply, residue_xorBlock, List.map_cons,
          List.foldl_cons]
  rw [ghash_eq_foldl, hfold, residue_zero]

/-- The hash is the polynomial of its blocks at the hash subkey, without a constant term. -/
theorem ghash_eq_modByMonic (h : Block) (aad data : List UInt8) :
    toPolynomial (ghash h aad data) =
      (∑ i : Fin (hashBlocks aad data).length, toPolynomial ((hashBlocks aad data).get i) *
        toPolynomial h ^ ((hashBlocks aad data).length - i)) %ₘ ghashModulus := by
  refine toPolynomial_eq_modByMonic ?_
  rw [residue_ghash, foldl_horner, zero_mul, zero_add, List.length_map, Finset.sum_range, map_sum]
  refine Finset.sum_congr rfl fun i _ => ?_
  rw [map_mul, map_pow]
  simp [residue, List.getD_eq_getElem?_getD]

end AesGcm

open Aes AesGcm

/-- The product of two blocks is the product of their polynomials modulo
`X ^ 128 + X ^ 7 + X ^ 2 + X + 1`, which is irreducible, and the hash is the sum of its blocks,
each times the power of the subkey that the number of blocks from it on says. -/
theorem ghash_evaluates :
    Irreducible ghashModulus ∧
    (∀ (block : Block) (n : ℕ), (toPolynomial block).coeff n =
      if n < 128 ∧ (block.getD (n / 8) 0).toNat.testBit (7 - n % 8) = true then 1 else 0) ∧
    (∀ x y, toPolynomial (xorBlock x y) = toPolynomial x + toPolynomial y) ∧
    (∀ x y, toPolynomial (gfMultiply x y) = toPolynomial x * toPolynomial y %ₘ ghashModulus) ∧
    (∀ x y, gfMultiply x y = gfMultiply y x) ∧
    (∀ x y z, gfMultiply (gfMultiply x y) z = gfMultiply x (gfMultiply y z)) ∧
    (∀ x y z, gfMultiply x (xorBlock y z) = xorBlock (gfMultiply x y) (gfMultiply x z)) ∧
    ∀ (h : Block) (aad data : List UInt8),
      (hashBlocks aad data).map Vector.toList =
          (blocks 16 aad).map zeroPadded ++ (blocks 16 data).map zeroPadded ++
            [beBytes 8 (8 * aad.length) ++ beBytes 8 (8 * data.length)] ∧
      (hashBlocks aad data).length = (aad.length + 15) / 16 + (data.length + 15) / 16 + 1 ∧
      toPolynomial (ghash h aad data) =
        (∑ i : Fin (hashBlocks aad data).length, toPolynomial ((hashBlocks aad data).get i) *
          toPolynomial h ^ ((hashBlocks aad data).length - i)) %ₘ ghashModulus := by
  refine ⟨irreducible_ghashModulus, coeff_toPolynomial, toPolynomial_xorBlock,
    gfMultiply_eq_modByMonic, gfMultiply_comm, gfMultiply_assoc, gfMultiply_xorBlock, ?_⟩
  exact fun h aad data => ⟨toList_hashBlocks aad data, length_hashBlocks aad data,
    ghash_eq_modByMonic h aad data⟩

end CryptoCore
