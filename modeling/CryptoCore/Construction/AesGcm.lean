import CryptoCore.Construction.Aes
import CryptoCore.Construction.Memory
import CryptoCore.Framework.Blocks

/-!
# AES-GCM

Counter mode over the block cipher, and a tag computed over the associated data and the ciphertext.
Encryption and decryption share the hash subkey, the first counter block and the tag; they differ in
the side of `gctr` the tag is computed on.

The first half is the code of `aes_gcm.cpp`. Its loop over the counter stops at the first byte that
does not wrap, and its product in the field of the hash runs over the bits of one factor.

The second half says that the parts never fail on a context whose parameters were accepted, and what
they return: `gctrBytes` is the key stream added to the input (`Framework/Blocks.lean` has the
general counter mode), `tagBytes` the tag. Both directions are then one sealed codec
(`aesGcmEncrypt_eq`, `aesGcmDecrypt_eq`), and what decryption accepts is what encryption produced
(`aesGcmDecrypt_eq_ok_iff`).

The last section is about the counter. As a number it is increased by one modulo `2 ^ 32`
(`counterValue_inc32Loop`), so that a block comes back to itself after exactly that many steps
(`minimalPeriod_inc32`); the counter blocks of a message are different exactly while there are fewer
of them. `Properties/AesGcm.lean` ties this to the blocks that a call really encrypts, and
`Properties/Ghash.lean` is about the hash.
-/

namespace CryptoCore

open Loops Blocks

inductive AeadAlgorithm
  | aes128Gcm
  | aes192Gcm
  | aes256Gcm
  deriving DecidableEq, Repr

/-- What a sealing call is given; the tag has sixteen bytes unless another size is asked for. -/
structure AeadEncryptParams where
  algorithm : AeadAlgorithm
  key : List UInt8
  nonce : List UInt8
  aad : List UInt8
  tagSize : ℕ := 16

/-- What an opening call is given. The size of the tag is that of the tag that came in. -/
structure AeadDecryptParams where
  algorithm : AeadAlgorithm
  key : List UInt8
  nonce : List UInt8
  aad : List UInt8
  tag : List UInt8

/-- A ciphertext and its tag, which the caller has to keep together. -/
structure AeadEncryptResult where
  ciphertext : ByteBuffer
  tag : ByteBuffer
  deriving DecidableEq

namespace AesGcm

open Aes

/-- The size of a key by algorithm, in bytes. -/
def expectedKeySize : AeadAlgorithm → ℕ
  | .aes128Gcm => 16
  | .aes192Gcm => 24
  | .aes256Gcm => 32

/-- The checks of both directions, on the tag size that each takes from its own parameters. -/
def validateParams (algorithm : AeadAlgorithm) (key nonce : List UInt8) (tagSize : ℕ) :
    Result Unit := do
  let keySize := expectedKeySize algorithm
  require (keySize != 0)
    (makeError .unsupportedAlgorithm "aes_gcm" "AEAD algorithm is not supported")
  require (key.length == keySize)
    (makeError .invalidKey "aes_gcm" "AES-GCM key size does not match algorithm")
  require (!nonce.isEmpty)
    (makeError .invalidArgument "aes_gcm" "AES-GCM nonce must not be empty")
  require (!(decide (tagSize < 12) || decide (tagSize > 16)))
    (makeError .invalidArgument "aes_gcm" "AES-GCM tag size must be between 12 and 16 bytes")

def validateEncryptParams (params : AeadEncryptParams) : Result Unit :=
  validateParams params.algorithm params.key params.nonce params.tagSize

def validateDecryptParams (params : AeadDecryptParams) : Result Unit :=
  validateParams params.algorithm params.key params.nonce params.tag.length

/-! ## The hash -/

/-- The sum of two blocks, byte by byte. -/
def xorBlock (lhs rhs : Block) : Block :=
  Vector.zipWith (· ^^^ ·) lhs rhs

/-- A bit of a block, where the first one is the highest bit of the first byte. -/
def bitAt (block : Block) (bit : ℕ) : Bool :=
  ((block.getD (bit / 8) 0 >>> (7 - bit % 8).toUInt8) &&& 1) != 0

/-- Every byte takes the last bit of the byte before it. -/
def shiftRightOne (block : Block) : Block :=
  Vector.ofFn fun i =>
    let carry := if i.val = 0 then 0 else block.getD (i.val - 1) 0 &&& 1
    (block.getD i.val 0 >>> 1) ||| (carry <<< 7)

lemma firstByte_lt : 0 < 16 := by norm_num

lemma lastByte_lt : 15 < 16 := by norm_num

/-- One bit of a product: the sum so far and the shifted factor. -/
def gfMultiplyStep (x : Block) (bit : ℕ) (state : Block × Block) : Block × Block :=
  let z := if bitAt x bit then xorBlock state.1 state.2 else state.1
  let shifted := shiftRightOne state.2
  let v := if getElem state.2 15 lastByte_lt &&& 1 ≠ 0 then
    shifted.set 0 (getElem shifted 0 firstByte_lt ^^^ 0xe1) firstByte_lt else shifted
  (z, v)

/-- The product in the field of the hash, bit by bit. -/
def gfMultiply (x y : Block) : Block :=
  (loopUp (gfMultiplyStep x) 128 (Vector.replicate 16 0, y)).1

/-- Absorbs the blocks of an input, the last one filled up with zeros. -/
def ghashUpdate (y h : Block) (input : List UInt8) : Block :=
  (blocks 16 input).foldl (fun y block => gfMultiply (xorBlock y (blockOfBytes block)) h) y

/-- The hash of the associated data and the ciphertext, closed by a block with their lengths in
bits. -/
def ghash (h : Block) (aad ciphertext : List UInt8) : Block :=
  let y := ghashUpdate (ghashUpdate (Vector.replicate 16 0) h aad) h ciphertext
  let lengths := blockOfBytes
    (storeBe64 (UInt64.ofNat aad.length * 8) ++ storeBe64 (UInt64.ofNat ciphertext.length * 8))
  gfMultiply (xorBlock y lengths) h

/-! ## Counter mode -/

/-- The loop of `inc32`, which stops at the first byte that does not wrap. -/
def inc32Loop (counter : Block) : ℕ → Block
  | 0 => counter
  | i + 1 =>
      let byte := counter.getD (12 + i) 0 + 1
      let counter := counter.setIfInBounds (12 + i) byte
      if byte ≠ 0 then counter else inc32Loop counter i

/-- Adds one to the last four bytes of the counter. -/
def inc32 (counter : Block) : Block :=
  inc32Loop counter 4

/-- The encryption of one block as a block: the cipher works on byte strings and checks their size.
-/
def encryptBlock (cipher : AesBlockCipher) (block : Block) : Result Block := do
  let encrypted ← cipher.encryptBlock block.toList
  return blockOfBytes encrypted

/-- The loop of `gctr` over the blocks of its input. -/
def gctrLoop (cipher : AesBlockCipher) : Block → List (List UInt8) → Result ByteBuffer
  | _, [] => .ok []
  | counter, block :: rest => do
      let encryptedCounter ← encryptBlock cipher counter
      let output ← gctrLoop cipher (inc32 counter) rest
      return List.zipWith (· ^^^ ·) block encryptedCounter.toList ++ output

/-- Counter mode from a counter on. The last block may be a part of one. -/
def gctr (cipher : AesBlockCipher) (counter : Block) (input : List UInt8) : Result ByteBuffer :=
  gctrLoop cipher counter (blocks 16 input)

/-! ## The mode -/

/-- The key of the hash: the encryption of the zero block. -/
def makeHashSubkey (cipher : AesBlockCipher) : Result Block :=
  encryptBlock cipher (Vector.replicate 16 0)

/-- The first counter block: a nonce of twelve bytes with a counter of one, the hash of any
other. -/
def makeJ0 (h : Block) (nonce : List UInt8) : Result Block :=
  if nonce.length = 12 then .ok ((blockOfBytes nonce).set 15 1 lastByte_lt)
  else .ok (ghash h [] nonce)

/-- The tag before it is cut to size: the hash with the encryption of the first counter block added.
-/
def computeTagBlock (cipher : AesBlockCipher) (h j0 : Block) (aad ciphertext : List UInt8) :
    Result Block := do
  let s := ghash h aad ciphertext
  let encryptedJ0 ← encryptBlock cipher j0
  return xorBlock s encryptedJ0

end AesGcm

open AesGcm

/-- Sealing. The counter of the message starts behind the one that masks the tag. -/
def aesGcmEncrypt (params : AeadEncryptParams) (plaintext : List UInt8) :
    Result AeadEncryptResult := do
  validateEncryptParams params
  let cipher ← AesBlockCipher.create params.key
  let h ← makeHashSubkey cipher
  let j0 ← makeJ0 h params.nonce
  let ciphertext ← gctr cipher (inc32 j0) plaintext
  let tagBlock ← computeTagBlock cipher h j0 params.aad ciphertext
  return ⟨ciphertext, tagBlock.toList.take params.tagSize⟩

/-- Opening. The tag is compared before anything is decrypted, in time that does not depend on where
it differs. -/
def aesGcmDecrypt (params : AeadDecryptParams) (ciphertext : List UInt8) : Result ByteBuffer := do
  validateDecryptParams params
  let cipher ← AesBlockCipher.create params.key
  let h ← makeHashSubkey cipher
  let j0 ← makeJ0 h params.nonce
  let tagBlock ← computeTagBlock cipher h j0 params.aad ciphertext
  let expectedTag := tagBlock.toList.take params.tag.length
  require (constantTimeEqual expectedTag params.tag)
    (makeError .authenticationFailed "aes_gcm" "AES-GCM authentication failed")
  gctr cipher (inc32 j0) ciphertext

namespace AesGcm

open Aes

/-! ## What the parts compute -/

section Parts

variable (cipher : AesBlockCipher)

lemma encryptBlock_eq (block : Block) :
    encryptBlock cipher block = .ok (cipher.encryptState block) := by
  rw [encryptBlock, Aes.encryptBlock_toList, ok_bind, blockOfBytes_toList]
  rfl

/-- The key stream of a counter: its encryption, as bytes. -/
def keyStream (counter : Block) : List UInt8 :=
  (cipher.encryptState counter).toList

/-- The key stream of one counter is one block long. -/
lemma length_keyStream (counter : Block) : (keyStream cipher counter).length = 16 :=
  Vector.length_toList

/-- The bytes that `gctr` returns, as the counter mode of the library. -/
def gctrBytes (counter : Block) (input : List UInt8) : List UInt8 :=
  counterMode inc32 (keyStream cipher) (· ^^^ ·) counter (blocks 16 input)

/-- The loop computes counter mode, by induction on the blocks. -/
lemma gctrLoop_eq (counter : Block) (input : List (List UInt8)) :
    gctrLoop cipher counter input =
      .ok (counterMode inc32 (keyStream cipher) (· ^^^ ·) counter input) := by
  induction input generalizing counter with
  | nil => rfl
  | cons block rest ih =>
      rw [gctrLoop, encryptBlock_eq, ok_bind, ih]
      rfl

lemma gctr_eq (counter : Block) (input : List UInt8) :
    gctr cipher counter input = .ok (gctrBytes cipher counter input) :=
  gctrLoop_eq cipher counter (blocks 16 input)

lemma gctrBytes_involutive (counter : Block) :
    Function.Involutive (gctrBytes cipher counter) := fun input =>
  counterMode_counterMode (by decide) (length_keyStream cipher)
    (fun a b => by rw [UInt8.xor_assoc, UInt8.xor_self, UInt8.xor_zero]) input counter

/-- The hash subkey: the encryption of the block of zeros. -/
def hashSubkey : Block :=
  cipher.encryptState (Vector.replicate 16 0)

lemma makeHashSubkey_eq : makeHashSubkey cipher = .ok (hashSubkey cipher) :=
  encryptBlock_eq cipher _

/-- The first counter block: a nonce of twelve bytes and the number one, or the hash of any other
nonce. -/
def firstCounter (nonce : List UInt8) : Block :=
  if nonce.length = 12 then (blockOfBytes nonce).set 15 1 lastByte_lt
  else ghash (hashSubkey cipher) [] nonce

lemma makeJ0_eq (nonce : List UInt8) :
    makeJ0 (hashSubkey cipher) nonce = .ok (firstCounter cipher nonce) := by
  rw [makeJ0, firstCounter]
  split <;> rfl

/-- The tag of a ciphertext, cut to its size: the hash under the mask of the first counter block. -/
def tagBytes (nonce aad : List UInt8) (tagSize : ℕ) (ciphertext : List UInt8) : List UInt8 :=
  (xorBlock (ghash (hashSubkey cipher) aad ciphertext)
    (cipher.encryptState (firstCounter cipher nonce))).toList.take tagSize

lemma computeTagBlock_eq (nonce aad ciphertext : List UInt8) :
    computeTagBlock cipher (hashSubkey cipher) (firstCounter cipher nonce) aad ciphertext =
      .ok (xorBlock (ghash (hashSubkey cipher) aad ciphertext)
        (cipher.encryptState (firstCounter cipher nonce))) := by
  rw [computeTagBlock, encryptBlock_eq]
  rfl

end Parts

/-! ## The mode is a sealed codec -/

/-- The parameters that both directions accept: a key of its size, a nonce that is not empty, and a
tag of twelve to sixteen bytes. -/
structure ValidParams (algorithm : AeadAlgorithm) (key nonce : List UInt8) (tagSize : ℕ) :
    Prop where
  key_length : key.length = expectedKeySize algorithm
  nonce_ne_nil : nonce ≠ []
  le_tagSize : 12 ≤ tagSize
  tagSize_le : tagSize ≤ 16

namespace ValidParams

variable {algorithm : AeadAlgorithm} {key nonce : List UInt8} {tagSize : ℕ}

lemma validate (h : ValidParams algorithm key nonce tagSize) :
    validateParams algorithm key nonce tagSize = .ok () := by
  have hsize : (expectedKeySize algorithm != 0) = true := by cases algorithm <;> rfl
  have hkey : (key.length == expectedKeySize algorithm) = true := by simp [h.key_length]
  have hnonce : (!nonce.isEmpty) = true := by simp [h.nonce_ne_nil]
  have htag : (!(decide (tagSize < 12) || decide (tagSize > 16))) = true := by
    simp [h.le_tagSize, h.tagSize_le]
  simp [validateParams, hsize, hkey, hnonce, htag]

lemma cipher (h : ValidParams algorithm key nonce tagSize) :
    ∃ cipher, AesBlockCipher.create key = .ok cipher := by
  apply create_ok
  rw [h.key_length]
  cases algorithm
  · exact Or.inl rfl
  · exact Or.inr (Or.inl rfl)
  · exact Or.inr (Or.inr rfl)

end ValidParams

lemma ValidParams.of_validate {algorithm : AeadAlgorithm} {key nonce : List UInt8} {tagSize : ℕ}
    (h : validateParams algorithm key nonce tagSize = .ok ()) :
    ValidParams algorithm key nonce tagSize := by
  simp only [validateParams] at h
  obtain ⟨_, _, h⟩ := bind_eq_ok.mp h
  obtain ⟨_, hkey, h⟩ := bind_eq_ok.mp h
  obtain ⟨_, hnonce, h⟩ := bind_eq_ok.mp h
  rw [require_eq_ok] at hkey hnonce h
  simp only [Bool.not_eq_true', Bool.or_eq_false_iff, decide_eq_false_iff_not, not_lt] at h
  exact ⟨by simpa using hkey, by simpa using hnonce, h.1, h.2⟩

variable {algorithm : AeadAlgorithm} {key nonce : List UInt8} {tagSize : ℕ}
  {cipher : AesBlockCipher}

/-- Encryption seals the plaintext, in the sense of the library: counter mode, and a tag over the
result. -/
theorem aesGcmEncrypt_eq (hcipher : AesBlockCipher.create key = .ok cipher)
    (h : ValidParams algorithm key nonce tagSize) (aad plaintext : List UInt8) :
    aesGcmEncrypt ⟨algorithm, key, nonce, aad, tagSize⟩ plaintext =
      .ok ⟨(sealWith (gctrBytes cipher (inc32 (firstCounter cipher nonce)))
          (tagBytes cipher nonce aad tagSize) plaintext).1,
        (sealWith (gctrBytes cipher (inc32 (firstCounter cipher nonce)))
          (tagBytes cipher nonce aad tagSize) plaintext).2⟩ := by
  rw [aesGcmEncrypt, validateEncryptParams, h.validate, ok_bind, hcipher, ok_bind,
    makeHashSubkey_eq, ok_bind, makeJ0_eq, ok_bind, gctr_eq, ok_bind, computeTagBlock_eq]
  rfl

/-- Decryption opens the ciphertext: it compares the tag, and undoes the counter mode. -/
theorem aesGcmDecrypt_eq (hcipher : AesBlockCipher.create key = .ok cipher) {tag : List UInt8}
    (h : ValidParams algorithm key nonce tag.length) (aad ciphertext : List UInt8) :
    aesGcmDecrypt ⟨algorithm, key, nonce, aad, tag⟩ ciphertext =
      openWith (gctrBytes cipher (inc32 (firstCounter cipher nonce)))
        (tagBytes cipher nonce aad tag.length)
        (makeError .authenticationFailed "aes_gcm" "AES-GCM authentication failed")
        ciphertext tag := by
  rw [aesGcmDecrypt, validateDecryptParams, h.validate, ok_bind, hcipher, ok_bind,
    makeHashSubkey_eq, ok_bind, makeJ0_eq, ok_bind, computeTagBlock_eq, ok_bind, openWith]
  change (do
    require (constantTimeEqual (tagBytes cipher nonce aad tag.length ciphertext) tag) _
    gctr cipher (inc32 (firstCounter cipher nonce)) ciphertext) = _
  by_cases htag : tagBytes cipher nonce aad tag.length ciphertext = tag
  · rw [if_pos htag, constantTimeEqual_eq, decide_eq_true htag, require_true, ok_bind, gctr_eq]
  · rw [if_neg htag, constantTimeEqual_eq, decide_eq_false htag, require_false, error_bind]

/-- What decryption accepts is what encryption produced, with the plaintext that it was produced
from. -/
theorem aesGcmDecrypt_eq_ok_iff {tag : List UInt8}
    (h : ValidParams algorithm key nonce tag.length) (aad ciphertext plaintext : List UInt8) :
    aesGcmDecrypt ⟨algorithm, key, nonce, aad, tag⟩ ciphertext = .ok plaintext ↔
      aesGcmEncrypt ⟨algorithm, key, nonce, aad, tag.length⟩ plaintext =
        .ok ⟨ciphertext, tag⟩ := by
  obtain ⟨cipher, hcipher⟩ := h.cipher
  have hcrypt := gctrBytes_involutive cipher (inc32 (firstCounter cipher nonce))
  rw [aesGcmDecrypt_eq hcipher h, aesGcmEncrypt_eq hcipher h,
    openWith_eq_ok hcrypt.leftInverse hcrypt.rightInverse, Except.ok.injEq,
    AeadEncryptResult.mk.injEq, Prod.ext_iff]

lemma length_tagBytes (cipher : AesBlockCipher) (nonce aad ciphertext : List UInt8)
    (htag : tagSize ≤ 16) : (tagBytes cipher nonce aad tagSize ciphertext).length = tagSize := by
  rw [tagBytes, List.length_take, Vector.length_toList]
  exact Nat.min_eq_left htag

/-! ## The counter blocks of one call -/

/-- The counter blocks of `gctr`, in the order in which they are encrypted. -/
def gctrCounters (counter : Block) (input : List UInt8) : List Block :=
  counters inc32 counter (blocks 16 input)

/-- Reading a block after one of its bytes was set. -/
lemma getD_setIfInBounds (block : Block) {i : ℕ} (hi : i < 16) (byte : UInt8) (j : ℕ) :
    (block.setIfInBounds i byte).getD j 0 = if i = j then byte else block.getD j 0 := by
  by_cases hj : j < 16
  · simp only [Vector.getD, Array.getD, Vector.toArray_setIfInBounds, Array.size_setIfInBounds,
      Vector.size_toArray, hj, dite_true, Array.getInternal_eq_getElem, Array.getElem_setIfInBounds]
  · have hne : i ≠ j := by omega
    simp [Vector.getD, Array.getD, hj, hne]

/-- The first bytes of the counter, which starts at byte twelve. -/
def counterValue (counter : Block) : ℕ → ℕ
  | 0 => 0
  | i + 1 => counterValue counter i * 2 ^ 8 + (counter.getD (12 + i) 0).toNat

lemma counterValue_congr {lhs rhs : Block} {i : ℕ}
    (h : ∀ j < i, lhs.getD (12 + j) 0 = rhs.getD (12 + j) 0) :
    counterValue lhs i = counterValue rhs i := by
  induction i with
  | zero => rfl
  | succ i ih =>
      rw [counterValue, counterValue, h i (Nat.lt_succ_self i),
        ih fun j hj => h j (Nat.lt_succ_of_lt hj)]

/-- The counter of `i` bytes is below `2 ^ (8 * i)`. -/
lemma counterValue_lt (counter : Block) (i : ℕ) : counterValue counter i < 2 ^ (8 * i) := by
  induction i with
  | zero => exact Nat.one_pos
  | succ i ih =>
      have hbyte := (counter.getD (12 + i) 0).toNat_lt
      rw [counterValue, Nat.mul_succ, pow_add]
      omega

lemma getD_of_counterValue_eq {lhs rhs : Block} {i : ℕ}
    (h : counterValue lhs i = counterValue rhs i) :
    ∀ j < i, lhs.getD (12 + j) 0 = rhs.getD (12 + j) 0 := by
  induction i with
  | zero => intro j hj; exact absurd hj (Nat.not_lt_zero j)
  | succ i ih =>
      have hlhs := (lhs.getD (12 + i) 0).toNat_lt
      have hrhs := (rhs.getD (12 + i) 0).toNat_lt
      rw [counterValue, counterValue] at h
      intro j hj
      rcases Nat.lt_succ_iff_lt_or_eq.mp hj with hlt | heq
      · exact ih (by omega) j hlt
      · rw [heq, ← UInt8.toNat_inj]
        omega

lemma getD_inc32Loop (counter : Block) {i : ℕ} (hi : i ≤ 4) (j : ℕ) (hj : j < 12 ∨ 12 + i ≤ j) :
    (inc32Loop counter i).getD j 0 = counter.getD j 0 := by
  induction i generalizing counter with
  | zero => rfl
  | succ i ih =>
      have hset : (counter.setIfInBounds (12 + i) (counter.getD (12 + i) 0 + 1)).getD j 0 =
          counter.getD j 0 := by
        rw [getD_setIfInBounds counter (by omega), if_neg (by omega)]
      rw [inc32Loop]
      split
      · exact hset
      · rw [ih _ (by omega) (by omega), hset]

/-- The loop adds one to the counter: a byte that wraps carries into the bytes in front of it. -/
lemma counterValue_inc32Loop (counter : Block) {i : ℕ} (hi : i ≤ 4) :
    counterValue (inc32Loop counter i) i = (counterValue counter i + 1) % 2 ^ (8 * i) := by
  induction i generalizing counter with
  | zero => rw [mul_zero, pow_zero, Nat.mod_one, counterValue]
  | succ i ih =>
      have hlt := counterValue_lt counter i
      have hbyte := (counter.getD (12 + i) 0).toNat_lt
      have hset : ∀ j, (counter.setIfInBounds (12 + i) (counter.getD (12 + i) 0 + 1)).getD j 0 =
          if 12 + i = j then counter.getD (12 + i) 0 + 1 else counter.getD j 0 :=
        getD_setIfInBounds counter (by omega) _
      have hfront : counterValue
          (counter.setIfInBounds (12 + i) (counter.getD (12 + i) 0 + 1)) i =
          counterValue counter i :=
        counterValue_congr fun j hj => by rw [hset, if_neg (by omega)]
      have hsucc : (counter.getD (12 + i) 0 + 1).toNat =
          ((counter.getD (12 + i) 0).toNat + 1) % 2 ^ 8 := UInt8.toNat_add _ _
      have hpow : (2 : ℕ) ^ (8 * (i + 1)) = 2 ^ (8 * i) * 2 ^ 8 := by
        rw [Nat.mul_succ, pow_add]
      rw [inc32Loop, hpow]
      -- The byte rolled over to zero: the loop goes on, and the rest of the counter takes the
      -- carry.
      by_cases hcarry : counter.getD (12 + i) 0 + 1 = 0
      · rw [if_neg (not_not.mpr hcarry), counterValue, ih _ (by omega), hfront,
          getD_inc32Loop _ (by omega) _ (Or.inr (le_refl _)), hset, if_pos rfl, hcarry,
          counterValue]
        rw [hcarry, UInt8.toNat_zero] at hsucc
        have hfull : (counter.getD (12 + i) 0).toNat = 2 ^ 8 - 1 := by omega
        have hwrap : counterValue counter i * 2 ^ 8 + (2 ^ 8 - 1) + 1 =
            (counterValue counter i + 1) * 2 ^ 8 := by ring
        rw [hfull, hwrap, Nat.mul_mod_mul_right, UInt8.toNat_zero, add_zero]
      · have hne : (counter.getD (12 + i) 0 + 1).toNat ≠ 0 := fun h =>
          hcarry (UInt8.toNat_inj.mp h)
        rw [if_pos hcarry, counterValue, hfront, hset, if_pos rfl, counterValue,
          Nat.mod_eq_of_lt]
        · omega
        · omega

lemma getD_inc32_front (counter : Block) {j : ℕ} (hj : j < 12) :
    (inc32 counter).getD j 0 = counter.getD j 0 :=
  getD_inc32Loop counter (le_refl 4) j (Or.inl hj)

/-- One step adds one to the counter, modulo `2 ^ 32`. -/
lemma counterValue_inc32 (counter : Block) :
    counterValue (inc32 counter) 4 = (counterValue counter 4 + 1) % 2 ^ 32 :=
  counterValue_inc32Loop counter (le_refl 4)

lemma getD_inc32_iterate_front (counter : Block) (k : ℕ) {j : ℕ} (hj : j < 12) :
    (inc32^[k] counter).getD j 0 = counter.getD j 0 := by
  induction k with
  | zero => rfl
  | succ k ih => rw [Function.iterate_succ_apply', getD_inc32_front _ hj, ih]

lemma counterValue_inc32_iterate (counter : Block) (k : ℕ) :
    counterValue (inc32^[k] counter) 4 = (counterValue counter 4 + k) % 2 ^ 32 := by
  induction k with
  | zero =>
      have hlt : counterValue counter 4 < 2 ^ 32 := counterValue_lt counter 4
      rw [Function.iterate_zero_apply, add_zero, Nat.mod_eq_of_lt hlt]
  | succ k ih =>
      rw [Function.iterate_succ_apply', counterValue_inc32, ih, Nat.mod_add_mod, add_assoc]

/-- A block is the twelve bytes in front of its counter and the counter. -/
lemma block_ext {lhs rhs : Block} (hfront : ∀ j < 12, lhs.getD j 0 = rhs.getD j 0)
    (hvalue : counterValue lhs 4 = counterValue rhs 4) : lhs = rhs := by
  apply Vector.ext
  intro j hj
  have hget : lhs.getD j 0 = rhs.getD j 0 := by
    by_cases hlt : j < 12
    · exact hfront j hlt
    · have h := getD_of_counterValue_eq hvalue (j - 12) (by omega)
      rwa [Nat.add_sub_cancel' (by omega)] at h
  simpa [Vector.getD, hj] using hget

/-- A block is reached again exactly after a multiple of `2 ^ 32` steps. -/
lemma inc32_iterate_eq_iff (counter : Block) (k : ℕ) :
    Function.IsPeriodicPt inc32 k counter ↔ 2 ^ 32 ∣ k := by
  have hlt := counterValue_lt counter 4
  have hvalue := counterValue_inc32_iterate counter k
  constructor
  · intro h
    rw [h] at hvalue
    omega
  · intro hdvd
    exact block_ext (fun j hj => getD_inc32_iterate_front counter k hj) (by omega)

/-- Every block comes back to itself after `2 ^ 32` steps, and not before. -/
theorem minimalPeriod_inc32 (counter : Block) : Function.minimalPeriod inc32 counter = 2 ^ 32 :=
  Nat.dvd_antisymm ((inc32_iterate_eq_iff counter _).mpr dvd_rfl).minimalPeriod_dvd
    ((inc32_iterate_eq_iff counter _).mp (Function.isPeriodicPt_minimalPeriod inc32 counter))

lemma mem_periodicPts_inc32 (counter : Block) : counter ∈ Function.periodicPts inc32 :=
  Function.mk_mem_periodicPts (by norm_num) ((inc32_iterate_eq_iff counter (2 ^ 32)).mpr dvd_rfl)

/-- The blocks that a call encrypts are different exactly while there are fewer than `2 ^ 32`
blocks in its message, whatever block it starts from. -/
theorem gctrCounters_fresh_iff (j0 : Block) (input : List UInt8) :
    ((gctrCounters (inc32 j0) input).Nodup ∧ j0 ∉ gctrCounters (inc32 j0) input) ↔
      (blocks 16 input).length < 2 ^ 32 := by
  have hiterate : j0 :: gctrCounters (inc32 j0) input =
      List.iterate inc32 j0 ((blocks 16 input).length + 1) := by
    rw [gctrCounters, counters_eq]
    rfl
  rw [and_comm, ← List.nodup_cons, hiterate, nodup_iterate_iff (mem_periodicPts_inc32 j0),
    minimalPeriod_inc32, Nat.succ_le_iff]

end AesGcm

end CryptoCore
