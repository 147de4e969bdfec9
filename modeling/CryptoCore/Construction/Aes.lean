import CryptoCore.Construction.Result
import CryptoCore.Framework.Loops

/-!
# The AES block cipher

The state is a block of sixteen bytes, column after column. `AesBlockCipher.create` expands a key of
16, 24 or 32 bytes into round keys; `encryptBlock` and `decryptBlock` run the rounds forwards and
backwards.

Everything is translated table by table and step by step from `aes.cpp`: the two substitution boxes,
the key schedule on words, and the four steps of a round with their inverses. The products in the
field of the cipher are computed by a loop over the bits of one factor, as in the source.

The proofs show that decryption undoes encryption. Each step has a lemma that its inverse takes it
back; the only one with an argument is `invMixColumns_mixColumns`, which is reduced to one row of
one column (`inverse_row`) by the symmetry of the two maps and then to facts about single bytes,
since multiplication by a constant is additive. `decryptState_encryptState` lines the rounds up. The
other direction needs no second computation: a left inverse on a finite set is a right inverse
(`encryptState_decryptState`). The modes in `Construction/AesCbc.lean` and
`Construction/AesGcm.lean` use the cipher only through these two theorems and the lemmas that it
never fails on a block; the run on checked arrays is in `Properties/Aes.lean`.
-/

namespace CryptoCore

open Loops

namespace Aes

/-- Sixteen bytes: the cipher state, and the blocks of the modes built on it. -/
abbrev Block := Vector UInt8 16

/-! ## Tables -/

/-- The substitution box, its inverse and the round constants, as the source has them. -/
def sbox : List UInt8 :=
  [0x63, 0x7c, 0x77, 0x7b, 0xf2, 0x6b, 0x6f, 0xc5, 0x30, 0x01, 0x67, 0x2b, 0xfe, 0xd7, 0xab, 0x76,
    0xca, 0x82, 0xc9, 0x7d, 0xfa, 0x59, 0x47, 0xf0, 0xad, 0xd4, 0xa2, 0xaf, 0x9c, 0xa4, 0x72, 0xc0,
    0xb7, 0xfd, 0x93, 0x26, 0x36, 0x3f, 0xf7, 0xcc, 0x34, 0xa5, 0xe5, 0xf1, 0x71, 0xd8, 0x31, 0x15,
    0x04, 0xc7, 0x23, 0xc3, 0x18, 0x96, 0x05, 0x9a, 0x07, 0x12, 0x80, 0xe2, 0xeb, 0x27, 0xb2, 0x75,
    0x09, 0x83, 0x2c, 0x1a, 0x1b, 0x6e, 0x5a, 0xa0, 0x52, 0x3b, 0xd6, 0xb3, 0x29, 0xe3, 0x2f, 0x84,
    0x53, 0xd1, 0x00, 0xed, 0x20, 0xfc, 0xb1, 0x5b, 0x6a, 0xcb, 0xbe, 0x39, 0x4a, 0x4c, 0x58, 0xcf,
    0xd0, 0xef, 0xaa, 0xfb, 0x43, 0x4d, 0x33, 0x85, 0x45, 0xf9, 0x02, 0x7f, 0x50, 0x3c, 0x9f, 0xa8,
    0x51, 0xa3, 0x40, 0x8f, 0x92, 0x9d, 0x38, 0xf5, 0xbc, 0xb6, 0xda, 0x21, 0x10, 0xff, 0xf3, 0xd2,
    0xcd, 0x0c, 0x13, 0xec, 0x5f, 0x97, 0x44, 0x17, 0xc4, 0xa7, 0x7e, 0x3d, 0x64, 0x5d, 0x19, 0x73,
    0x60, 0x81, 0x4f, 0xdc, 0x22, 0x2a, 0x90, 0x88, 0x46, 0xee, 0xb8, 0x14, 0xde, 0x5e, 0x0b, 0xdb,
    0xe0, 0x32, 0x3a, 0x0a, 0x49, 0x06, 0x24, 0x5c, 0xc2, 0xd3, 0xac, 0x62, 0x91, 0x95, 0xe4, 0x79,
    0xe7, 0xc8, 0x37, 0x6d, 0x8d, 0xd5, 0x4e, 0xa9, 0x6c, 0x56, 0xf4, 0xea, 0x65, 0x7a, 0xae, 0x08,
    0xba, 0x78, 0x25, 0x2e, 0x1c, 0xa6, 0xb4, 0xc6, 0xe8, 0xdd, 0x74, 0x1f, 0x4b, 0xbd, 0x8b, 0x8a,
    0x70, 0x3e, 0xb5, 0x66, 0x48, 0x03, 0xf6, 0x0e, 0x61, 0x35, 0x57, 0xb9, 0x86, 0xc1, 0x1d, 0x9e,
    0xe1, 0xf8, 0x98, 0x11, 0x69, 0xd9, 0x8e, 0x94, 0x9b, 0x1e, 0x87, 0xe9, 0xce, 0x55, 0x28, 0xdf,
    0x8c, 0xa1, 0x89, 0x0d, 0xbf, 0xe6, 0x42, 0x68, 0x41, 0x99, 0x2d, 0x0f, 0xb0, 0x54, 0xbb, 0x16]

def invSbox : List UInt8 :=
  [0x52, 0x09, 0x6a, 0xd5, 0x30, 0x36, 0xa5, 0x38, 0xbf, 0x40, 0xa3, 0x9e, 0x81, 0xf3, 0xd7, 0xfb,
    0x7c, 0xe3, 0x39, 0x82, 0x9b, 0x2f, 0xff, 0x87, 0x34, 0x8e, 0x43, 0x44, 0xc4, 0xde, 0xe9, 0xcb,
    0x54, 0x7b, 0x94, 0x32, 0xa6, 0xc2, 0x23, 0x3d, 0xee, 0x4c, 0x95, 0x0b, 0x42, 0xfa, 0xc3, 0x4e,
    0x08, 0x2e, 0xa1, 0x66, 0x28, 0xd9, 0x24, 0xb2, 0x76, 0x5b, 0xa2, 0x49, 0x6d, 0x8b, 0xd1, 0x25,
    0x72, 0xf8, 0xf6, 0x64, 0x86, 0x68, 0x98, 0x16, 0xd4, 0xa4, 0x5c, 0xcc, 0x5d, 0x65, 0xb6, 0x92,
    0x6c, 0x70, 0x48, 0x50, 0xfd, 0xed, 0xb9, 0xda, 0x5e, 0x15, 0x46, 0x57, 0xa7, 0x8d, 0x9d, 0x84,
    0x90, 0xd8, 0xab, 0x00, 0x8c, 0xbc, 0xd3, 0x0a, 0xf7, 0xe4, 0x58, 0x05, 0xb8, 0xb3, 0x45, 0x06,
    0xd0, 0x2c, 0x1e, 0x8f, 0xca, 0x3f, 0x0f, 0x02, 0xc1, 0xaf, 0xbd, 0x03, 0x01, 0x13, 0x8a, 0x6b,
    0x3a, 0x91, 0x11, 0x41, 0x4f, 0x67, 0xdc, 0xea, 0x97, 0xf2, 0xcf, 0xce, 0xf0, 0xb4, 0xe6, 0x73,
    0x96, 0xac, 0x74, 0x22, 0xe7, 0xad, 0x35, 0x85, 0xe2, 0xf9, 0x37, 0xe8, 0x1c, 0x75, 0xdf, 0x6e,
    0x47, 0xf1, 0x1a, 0x71, 0x1d, 0x29, 0xc5, 0x89, 0x6f, 0xb7, 0x62, 0x0e, 0xaa, 0x18, 0xbe, 0x1b,
    0xfc, 0x56, 0x3e, 0x4b, 0xc6, 0xd2, 0x79, 0x20, 0x9a, 0xdb, 0xc0, 0xfe, 0x78, 0xcd, 0x5a, 0xf4,
    0x1f, 0xdd, 0xa8, 0x33, 0x88, 0x07, 0xc7, 0x31, 0xb1, 0x12, 0x10, 0x59, 0x27, 0x80, 0xec, 0x5f,
    0x60, 0x51, 0x7f, 0xa9, 0x19, 0xb5, 0x4a, 0x0d, 0x2d, 0xe5, 0x7a, 0x9f, 0x93, 0xc9, 0x9c, 0xef,
    0xa0, 0xe0, 0x3b, 0x4d, 0xae, 0x2a, 0xf5, 0xb0, 0xc8, 0xeb, 0xbb, 0x3c, 0x83, 0x53, 0x99, 0x61,
    0x17, 0x2b, 0x04, 0x7e, 0xba, 0x77, 0xd6, 0x26, 0xe1, 0x69, 0x14, 0x63, 0x55, 0x21, 0x0c, 0x7d]

def rcon : List UInt8 :=
  [0x01, 0x02, 0x04, 0x08, 0x10, 0x20, 0x40, 0x80, 0x1b, 0x36]

/-- The entry of a byte in the substitution box. The default is never read, as the box has 256
entries. -/
def subByte (byte : UInt8) : UInt8 :=
  sbox.getD byte.toNat 0

def invSubByte (byte : UInt8) : UInt8 :=
  invSbox.getD byte.toNat 0

/-! ## Words and field elements -/

/-- A word turned by one byte to the left, so that its highest byte becomes the lowest one. -/
def rotWord (word : UInt32) : UInt32 :=
  (word <<< 8) ||| (word >>> 24)

/-- The substitution of the four bytes of a word, each on its own. -/
def subWord (word : UInt32) : UInt32 :=
  ((subByte (word >>> 24).toUInt8).toUInt32 <<< 24) |||
    ((subByte (word >>> 16).toUInt8).toUInt32 <<< 16) |||
    ((subByte (word >>> 8).toUInt8).toUInt32 <<< 8) ||| (subByte word.toUInt8).toUInt32

/-- Multiplication by `x` in the field of the cipher: a shift, reduced where a bit falls off. -/
def xtime (value : UInt8) : UInt8 :=
  (value <<< 1) ^^^ (if value &&& 0x80 ≠ 0 then 0x1b else 0x00)

/-- The loop of `multiply` with a bound on its rounds. -/
def multiplyLoop : ℕ → UInt8 → UInt8 → UInt8 → UInt8
  | 0, result, _, _ => result
  | rounds + 1, result, lhs, rhs =>
      if rhs = 0 then result
      else multiplyLoop rounds (if rhs &&& 1 ≠ 0 then result ^^^ lhs else result) (xtime lhs)
        (rhs >>> 1)

/-- The product in the field of the cipher. A byte has no bits left after eight rounds. -/
def multiply (lhs rhs : UInt8) : UInt8 :=
  multiplyLoop 8 0 lhs rhs

/-! ## The steps of a round -/

/-- The bytes of a round key, column after column: four words of the schedule, each from its highest
byte down. -/
def roundKeyBytes (roundKeys : Vector UInt32 60) (round : ℕ) : Block :=
  Vector.ofFn fun i =>
    let word := roundKeys.getD (round * 4 + i.val / 4) 0
    (word >>> (24 - 8 * (i.val % 4)).toUInt32).toUInt8

/-- The state with the bytes of a round key added. -/
def addRoundKey (state : Block) (roundKeys : Vector UInt32 60) (round : ℕ) : Block :=
  Vector.zipWith (· ^^^ ·) state (roundKeyBytes roundKeys round)

/-- The substitution of all bytes of a state. The inverse one goes through the other table. -/
def subBytes (state : Block) : Block :=
  state.map subByte

def invSubBytes (state : Block) : Block :=
  state.map invSubByte

/-- The rows turned by zero to three columns, written out on the bytes of the block. -/
def shiftRows (copy : Block) : Block :=
  #v[copy[0], copy[5], copy[10], copy[15], copy[4], copy[9], copy[14], copy[3],
    copy[8], copy[13], copy[2], copy[7], copy[12], copy[1], copy[6], copy[11]]

def invShiftRows (copy : Block) : Block :=
  #v[copy[0], copy[13], copy[10], copy[7], copy[4], copy[1], copy[14], copy[11],
    copy[8], copy[5], copy[2], copy[15], copy[12], copy[9], copy[6], copy[3]]

/-- Every column goes through `mix`, whose four results are the new column. -/
def mapColumns (mix : UInt8 → UInt8 → UInt8 → UInt8 → Vector UInt8 4) (state : Block) : Block :=
  mix state[0] state[1] state[2] state[3] ++ mix state[4] state[5] state[6] state[7] ++
    mix state[8] state[9] state[10] state[11] ++ mix state[12] state[13] state[14] state[15]

/-- The matrix of the cipher on each column, and that of its inverse below. -/
def mixColumns : Block → Block :=
  mapColumns fun a0 a1 a2 a3 =>
    #v[multiply a0 2 ^^^ multiply a1 3 ^^^ a2 ^^^ a3,
      a0 ^^^ multiply a1 2 ^^^ multiply a2 3 ^^^ a3,
      a0 ^^^ a1 ^^^ multiply a2 2 ^^^ multiply a3 3,
      multiply a0 3 ^^^ a1 ^^^ a2 ^^^ multiply a3 2]

def invMixColumns : Block → Block :=
  mapColumns fun a0 a1 a2 a3 =>
    #v[multiply a0 14 ^^^ multiply a1 11 ^^^ multiply a2 13 ^^^ multiply a3 9,
      multiply a0 9 ^^^ multiply a1 14 ^^^ multiply a2 11 ^^^ multiply a3 13,
      multiply a0 13 ^^^ multiply a1 9 ^^^ multiply a2 14 ^^^ multiply a3 11,
      multiply a0 11 ^^^ multiply a1 13 ^^^ multiply a2 9 ^^^ multiply a3 14]

/-- The first sixteen bytes of a span, as a block. -/
def blockOfBytes (bytes : List UInt8) : Block :=
  Vector.ofFn fun i => bytes.getD i.val 0

end Aes

/-! ## The cipher -/

/-- An expanded key. The array has room for the longest schedule; the shorter ones leave its end
unused. -/
structure AesBlockCipher where
  roundKeys : Vector UInt32 60
  roundKeyWords : ℕ
  rounds : ℕ

namespace AesBlockCipher

open Aes

/-- The words copied from the key, at the front of the schedule. -/
def loadKey (key : List UInt8) (keyWords : ℕ) : Vector UInt32 60 :=
  loopUp (fun i words => words.setIfInBounds i (loadBe32 (key.drop (i * 4)))) keyWords
    (Vector.replicate 60 0)

/-- The word `i` of the key schedule, from the word in front of it and the one a key length before.
A long key has one more substitution in the middle of each group. -/
def expandWord (keyWords i : ℕ) (words : Vector UInt32 60) : Vector UInt32 60 :=
  let previous := words.getD (i - 1) 0
  let temp :=
    if i % keyWords = 0 then
      subWord (rotWord previous) ^^^ ((rcon.getD (i / keyWords - 1) 0).toUInt32 <<< 24)
    else if keyWords > 6 ∧ i % keyWords = 4 then subWord previous
    else previous
  words.setIfInBounds i (words.getD (i - keyWords) 0 ^^^ temp)

/-- The expansion of a key. Its size decides the number of rounds. -/
def create (key : List UInt8) : Result AesBlockCipher := do
  require (key.length == 16 || key.length == 24 || key.length == 32)
    (makeError .invalidKey "aes" "AES key size must be exactly 16, 24, or 32 bytes")
  let keyWords := key.length / 4
  let rounds := keyWords + 6
  let roundKeyWords := 4 * (rounds + 1)
  let roundKeys := loopUp (fun i words => expandWord keyWords (keyWords + i) words)
    (roundKeyWords - keyWords) (loadKey key keyWords)
  return {
    roundKeys, roundKeyWords, rounds }

/-- The rounds of an encryption: a round key first, then full rounds, and a last one without a mix
of the columns. -/
def encryptState (cipher : AesBlockCipher) (plaintext : Block) : Block :=
  let state := loopUp (fun i state =>
      addRoundKey (mixColumns (shiftRows (subBytes state))) cipher.roundKeys (i + 1))
    (cipher.rounds - 1) (addRoundKey plaintext cipher.roundKeys 0)
  addRoundKey (shiftRows (subBytes state)) cipher.roundKeys cipher.rounds

/-- The rounds of a decryption, with the inverse steps and the round keys from the last one down. -/
def decryptState (cipher : AesBlockCipher) (ciphertext : Block) : Block :=
  let state := loopDown (fun i state =>
      invMixColumns (addRoundKey (invSubBytes (invShiftRows state)) cipher.roundKeys (i + 1)))
    (cipher.rounds - 1) (addRoundKey ciphertext cipher.roundKeys cipher.rounds)
  addRoundKey (invSubBytes (invShiftRows state)) cipher.roundKeys 0

/-- The encryption of one block, which must have sixteen bytes. -/
def encryptBlock (cipher : AesBlockCipher) (plaintext : List UInt8) : Result ByteBuffer := do
  require (plaintext.length == 16)
    (makeError .invalidArgument "aes" "AES block input must be exactly 16 bytes")
  return (cipher.encryptState (blockOfBytes plaintext)).toList

/-- The decryption of one block, with the same check of its size as in the encryption. -/
def decryptBlock (cipher : AesBlockCipher) (ciphertext : List UInt8) : Result ByteBuffer := do
  require (ciphertext.length == 16)
    (makeError .invalidArgument "aes" "AES block input must be exactly 16 bytes")
  return (cipher.decryptState (blockOfBytes ciphertext)).toList

end AesBlockCipher

namespace Aes

@[simp] lemma blockOfBytes_toList (block : Block) : blockOfBytes block.toList = block := by
  ext i hi
  simp [blockOfBytes, List.getD_eq_getElem?_getD]

lemma encryptBlock_toList (cipher : AesBlockCipher) (block : Block) :
    cipher.encryptBlock block.toList = .ok (cipher.encryptState block).toList := by
  simp [AesBlockCipher.encryptBlock]

lemma decryptBlock_toList (cipher : AesBlockCipher) (block : Block) :
    cipher.decryptBlock block.toList = .ok (cipher.decryptState block).toList := by
  simp [AesBlockCipher.decryptBlock]

/-- The keys that the cipher takes are those of its three sizes. -/
lemma create_ok {key : List UInt8} (hkey : key.length = 16 ∨ key.length = 24 ∨ key.length = 32) :
    ∃ cipher, AesBlockCipher.create key = .ok cipher := by
  have hsize : (key.length == 16 || key.length == 24 || key.length == 32) = true := by
    simpa [or_assoc] using hkey
  rw [AesBlockCipher.create, hsize]
  exact ⟨_, rfl⟩

/-! ## Decryption undoes encryption -/

/-- The inverse box undoes the box, by looking at all 256 bytes. -/
lemma invSubByte_subByte (byte : UInt8) : invSubByte (subByte byte) = byte := by
  obtain ⟨bits⟩ := byte
  revert bits
  decide +kernel

/-- The reduction without a branch: the bit that falls off is added where the constant has bits. -/
lemma xtime_eq (byte : UInt8) :
    xtime byte = byte <<< 1 ^^^ byte >>> 7 ^^^ byte >>> 7 <<< 1 ^^^ byte >>> 7 <<< 3 ^^^
      byte >>> 7 <<< 4 := by
  obtain ⟨bits⟩ := byte
  revert bits
  decide +kernel

/-- Multiplication by `x` is additive, which the form without a branch shows. -/
lemma xtime_xor (a b : UInt8) : xtime (a ^^^ b) = xtime a ^^^ xtime b := by
  simp only [xtime_eq, UInt8.shiftLeft_xor, UInt8.shiftRight_xor]
  ac_rfl

/-- The factors of the two column maps, as sums of powers of `x`. -/
lemma multiply_eq (byte : UInt8) :
    multiply byte 2 = 0 ^^^ xtime byte ∧ multiply byte 3 = 0 ^^^ byte ^^^ xtime byte ∧
      multiply byte 9 = 0 ^^^ byte ^^^ xtime (xtime (xtime byte)) ∧
      multiply byte 11 = 0 ^^^ byte ^^^ xtime byte ^^^ xtime (xtime (xtime byte)) ∧
      multiply byte 13 = 0 ^^^ byte ^^^ xtime (xtime byte) ^^^ xtime (xtime (xtime byte)) ∧
      multiply byte 14 =
        0 ^^^ xtime byte ^^^ xtime (xtime byte) ^^^ xtime (xtime (xtime byte)) :=
  ⟨rfl, rfl, rfl, rfl, rfl, rfl⟩

/-- Multiplication by a factor of the inverse map is additive. -/
lemma multiply_xor (a b : UInt8) {c : UInt8} (hc : c ∈ [9, 11, 13, 14]) :
    multiply (a ^^^ b) c = multiply a c ^^^ multiply b c := by
  have h := multiply_eq
  simp only [List.mem_cons, List.not_mem_nil, or_false] at hc
  rcases hc with rfl | rfl | rfl | rfl
  all_goals
    simp only [(h _).2.2.1, (h _).2.2.2.1, (h _).2.2.2.2.1, (h _).2.2.2.2.2, UInt8.zero_xor,
      xtime_xor]
    ac_rfl

lemma xor_left_comm (a b c : UInt8) : a ^^^ (b ^^^ c) = b ^^^ (a ^^^ c) := by
  ac_rfl

lemma xor_xor_cancel (a b : UInt8) : a ^^^ (a ^^^ b) = b := by
  rw [← UInt8.xor_assoc, UInt8.xor_self, UInt8.zero_xor]

/-- The first row of the inverse map against the columns of the map. -/
lemma inverse_columns (a : UInt8) :
    multiply (multiply a 2) 14 ^^^ multiply a 11 ^^^ multiply a 13 ^^^
      multiply (multiply a 3) 9 = a ∧
    multiply (multiply a 3) 14 ^^^ multiply (multiply a 2) 11 ^^^ multiply a 13 ^^^
      multiply a 9 = 0 ∧
    multiply a 14 ^^^ multiply (multiply a 3) 11 ^^^ multiply (multiply a 2) 13 ^^^
      multiply a 9 = 0 ∧
    multiply a 14 ^^^ multiply a 11 ^^^ multiply (multiply a 3) 13 ^^^
      multiply (multiply a 2) 9 = 0 := by
  have h := multiply_eq
  simp only [(h _).1, (h _).2.1, (h _).2.2.1, (h _).2.2.2.1, (h _).2.2.2.2.1, (h _).2.2.2.2.2,
    UInt8.zero_xor, xtime_xor, UInt8.xor_assoc, UInt8.xor_comm, xor_left_comm, xor_xor_cancel,
    UInt8.xor_self, UInt8.xor_zero, and_self]

/-- A sum of sums, read by columns instead of by rows. -/
lemma xor_transpose (a0 a1 a2 a3 b0 b1 b2 b3 c0 c1 c2 c3 d0 d1 d2 d3 : UInt8) :
    (a0 ^^^ a1 ^^^ a2 ^^^ a3) ^^^ (b0 ^^^ b1 ^^^ b2 ^^^ b3) ^^^ (c0 ^^^ c1 ^^^ c2 ^^^ c3) ^^^
      (d0 ^^^ d1 ^^^ d2 ^^^ d3) =
    (a0 ^^^ b0 ^^^ c0 ^^^ d0) ^^^ (a1 ^^^ b1 ^^^ c1 ^^^ d1) ^^^ (a2 ^^^ b2 ^^^ c2 ^^^ d2) ^^^
      (a3 ^^^ b3 ^^^ c3 ^^^ d3) := by
  ac_rfl

/-- The first byte of a column comes back. The other rows of both maps are this one, turned. -/
lemma inverse_row (a0 a1 a2 a3 : UInt8) :
    multiply (multiply a0 2 ^^^ multiply a1 3 ^^^ a2 ^^^ a3) 14 ^^^
      multiply (a0 ^^^ multiply a1 2 ^^^ multiply a2 3 ^^^ a3) 11 ^^^
      multiply (a0 ^^^ a1 ^^^ multiply a2 2 ^^^ multiply a3 3) 13 ^^^
      multiply (multiply a0 3 ^^^ a1 ^^^ a2 ^^^ multiply a3 2) 9 = a0 := by
  obtain ⟨h0, -, -, -⟩ := inverse_columns a0
  obtain ⟨-, h1, -, -⟩ := inverse_columns a1
  obtain ⟨-, -, h2, -⟩ := inverse_columns a2
  obtain ⟨-, -, -, h3⟩ := inverse_columns a3
  have h14 := fun a b => multiply_xor a b (c := 14) (by decide)
  have h13 := fun a b => multiply_xor a b (c := 13) (by decide)
  have h11 := fun a b => multiply_xor a b (c := 11) (by decide)
  have h9 := fun a b => multiply_xor a b (c := 9) (by decide)
  rw [h14, h14, h14, h13, h13, h13, h11, h11, h11, h9, h9, h9, xor_transpose, h0, h1, h2, h3]
  simp only [UInt8.xor_zero]

lemma getElem_columns (u v w x : Vector UInt8 4) {k : ℕ} (hk : k < 4) :
    (u ++ v ++ w ++ x : Vector UInt8 (4 + 4 + 4 + 4))[k] = u[k] ∧
      (u ++ v ++ w ++ x : Vector UInt8 (4 + 4 + 4 + 4))[4 + k] = v[k] ∧
      (u ++ v ++ w ++ x : Vector UInt8 (4 + 4 + 4 + 4))[8 + k] = w[k] ∧
      (u ++ v ++ w ++ x : Vector UInt8 (4 + 4 + 4 + 4))[12 + k] = x[k] := by
  refine ⟨?_, ?_, ?_, ?_⟩
  · rw [Vector.getElem_append_left (by omega), Vector.getElem_append_left (by omega),
      Vector.getElem_append_left hk]
  · rw [Vector.getElem_append_left (by omega), Vector.getElem_append_left (by omega),
      Vector.getElem_append_right (by omega) (by omega)]
    simp
  · rw [Vector.getElem_append_left (by omega), Vector.getElem_append_right (by omega) (by omega)]
    simp
  · rw [Vector.getElem_append_right (by omega) (by omega)]
    simp

/-- The columns of a block that was put together from four columns. -/
lemma mapColumns_append (mix : UInt8 → UInt8 → UInt8 → UInt8 → Vector UInt8 4)
    (u v w x : Vector UInt8 4) :
    mapColumns mix (u ++ v ++ w ++ x : Vector UInt8 (4 + 4 + 4 + 4)) =
      mix u[0] u[1] u[2] u[3] ++ mix v[0] v[1] v[2] v[3] ++ mix w[0] w[1] w[2] w[3] ++
        mix x[0] x[1] x[2] x[3] := by
  obtain ⟨hu0, hv0, hw0, hx0⟩ := getElem_columns u v w x (k := 0) (by decide)
  obtain ⟨hu1, hv1, hw1, hx1⟩ := getElem_columns u v w x (k := 1) (by decide)
  obtain ⟨hu2, hv2, hw2, hx2⟩ := getElem_columns u v w x (k := 2) (by decide)
  obtain ⟨hu3, hv3, hw3, hx3⟩ := getElem_columns u v w x (k := 3) (by decide)
  rw [← hu0, ← hu1, ← hu2, ← hu3, ← hv0, ← hv1, ← hv2, ← hv3, ← hw0, ← hw1, ← hw2, ← hw3,
    ← hx0, ← hx1, ← hx2, ← hx3]
  rfl

lemma columns_eq (state : Block) :
    (#v[state[0], state[1], state[2], state[3]] ++ #v[state[4], state[5], state[6], state[7]] ++
      #v[state[8], state[9], state[10], state[11]] ++
      #v[state[12], state[13], state[14], state[15]] : Vector UInt8 (4 + 4 + 4 + 4)) = state := by
  ext1 i hi
  obtain ⟨k, hk, hik⟩ : ∃ k < 4, i = k ∨ i = 4 + k ∨ i = 8 + k ∨ i = 12 + k :=
    ⟨i % 4, by omega, by omega⟩
  obtain ⟨hu, hv, hw, hx⟩ := getElem_columns #v[state[0], state[1], state[2], state[3]]
    #v[state[4], state[5], state[6], state[7]] #v[state[8], state[9], state[10], state[11]]
    #v[state[12], state[13], state[14], state[15]] hk
  rcases hik with rfl | rfl | rfl | rfl
  · rw [hu]
    interval_cases i <;> rfl
  · rw [hv]
    interval_cases k <;> rfl
  · rw [hw]
    interval_cases k <;> rfl
  · rw [hx]
    interval_cases k <;> rfl

/-- A map on columns undoes another one when it does so on each column. -/
lemma mapColumns_mapColumns {undo mix : UInt8 → UInt8 → UInt8 → UInt8 → Vector UInt8 4}
    (h : ∀ a0 a1 a2 a3, undo (mix a0 a1 a2 a3)[0] (mix a0 a1 a2 a3)[1] (mix a0 a1 a2 a3)[2]
      (mix a0 a1 a2 a3)[3] = #v[a0, a1, a2, a3]) (state : Block) :
    mapColumns undo (mapColumns mix state) = state := by
  have happend := mapColumns_append undo (mix state[0] state[1] state[2] state[3])
    (mix state[4] state[5] state[6] state[7]) (mix state[8] state[9] state[10] state[11])
    (mix state[12] state[13] state[14] state[15])
  rw [h, h, h, h] at happend
  exact happend.trans (columns_eq state)

lemma invMixColumns_mixColumns (state : Block) : invMixColumns (mixColumns state) = state := by
  refine mapColumns_mapColumns (fun a0 a1 a2 a3 => ?_) state
  have hrow : ∀ {b0 b1 b2 b3 c0 c1 c2 c3 : UInt8}, b0 = c0 → b1 = c1 → b2 = c2 → b3 = c3 →
      #v[b0, b1, b2, b3] = #v[c0, c1, c2, c3] := by
    rintro b0 b1 b2 b3 _ _ _ _ rfl rfl rfl rfl
    rfl
  refine hrow (inverse_row a0 a1 a2 a3) (.trans ?_ (inverse_row a1 a2 a3 a0))
    (.trans ?_ (inverse_row a2 a3 a0 a1)) (.trans ?_ (inverse_row a3 a0 a1 a2))
  all_goals
    simp only [Vector.getElem_mk, List.getElem_toArray, List.getElem_cons_zero,
      List.getElem_cons_succ]
    ac_rfl

lemma invShiftRows_shiftRows (state : Block) : invShiftRows (shiftRows state) = state := by
  ext1 i hi
  interval_cases i <;> rfl

lemma invSubBytes_subBytes (state : Block) : invSubBytes (subBytes state) = state := by
  ext1 i hi
  rw [invSubBytes, subBytes, Vector.getElem_map, Vector.getElem_map, invSubByte_subByte]

lemma addRoundKey_addRoundKey (state : Block) (roundKeys : Vector UInt32 60) (round : ℕ) :
    addRoundKey (addRoundKey state roundKeys round) roundKeys round = state := by
  ext1 i hi
  rw [addRoundKey, addRoundKey, Vector.getElem_zipWith, Vector.getElem_zipWith, UInt8.xor_assoc,
    UInt8.xor_self, UInt8.xor_zero]

end Aes

namespace AesBlockCipher

open Aes

/-- The rounds of a decryption take back those of an encryption. Between the key additions of two
rounds the decryption is one substitution and one shift ahead. -/
theorem decryptState_encryptState (cipher : AesBlockCipher) (block : Block) :
    cipher.decryptState (cipher.encryptState block) = block := by
  have hround : ∀ i < cipher.rounds - 1, ∀ s t : Block,
      t = shiftRows (subBytes
        (addRoundKey (mixColumns (shiftRows (subBytes s))) cipher.roundKeys (i + 1))) →
      invMixColumns (addRoundKey (invSubBytes (invShiftRows t)) cipher.roundKeys (i + 1)) =
        shiftRows (subBytes s) := by
    rintro i - s t rfl
    rw [invShiftRows_shiftRows, invSubBytes_subBytes, addRoundKey_addRoundKey,
      invMixColumns_mixColumns]
  have hrounds := loopDown_of_loopUp (R := fun s t => t = shiftRows (subBytes s)) hround
    (s := addRoundKey block cipher.roundKeys 0) rfl
  rw [encryptState, decryptState, addRoundKey_addRoundKey, hrounds, invShiftRows_shiftRows,
    invSubBytes_subBytes, addRoundKey_addRoundKey]

instance : Finite Block := by
  have : Finite UInt8 := Finite.of_injective UInt8.toFin fun _ _ h => UInt8.toFin_inj.mp h
  refine Finite.of_injective (fun (block : Block) (i : Fin 16) => block[i]) fun v w h => ?_
  exact Vector.ext fun i hi => congrFun h ⟨i, hi⟩

/-- A decryption that takes back every encryption of a finite set is taken back by it. -/
theorem encryptState_decryptState (cipher : AesBlockCipher) (block : Block) :
    cipher.encryptState (cipher.decryptState block) = block := by
  have hinjective : Function.Injective cipher.encryptState :=
    Function.LeftInverse.injective cipher.decryptState_encryptState
  obtain ⟨plaintext, rfl⟩ := Finite.surjective_of_injective hinjective block
  rw [decryptState_encryptState]

end AesBlockCipher

end CryptoCore
