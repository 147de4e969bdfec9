import CryptoCore.Framework.EmsaPss

/-!
# The optimal asymmetric encryption padding

The padding over an arbitrary mask generator: a data block of the hash of the label, zeros, a one
and the message, masked by the mask of a seed, and the seed masked by the mask of that. A zero byte
is in front of both.

`decode` takes the masks off again. It accepts what `encode` produces, and nothing else: with a seed
as long as the hash of the label, `decode_encode` gives the message back, and `exists_of_decode`
finds, for everything that decodes, the seed that encodes to it. What decodes is what can be
encoded.

The only assumption on the mask generator is that a mask has the length that is asked for. Nothing
is said about what a mask hides.

`separate` is the reader of the zeros and the one. It is defined by recursion, as the specification
of what a constant-time loop over all bytes computes, and `separate_eq_some_iff` says what it
accepts.
-/

namespace EmeOaep

open ByteStrings EmsaPss

/-! ## The separator -/

/-- What follows the first one, when only zeros are in front of it. Any other byte in front of the
one is refused. -/
def separate : List UInt8 → Option (List UInt8)
  | [] => none
  | b :: bs => if b = 0 then separate bs else if b = 1 then some bs else none

lemma separate_eq_some_iff {bytes message : List UInt8} :
    separate bytes = some message ↔ ∃ n, bytes = List.replicate n 0 ++ 1 :: message := by
  induction bytes with
  | nil =>
      constructor
      · exact nofun
      · rintro ⟨n, h⟩
        have hlength := congrArg List.length h
        simp at hlength
  | cons b bs ih =>
      rw [separate]
      by_cases hzero : b = 0
      -- A zero belongs to the run in front of the separator, one more than what follows it has.
      · rw [if_pos hzero, ih, hzero]
        constructor
        · rintro ⟨n, rfl⟩
          exact ⟨n + 1, rfl⟩
        · rintro ⟨n, h⟩
          cases n with
          | zero => exact absurd (List.cons.inj h).1 (by decide)
          | succ n => exact ⟨n, (List.cons.inj h).2⟩
      · rw [if_neg hzero]
        constructor
        · intro h
          split at h
          · next hone =>
              rw [hone, Option.some.inj h]
              exact ⟨0, rfl⟩
          · cases h
        · rintro ⟨n, h⟩
          cases n with
          | zero =>
              obtain ⟨rfl, rfl⟩ := List.cons.inj h
              exact if_pos rfl
          | succ n => exact absurd (List.cons.inj h).1 hzero

/-! ## The padding -/

section Padding

variable (labelHash : List UInt8) (mask : List UInt8 → ℕ → List UInt8)

/-- The hash of the label, zeros, a one and the message. The zeros fill the block up to its size. -/
def dataBlock (size : ℕ) (message : List UInt8) : List UInt8 :=
  labelHash ++ List.replicate (size - labelHash.length - message.length - 1) 0 ++ 1 :: message

/-- An encoded message of `size` bytes. The zero byte in front keeps it below a modulus of the same
size. -/
def encode (size : ℕ) (message seed : List UInt8) : List UInt8 :=
  let blockSize := size - labelHash.length - 1
  let maskedBlock := xorBytes (dataBlock labelHash blockSize message) (mask seed blockSize)
  0 :: (xorBytes seed (mask maskedBlock labelHash.length) ++ maskedBlock)

/-- The seed that the parts of an encoded message hide. Its mask is the mask of the masked data
block, which is at hand. -/
def recoveredSeed (maskedSeed maskedBlock : List UInt8) : List UInt8 :=
  xorBytes maskedSeed (mask maskedBlock maskedSeed.length)

/-- The data block that the parts of an encoded message hide, under the mask of the recovered seed.
-/
def recoveredBlock (maskedSeed maskedBlock : List UInt8) : List UInt8 :=
  xorBytes maskedBlock (mask (recoveredSeed mask maskedSeed maskedBlock) maskedBlock.length)

/-- The message of an encoded message whose label has this hash. All checks fail in the same way. -/
def decode (em : List UInt8) : Option (List UInt8) :=
  let maskedSeed := (em.drop 1).take labelHash.length
  let maskedBlock := em.drop (1 + labelHash.length)
  let block := recoveredBlock mask maskedSeed maskedBlock
  if em.headD 0 = 0 ∧ block.take labelHash.length = labelHash then
    separate (block.drop labelHash.length)
  else none

variable {labelHash mask} (hmask : ∀ seed size, (mask seed size).length = size)
  {size : ℕ} {message seed : List UInt8}

lemma length_dataBlock {blockSize : ℕ} (h : labelHash.length + message.length + 1 ≤ blockSize) :
    (dataBlock labelHash blockSize message).length = blockSize := by
  simp only [dataBlock, List.length_append, List.length_replicate, List.length_cons]
  omega

include hmask

lemma length_encode (hseed : seed.length = labelHash.length)
    (h : 2 * labelHash.length + 2 + message.length ≤ size) :
    (encode labelHash mask size message seed).length = size := by
  have hblock : labelHash.length + message.length + 1 ≤ size - labelHash.length - 1 := by omega
  simp only [encode, List.length_cons, List.length_append]
  rw [length_xorBytes (by rw [hmask, hseed]),
    length_xorBytes (by rw [hmask, length_dataBlock hblock]), length_dataBlock hblock, hseed]
  omega

/-- The zero byte in front bounds the number that an encoded message stands for, by the numbers of
one byte less. -/
lemma beValue_encode_lt (hseed : seed.length = labelHash.length)
    (h : 2 * labelHash.length + 2 + message.length ≤ size) :
    beValue (encode labelHash mask size message seed) < 256 ^ (size - 1) := by
  have hlength := length_encode hmask hseed h
  obtain ⟨rest, hrest⟩ : ∃ rest, encode labelHash mask size message seed = 0 :: rest := ⟨_, rfl⟩
  rw [hrest, List.length_cons] at hlength
  rw [hrest, beValue_cons, show (0 : UInt8).toNat = 0 from rfl, Nat.zero_mul, Nat.zero_add,
    ← hlength, Nat.add_sub_cancel]
  exact beValue_lt rest

/-- Decoding takes both masks off, and finds the separator in front of the message even when the
message itself starts with zeros or a one. -/
theorem decode_encode (hseed : seed.length = labelHash.length)
    (h : 2 * labelHash.length + 2 + message.length ≤ size) :
    decode labelHash mask (encode labelHash mask size message seed) = some message := by
  have hblock : labelHash.length + message.length + 1 ≤ size - labelHash.length - 1 := by omega
  have hlength := length_dataBlock hblock
  set maskedBlock := xorBytes (dataBlock labelHash (size - labelHash.length - 1) message)
    (mask seed (size - labelHash.length - 1)) with hmaskedBlock
  set maskedSeed := xorBytes seed (mask maskedBlock labelHash.length) with hmaskedSeed
  have hseedLength : maskedSeed.length = labelHash.length := by
    rw [hmaskedSeed, length_xorBytes (by rw [hmask, hseed]), hseed]
  have hblockLength : maskedBlock.length = size - labelHash.length - 1 := by
    rw [hmaskedBlock, length_xorBytes (by rw [hmask, hlength]), hlength]
  have hencode : encode labelHash mask size message seed = 0 :: (maskedSeed ++ maskedBlock) := rfl
  have htake : ((0 :: (maskedSeed ++ maskedBlock)).drop 1).take labelHash.length = maskedSeed :=
    List.take_left' hseedLength
  have hdrop : (0 :: (maskedSeed ++ maskedBlock)).drop (1 + labelHash.length) = maskedBlock := by
    rw [Nat.add_comm, List.drop_succ_cons]
    exact List.drop_left' hseedLength
  have hrecoveredSeed : recoveredSeed mask maskedSeed maskedBlock = seed := by
    rw [recoveredSeed, hseedLength, hmaskedSeed, xorBytes_xorBytes (by rw [hmask, hseed])]
  have hrecovered : recoveredBlock mask maskedSeed maskedBlock =
      dataBlock labelHash (size - labelHash.length - 1) message := by
    rw [recoveredBlock, hrecoveredSeed, hblockLength, hmaskedBlock,
      xorBytes_xorBytes (by rw [hmask, hlength])]
  rw [decode, hencode, htake, hdrop, hrecovered, dataBlock, List.append_assoc]
  rw [List.take_left' rfl, List.drop_left' rfl, if_pos ⟨rfl, rfl⟩]
  exact separate_eq_some_iff.mpr ⟨_, rfl⟩

/-- What decodes is the encoding of its message under its seed. The sizes that the encoding needs
follow from the separator being inside the block. -/
theorem exists_of_decode {em : List UInt8} (hsize : 2 * labelHash.length + 2 ≤ em.length)
    (h : decode labelHash mask em = some message) :
    ∃ seed : List UInt8, seed.length = labelHash.length ∧
      2 * labelHash.length + 2 + message.length ≤ em.length ∧
      em = encode labelHash mask em.length message seed := by
  rw [decode] at h
  set maskedSeed := (em.drop 1).take labelHash.length with hmaskedSeed
  set maskedBlock := em.drop (1 + labelHash.length) with hmaskedBlock
  split at h
  case isFalse => cases h
  case isTrue hguard =>
    obtain ⟨hzero, hlabel⟩ := hguard
    obtain ⟨n, hseparate⟩ := separate_eq_some_iff.mp h
    have hseedLength : maskedSeed.length = labelHash.length := by
      rw [hmaskedSeed, List.length_take, List.length_drop]
      omega
    have hblockLength : maskedBlock.length = em.length - labelHash.length - 1 := by
      rw [hmaskedBlock, List.length_drop]
      omega
    have hparts : em = 0 :: (maskedSeed ++ maskedBlock) := by
      have hdrop : maskedBlock = (em.drop 1).drop labelHash.length := by
        rw [hmaskedBlock, List.drop_drop, Nat.add_comm]
      rw [hdrop, hmaskedSeed, List.take_append_drop]
      cases em with
      | nil => simp at hsize
      | cons b bs =>
          rw [List.headD_cons] at hzero
          rw [hzero]
          rfl
    set block := recoveredBlock mask maskedSeed maskedBlock with hblock
    have hblockSize : block.length = em.length - labelHash.length - 1 := by
      rw [hblock, recoveredBlock, length_xorBytes (hmask _ _).symm, hblockLength]
    -- The recovered block is the data block of the message.
    have hshape : block = labelHash ++ (List.replicate n 0 ++ 1 :: message) := by
      rw [← List.take_append_drop labelHash.length block, hlabel, hseparate]
    have hn : em.length - labelHash.length - 1 = labelHash.length + (n + (message.length + 1)) := by
      rw [← hblockSize, hshape]
      simp only [List.length_append, List.length_replicate, List.length_cons]
    have hdata : dataBlock labelHash (em.length - labelHash.length - 1) message = block := by
      rw [dataBlock, hshape, List.append_assoc]
      congr 3
      omega
    refine ⟨recoveredSeed mask maskedSeed maskedBlock, ?_, by omega, ?_⟩
    · rw [recoveredSeed, length_xorBytes (hmask _ _).symm, hseedLength]
    · -- Masking the seed and the block again gives the parts back.
      have hmaskBlock : xorBytes block (mask (recoveredSeed mask maskedSeed maskedBlock)
          (em.length - labelHash.length - 1)) = maskedBlock := by
        rw [hblock, recoveredBlock, hblockLength, xorBytes_xorBytes (by rw [hmask, hblockLength])]
      have hmaskSeed : xorBytes (recoveredSeed mask maskedSeed maskedBlock)
          (mask maskedBlock labelHash.length) = maskedSeed := by
        rw [recoveredSeed, hseedLength, xorBytes_xorBytes (by rw [hmask, hseedLength])]
      rw [encode, hdata, hmaskBlock, hmaskSeed]
      exact hparts

end Padding

end EmeOaep
