import CryptoCore.Construction.Memory
import CryptoCore.Construction.Sha2
import CryptoCore.Framework.EmsaPss

/-!
# The RSA-PSS encoding

`emsaPssEncode` and `emsaPssVerify` are the encoding of `EmsaPss` over the two hashes and the mask
generator `mgf1`. Both take a number of bits as `size_t` and round it up to bytes in that type,
where the last seven values wrap to a size of zero. Behind the rounding each has a body on natural
numbers, `emsaPssEncodeSized` and `emsaPssVerifySized`; the sections at the end relate the two.

The verifying body computes its own sizes in the width of `size_t` as well, since the salt length is
the caller's: near the top of that type the sum with the size of the hash wraps, and the check goes
on with sizes that stand for nothing. For every other salt length it is the check `Verifies` of
`Framework/EmsaPss.lean` (`emsaPssVerifySized_eq`). What happens where it wraps is the subject of
`Properties/EmsaPss.lean`, on checked arrays.

The mask generator is a loop on a counter of four bytes: `mgf1_eq` says that it never fails and cuts
the digests of the seed to size. The five checks of the verifier are masks that are combined by
conjunction (`validMask_eq`), so that their order does not matter. The users are the signatures of
`Construction/NativeProvider.lean`.
-/

namespace CryptoCore

open ByteStrings EmsaPss

/-- The two hashes and the length of the salt. The defaults are those of SHA-256. -/
structure RsaPssParams where
  messageHash : HashAlgorithm := .sha256
  mgf1Hash : HashAlgorithm := .sha256
  saltLength : UInt64 := UInt64.ofNat (digestSize .sha256)

def RsaPssParams.forHash (hash : HashAlgorithm) : RsaPssParams :=
  { messageHash := hash, mgf1Hash := hash, saltLength := UInt64.ofNat (digestSize hash) }

namespace RsaPss

/-- The error of the encoding and of its check, under its category. -/
def pssError (code : ErrorCode) (message : String) : Error :=
  makeError code "rsa_pss" message

/-- The digest of an input, by the context of its algorithm. -/
def digest (algorithm : HashAlgorithm) (input : List UInt8) : Result ByteBuffer :=
  match algorithm with
  | .sha256 => do
      let context ← ({} : Sha256Context).update input
      let (digest, _) ← context.final
      return digest
  | .sha512 => do
      let context ← ({} : Sha512Context).update input
      let (digest, _) ← context.final
      return digest

/-- The loop of `mgf1`. Every round adds at least one byte, so that the size of the output bounds
the number of rounds. -/
def mgf1Loop (algorithm : HashAlgorithm) (seed : List UInt8) (outputSize : ℕ) :
    ℕ → UInt32 → ByteBuffer → Result ByteBuffer
  | 0, _, output => .ok output
  | rounds + 1, counter, output =>
      if output.length < outputSize then do
        let block ← digest algorithm (seed ++ storeBe32 counter)
        let take := min block.length (outputSize - output.length)
        mgf1Loop algorithm seed outputSize rounds (counter + 1) (output ++ block.take take)
      else .ok output

/-- The mask generator: digests of the seed under a counter, cut to size. -/
def mgf1 (algorithm : HashAlgorithm) (seed : List UInt8) (outputSize : ℕ) : Result ByteBuffer :=
  mgf1Loop algorithm seed outputSize outputSize 0 []

/-- The hash of a message hash and a salt, behind eight zero bytes. -/
def pssHash (algorithm : HashAlgorithm) (messageHash salt : List UInt8) : Result ByteBuffer :=
  digest algorithm (List.replicate 8 0 ++ messageHash ++ salt)

/-- The checks that both sides begin with: supported hashes, and a message hash of the right size.
-/
def checkHashes (messageHash : List UInt8) (params : RsaPssParams) : Result Unit := do
  require (!(digestSize params.messageHash == 0 || digestSize params.mgf1Hash == 0))
    (pssError .unsupportedAlgorithm "hash algorithm is not supported")
  require (messageHash.length == digestSize params.messageHash)
    (pssError .invalidArgument "message hash size does not match RSA-PSS hash algorithm")

end RsaPss

open RsaPss

/-- The body of `emsaPssEncode`, from the size of the encoded message and the number of unused bits
in its first byte. The salt is a vector in memory, so that its size plus that of the hash stays far
below the top of `size_t`, and the sum is one of natural numbers. -/
def emsaPssEncodeSized (encodedSize unusedBits : ℕ) (messageHash salt : List UInt8)
    (params : RsaPssParams) : Result ByteBuffer := do
  let hashSize := digestSize params.messageHash
  checkHashes messageHash params
  require (salt.length == params.saltLength.toNat)
    (pssError .invalidArgument "salt size does not match RSA-PSS salt length")
  require (!(decide (encodedSize < hashSize + salt.length + 2)))
    (pssError .invalidArgument "RSA-PSS encoded message is too short for hash and salt")
  let hash ← pssHash params.messageHash messageHash salt
  let dbSize := encodedSize - hashSize - 1
  let paddingSize := encodedSize - salt.length - hashSize - 2
  let db := List.replicate paddingSize 0 ++ 0x01 :: salt
  let dbMask ← mgf1 params.mgf1Hash hash dbSize
  let db := List.zipWith (· ^^^ ·) db dbMask
  let db := if unusedBits > 0 then
      db.set 0 (db.headD 0 &&& (0xFF >>> UInt8.ofNat unusedBits))
    else db
  return db ++ hash ++ [0xBC]

/-- The caller's number of bits is rounded up to bytes in the width of `size_t`: the last seven
values of that type wrap to a size of zero. -/
def emsaPssEncode (encodedBits : UInt64) (messageHash salt : List UInt8) (params : RsaPssParams) :
    Result ByteBuffer :=
  let encodedSize := (encodedBits + 7) / 8
  emsaPssEncodeSized encodedSize.toNat (8 * encodedSize - encodedBits).toNat messageHash salt params

/-- The body of `emsaPssVerify`, from the size that the encoded message should have and the number
of unused bits in its first byte. The salt length is the caller's, and the sums with it wrap. -/
def emsaPssVerifySized (encodedMessage : List UInt8) (expectedEncodedSize unusedBits : ℕ)
    (messageHash : List UInt8) (params : RsaPssParams) : Result Bool := do
  let size := UInt64.ofNat encodedMessage.length
  let hashSize := UInt64.ofNat (digestSize params.messageHash)
  checkHashes messageHash params
  require (encodedMessage.length == expectedEncodedSize)
    (pssError .invalidArgument "encoded message size does not match encoded bit count")
  if size < hashSize + params.saltLength + 2 then return false
  -- From here on no check ends the run; each clears the mask, which is looked at once at the end.
  let validMask := constantTimeIsZero (encodedMessage.getLastD 0 ^^^ 0xBC)
  let maskedDbSize := (size - hashSize - 1).toNat
  let maskedDb := encodedMessage.take maskedDbSize
  let hash := (encodedMessage.drop maskedDbSize).take hashSize.toNat
  let validMask := if unusedBits > 0 then
      validMask &&& constantTimeIsZero
        (maskedDb.headD 0 &&& (0xFF <<< UInt8.ofNat (8 - unusedBits)))
    else validMask
  let dbMask ← mgf1 params.mgf1Hash hash maskedDbSize
  let db := List.zipWith (· ^^^ ·) maskedDb dbMask
  let db := if unusedBits > 0 then
      db.set 0 (db.headD 0 &&& (0xFF >>> UInt8.ofNat unusedBits))
    else db
  -- In the width of `size_t`, as the comparison with the size above.
  let paddingSize := (size - hashSize - params.saltLength - 2).toNat
  let paddingDiff := (db.take paddingSize).foldl (· ||| ·) 0
  let validMask := validMask &&& constantTimeIsZero paddingDiff
  let validMask := validMask &&& constantTimeIsZero (db.getD paddingSize 0 ^^^ 0x01)
  let salt := (db.drop (paddingSize + 1)).take params.saltLength.toNat
  let expectedHash ← pssHash params.messageHash messageHash salt
  let validMask := validMask &&& constantTimeBoolMask (constantTimeEqual hash expectedHash)
  return validMask == 0xFF

/-- The check, with the same rounding as the encoder: both sizes are computed in 64 bits. -/
def emsaPssVerify (encodedMessage : List UInt8) (encodedBits : UInt64) (messageHash : List UInt8)
    (params : RsaPssParams) : Result Bool :=
  emsaPssVerifySized encodedMessage ((encodedBits + 7) / 8).toNat
    (8 * UInt64.ofNat encodedMessage.length - encodedBits).toNat messageHash params

namespace RsaPss

/-! ## The mask generator -/

/-- The digest never fails, and is that of the one-shot function. -/
@[simp] lemma digest_eq (algorithm : HashAlgorithm) (input : List UInt8) :
    digest algorithm input = .ok (digestOf algorithm input) := by
  cases algorithm
  · obtain ⟨context, hupdate, hafter⟩ := Sha256Context.after_nil.update input
    obtain ⟨closed, hfinal, _⟩ := hafter.final
    rw [digest, hupdate, ok_bind, hfinal]
    rfl
  · obtain ⟨context, hupdate, hafter⟩ := Sha512Context.after_nil.update input
    obtain ⟨closed, hfinal, _⟩ := hafter.final
    rw [digest, hupdate, ok_bind, hfinal]
    rfl

/-- The digests of the seed under the counters from `first` on. -/
def maskBlocks (algorithm : HashAlgorithm) (seed : List UInt8) (first count : ℕ) : List UInt8 :=
  (List.range' first count).flatMap fun i =>
    digestOf algorithm (seed ++ storeBe32 (UInt32.ofNat i))

/-- The mask: the digests of the seed under the counters `0, 1, 2, ...`, cut to size. The counter
is four bytes wide, as in the standard, which allows no mask of more than `2 ^ 32` digests. -/
def maskOf (algorithm : HashAlgorithm) (seed : List UInt8) (size : ℕ) : List UInt8 :=
  (maskBlocks algorithm seed 0 size).take size

/-- One more block, with the counter where the blocks start. -/
lemma maskBlocks_succ (algorithm : HashAlgorithm) (seed : List UInt8) (first count : ℕ) :
    maskBlocks algorithm seed first (count + 1) =
      digestOf algorithm (seed ++ storeBe32 (UInt32.ofNat first)) ++
        maskBlocks algorithm seed (first + 1) count := by
  rw [maskBlocks, List.range'_succ, List.flatMap_cons]
  rfl

lemma digestSize_pos (algorithm : HashAlgorithm) : 0 < digestSize algorithm := by
  cases algorithm <;> decide

lemma le_length_maskBlocks (algorithm : HashAlgorithm) (seed : List UInt8) (first count : ℕ) :
    count ≤ (maskBlocks algorithm seed first count).length := by
  induction count generalizing first with
  | zero => exact Nat.zero_le _
  | succ count ih =>
      have hpos := digestSize_pos algorithm
      have hrest := ih (first + 1)
      rw [maskBlocks_succ, List.length_append, length_digestOf]
      omega

@[simp] lemma length_maskOf (algorithm : HashAlgorithm) (seed : List UInt8) (size : ℕ) :
    (maskOf algorithm seed size).length = size := by
  rw [maskOf, List.length_take]
  exact Nat.min_eq_left (le_length_maskBlocks _ _ _ _)

/-- The loop appends the blocks that are missing, cut to size. The invariant is what was appended so
far. -/
lemma mgf1Loop_eq (algorithm : HashAlgorithm) (seed : List UInt8) (outputSize : ℕ) :
    ∀ (rounds first : ℕ) (output : List UInt8), output.length ≤ outputSize →
      outputSize ≤ output.length + rounds →
      mgf1Loop algorithm seed outputSize rounds (UInt32.ofNat first) output =
        .ok ((output ++ maskBlocks algorithm seed first rounds).take outputSize) := by
  intro rounds
  induction rounds with
  | zero =>
      intro first output hle hge
      have hfull : output.length = outputSize := by omega
      rw [mgf1Loop, maskBlocks, List.range'_zero, List.flatMap_nil, List.append_nil,
        ← hfull, List.take_length]
  | succ rounds ih =>
      intro first output hle hge
      rw [mgf1Loop]
      by_cases hlt : output.length < outputSize
      · have hpos := digestSize_pos algorithm
        have hnext : UInt32.ofNat first + 1 = UInt32.ofNat (first + 1) := by
          rw [UInt32.ofNat_add]
          rfl
        rw [if_pos hlt, digest_eq, ok_bind, hnext, maskBlocks_succ]
        have hblock := length_digestOf algorithm (seed ++ storeBe32 (UInt32.ofNat first))
        generalize digestOf algorithm (seed ++ storeBe32 (UInt32.ofNat first)) = block at hblock ⊢
        by_cases hfits : digestSize algorithm ≤ outputSize - output.length
        · -- the whole block is taken
          rw [hblock, Nat.min_eq_left hfits]
          dsimp only
          rw [List.take_of_length_le hblock.le, ih, List.append_assoc]
          · rw [List.length_append]
            omega
          · rw [List.length_append]
            omega
        · -- the last block is cut
          have htake : (block.take (outputSize - output.length)).length =
              outputSize - output.length := by
            rw [List.length_take]
            omega
          rw [hblock, Nat.min_eq_right (by omega), ih]
          · rw [List.take_left' (by rw [List.length_append]; omega), ← List.append_assoc,
              List.take_append_of_le_length (by rw [List.length_append]; omega),
              List.take_append, List.take_of_length_le hle]
          · rw [List.length_append]
            omega
          · rw [List.length_append]
            omega
      · have hfull : output.length = outputSize := by omega
        rw [if_neg hlt, ← hfull, List.take_left' rfl]

/-- The mask generator never fails, and its output is the mask of the seed. -/
@[simp] theorem mgf1_eq (algorithm : HashAlgorithm) (seed : List UInt8) (outputSize : ℕ) :
    mgf1 algorithm seed outputSize = .ok (maskOf algorithm seed outputSize) := by
  rw [mgf1, maskOf]
  have h := mgf1Loop_eq algorithm seed outputSize outputSize 0 [] (Nat.zero_le _) (by simp)
  rwa [List.nil_append] at h

/-! ## The encoding and its check -/

/-- The encoding over the hashes of the parameters, as the library defines it. -/
abbrev encodeWith (params : RsaPssParams) (encodedBits : ℕ) (messageHash salt : List UInt8) :
    List UInt8 :=
  encode (digestOf params.messageHash) (digestSize params.messageHash) (maskOf params.mgf1Hash)
    encodedBits messageHash salt

/-- The check over the hashes of the parameters, as the library defines it. -/
abbrev VerifiesWith (params : RsaPssParams) (encodedBits : ℕ)
    (messageHash encodedMessage : List UInt8) : Prop :=
  Verifies (digestOf params.messageHash) (digestSize params.messageHash) (maskOf params.mgf1Hash)
    encodedBits params.saltLength.toNat messageHash encodedMessage

/-- The hash of a salt is the challenge of the encoding. -/
lemma pssHash_eq (algorithm : HashAlgorithm) (messageHash salt : List UInt8) :
    pssHash algorithm messageHash salt =
      .ok (challenge (digestOf algorithm) messageHash salt) :=
  digest_eq _ _

/-- The checks pass on a message hash of the size of its algorithm. -/
lemma checkHashes_eq {messageHash : List UInt8} {params : RsaPssParams}
    (h : messageHash.length = digestSize params.messageHash) :
    checkHashes messageHash params = .ok () := by
  have hsizes : (!(digestSize params.messageHash == 0 || digestSize params.mgf1Hash == 0)) =
      true := by
    cases params.messageHash <;> cases params.mgf1Hash <;> rfl
  rw [checkHashes, hsizes, h]
  simp

/-- Clearing the unused bits, where there are any; with none unused the first byte is left alone. -/
lemma set_head_eq_clearTop (db : List UInt8) (unused : ℕ) :
    (if unused > 0 then db.set 0 (db.headD 0 &&& (0xFF >>> UInt8.ofNat unused)) else db) =
      clearTop unused db := by
  by_cases hunused : unused > 0
  · rw [if_pos hunused]
    cases db <;> rfl
  · have hzero : unused = 0 := by omega
    subst hzero
    rw [if_neg (by decide)]
    exact (clearTop_of_lt (by decide) (UInt8.toNat_lt _)).symm

section Encode

variable {encodedBits : ℕ} {messageHash salt : List UInt8} {params : RsaPssParams}

/-- The encoding succeeds on a salt of the right length that fits, and on nothing else. -/
theorem emsaPssEncodeSized_eq (hhash : messageHash.length = digestSize params.messageHash)
    (hsalt : salt.length = params.saltLength.toNat) :
    emsaPssEncodeSized (encodedSize encodedBits) (unusedBits encodedBits) messageHash salt params =
      if digestSize params.messageHash + salt.length + 2 ≤ encodedSize encodedBits then
        .ok (encodeWith params encodedBits messageHash salt)
      else .error (pssError .invalidArgument
        "RSA-PSS encoded message is too short for hash and salt") := by
  have hsaltGuard : (salt.length == params.saltLength.toNat) = true := by simp [hsalt]
  rw [emsaPssEncodeSized]
  simp only [checkHashes_eq hhash, ok_bind, hsaltGuard, require_true]
  by_cases hfits : digestSize params.messageHash + salt.length + 2 ≤ encodedSize encodedBits
  · rw [if_pos hfits, decide_eq_false (Nat.not_lt.mpr hfits)]
    simp only [Bool.not_false, require_true, ok_bind, pssHash_eq, mgf1_eq, set_head_eq_clearTop]
    rw [encodeWith, encode]
    refine congrArg Except.ok ?_
    have hpadding : encodedSize encodedBits - salt.length - digestSize params.messageHash - 2 =
        dataBlockSize (digestSize params.messageHash) encodedBits - salt.length - 1 := by
      unfold dataBlockSize
      omega
    rw [hpadding]
    rfl
  · rw [if_neg hfits, decide_eq_true (Nat.lt_of_not_le hfits)]
    rfl

end Encode

lemma mask_and (p q : Prop) [Decidable p] [Decidable q] :
    ((if p then 0xFF else 0 : UInt8) &&& (if q then 0xFF else 0)) =
      if p ∧ q then 0xFF else 0 := by
  by_cases hp : p <;> by_cases hq : q <;> simp [hp, hq]

/-- The unused bits of a byte are zero exactly when it is small. -/
lemma and_shift_eq_zero_iff {unused : ℕ} (hpos : 0 < unused) (hlt : unused < 8) (b : UInt8) :
    b &&& (0xFF <<< UInt8.ofNat (8 - unused)) = 0 ↔ b.toNat < 2 ^ (8 - unused) := by
  obtain ⟨bits⟩ := b
  revert bits
  interval_cases unused <;> decide +kernel

/-- The mask that collects the five checks is all ones exactly when all of them pass. -/
lemma validMask_eq (trailer first one : UInt8) {unused : ℕ} (hunused : unused < 8)
    (padding hash expected : List UInt8) :
    (((if unused > 0 then constantTimeIsZero (trailer ^^^ 0xBC) &&&
          constantTimeIsZero (first &&& (0xFF <<< UInt8.ofNat (8 - unused)))
        else constantTimeIsZero (trailer ^^^ 0xBC)) &&&
        constantTimeIsZero (padding.foldl (· ||| ·) 0) &&& constantTimeIsZero (one ^^^ 0x01) &&&
        constantTimeBoolMask (constantTimeEqual hash expected)) == 0xFF) =
      decide ((((trailer = 0xBC ∧ first.toNat < 2 ^ (8 - unused)) ∧
        padding = List.replicate padding.length 0) ∧ one = 1) ∧ hash = expected) := by
  -- With no unused bits the source leaves the first test out, and its bound says nothing.
  have hfirst : (if unused > 0 then constantTimeIsZero (trailer ^^^ 0xBC) &&&
        constantTimeIsZero (first &&& (0xFF <<< UInt8.ofNat (8 - unused)))
      else constantTimeIsZero (trailer ^^^ 0xBC)) =
      if trailer = 0xBC ∧ first.toNat < 2 ^ (8 - unused) then 0xFF else 0 := by
    by_cases hpos : unused > 0
    · simp only [if_pos hpos, constantTimeIsZero_eq, UInt8.xor_eq_zero_iff,
        and_shift_eq_zero_iff hpos hunused, mask_and]
    · have hzero : unused = 0 := by omega
      have hlt : first.toNat < 2 ^ (8 - 0) := UInt8.toNat_lt first
      subst hzero
      simp only [if_neg hpos, constantTimeIsZero_eq, UInt8.xor_eq_zero_iff, hlt, and_true]
  have hpadding : padding.foldl (· ||| ·) 0 = 0 ↔ padding = List.replicate padding.length 0 := by
    rw [foldl_or_eq_zero, List.eq_replicate_iff]
    simp
  have hequal : (constantTimeEqual hash expected = true) ↔ hash = expected :=
    constantTimeEqual_iff hash expected
  rw [hfirst]
  simp only [constantTimeIsZero_eq, constantTimeBoolMask_eq, UInt8.xor_eq_zero_iff, hpadding,
    hequal, mask_and]
  split
  · rename_i h
    rw [decide_eq_true h]
    rfl
  · rename_i h
    rw [decide_eq_false h]
    rfl

section Verify

variable {encodedBits : ℕ} {messageHash encodedMessage : List UInt8} {params : RsaPssParams}

/-- Without overflow, the sizes that the check computes are the numbers they stand for. -/
lemma sizes_eq (hsize : encodedMessage.length < 2 ^ 64)
    (hsum : digestSize params.messageHash + params.saltLength.toNat + 2 < 2 ^ 64) :
    let size := UInt64.ofNat encodedMessage.length
    let hashSize := UInt64.ofNat (digestSize params.messageHash)
    (size < hashSize + params.saltLength + 2 ↔
      encodedMessage.length < digestSize params.messageHash + params.saltLength.toNat + 2) ∧
    (digestSize params.messageHash + params.saltLength.toNat + 2 ≤ encodedMessage.length →
      (size - hashSize - 1).toNat = encodedMessage.length - digestSize params.messageHash - 1 ∧
      (size - hashSize - params.saltLength - 2).toNat =
        encodedMessage.length - digestSize params.messageHash - params.saltLength.toNat - 2) ∧
    hashSize.toNat = digestSize params.messageHash := by
  intro size hashSize
  have hsizeNat : size.toNat = encodedMessage.length := by
    rw [UInt64.toNat_ofNat']
    exact Nat.mod_eq_of_lt hsize
  have hhashNat : hashSize.toNat = digestSize params.messageHash := toNat_digestSize _
  have htwo : (2 : UInt64).toNat = 2 := rfl
  have hone : (1 : UInt64).toNat = 1 := rfl
  refine ⟨?_, ?_, hhashNat⟩
  · rw [UInt64.lt_iff_toNat_lt, UInt64.toNat_add, UInt64.toNat_add, hsizeNat, hhashNat, htwo]
    omega
  · intro hle
    have hfirst : (size - hashSize).toNat =
        encodedMessage.length - digestSize params.messageHash := by
      rw [UInt64.toNat_sub_of_le _ _ (by rw [UInt64.le_iff_toNat_le]; omega), hsizeNat, hhashNat]
    constructor
    · rw [UInt64.toNat_sub_of_le _ _ (by rw [UInt64.le_iff_toNat_le]; omega), hfirst, hone]
    · have hsecond : (size - hashSize - params.saltLength).toNat =
          encodedMessage.length - digestSize params.messageHash - params.saltLength.toNat := by
        rw [UInt64.toNat_sub_of_le _ _ (by rw [UInt64.le_iff_toNat_le]; omega), hfirst]
      rw [UInt64.toNat_sub_of_le _ _ (by rw [UInt64.le_iff_toNat_le]; omega), hsecond, htwo]

/-- The sizes of the data block and of its padding, from the length of the message. -/
lemma dataBlockSize_eq (hlength : encodedMessage.length = encodedSize encodedBits)
    (hashSize saltLength : ℕ) :
    encodedMessage.length - hashSize - 1 = dataBlockSize hashSize encodedBits ∧
      encodedMessage.length - hashSize - saltLength - 2 =
        paddingSize hashSize encodedBits saltLength := by
  rw [hlength, paddingSize, dataBlockSize]
  exact ⟨rfl, by omega⟩

/-- The recovered block of a message that is long enough: the padding, a one and the salt. -/
lemma length_recoveredBlock (hlength : encodedMessage.length = encodedSize encodedBits)
    (hle : digestSize params.messageHash + params.saltLength.toNat + 2 ≤ encodedMessage.length) :
    (recoveredBlock (digestSize params.messageHash) (maskOf params.mgf1Hash) encodedBits
      encodedMessage).length =
        paddingSize (digestSize params.messageHash) encodedBits params.saltLength.toNat + 1 +
          params.saltLength.toNat := by
  obtain ⟨hmasked, hpadding⟩ := dataBlockSize_eq hlength (digestSize params.messageHash)
    params.saltLength.toNat
  rw [recoveredBlock, length_clearTop, xorBytes, List.length_zipWith, length_maskOf,
    maskedDataBlock, List.length_take, ← hpadding, ← hmasked]
  omega

/-- The first byte of the masked block is that of the message. -/
lemma headD_maskedDataBlock {hashSize : ℕ} (hpos : 0 < dataBlockSize hashSize encodedBits) :
    (maskedDataBlock hashSize encodedBits encodedMessage).headD 0 = encodedMessage.headD 0 := by
  obtain ⟨n, hn⟩ := Nat.exists_eq_succ_of_ne_zero hpos.ne'
  rw [maskedDataBlock, hn]
  cases encodedMessage <;> rfl

/-- Without overflow, the check decides `Verifies`, and it never fails on a message of the right
length. -/
theorem emsaPssVerifySized_eq (hhash : messageHash.length = digestSize params.messageHash)
    (hlength : encodedMessage.length = encodedSize encodedBits)
    (hsize : encodedMessage.length < 2 ^ 64)
    (hsum : digestSize params.messageHash + params.saltLength.toNat + 2 < 2 ^ 64) :
    emsaPssVerifySized encodedMessage (encodedSize encodedBits) (unusedBits encodedBits)
        messageHash params =
      .ok (decide (VerifiesWith params encodedBits messageHash encodedMessage)) := by
  obtain ⟨hlt, hsub, hhashSize⟩ := sizes_eq hsize hsum
  have hlengthGuard : (encodedMessage.length == encodedSize encodedBits) = true := by
    rw [beq_iff_eq]
    exact hlength
  rw [emsaPssVerifySized]
  simp only [checkHashes_eq hhash, ok_bind, hlengthGuard, require_true]
  by_cases hshort : encodedMessage.length <
      digestSize params.messageHash + params.saltLength.toNat + 2
  · rw [if_pos (hlt.mpr hshort)]
    refine congrArg Except.ok (decide_eq_false fun h => ?_).symm
    have hle := h.long_enough
    omega
  · rw [if_neg (mt hlt.mp hshort)]
    have hle := Nat.le_of_not_lt hshort
    obtain ⟨hmaskedSize, hpaddingSize⟩ := hsub hle
    obtain ⟨hmasked, hpadding⟩ := dataBlockSize_eq hlength (digestSize params.messageHash)
      params.saltLength.toNat
    have hdbLength := length_recoveredBlock hlength hle
    have hhead : (encodedMessage.take (dataBlockSize (digestSize params.messageHash)
        encodedBits)).headD 0 = encodedMessage.headD 0 :=
      headD_maskedDataBlock (by omega)
    simp only [hmaskedSize, hpaddingSize, hhashSize, hmasked, hpadding, mgf1_eq,
      ok_bind, set_head_eq_clearTop, pssHash_eq]
    change Except.ok _ = _
    -- the names of the parts in `Verifies`
    have hblock : clearTop (unusedBits encodedBits) (List.zipWith (· ^^^ ·)
        (encodedMessage.take (dataBlockSize (digestSize params.messageHash) encodedBits))
        (maskOf params.mgf1Hash
          (challengeOf (digestSize params.messageHash) encodedBits encodedMessage)
          (dataBlockSize (digestSize params.messageHash) encodedBits))) =
        recoveredBlock (digestSize params.messageHash) (maskOf params.mgf1Hash) encodedBits
          encodedMessage := rfl
    have hchallenge : (encodedMessage.drop (dataBlockSize (digestSize params.messageHash)
        encodedBits)).take (digestSize params.messageHash) =
        challengeOf (digestSize params.messageHash) encodedBits encodedMessage := rfl
    rw [hchallenge, hblock]
    generalize hdb : recoveredBlock (digestSize params.messageHash) (maskOf params.mgf1Hash)
      encodedBits encodedMessage = db at hdbLength ⊢
    have hsalt : (db.drop (paddingSize (digestSize params.messageHash) encodedBits
        params.saltLength.toNat + 1)).take params.saltLength.toNat =
        db.drop (paddingSize (digestSize params.messageHash) encodedBits
          params.saltLength.toNat + 1) := by
      apply List.take_of_length_le
      rw [List.length_drop]
      omega
    have htake : (db.take (paddingSize (digestSize params.messageHash) encodedBits
        params.saltLength.toNat)).length = paddingSize (digestSize params.messageHash)
          encodedBits params.saltLength.toNat := by
      rw [List.length_take]
      omega
    rw [validMask_eq _ _ _ (unusedBits_lt encodedBits), hsalt, hhead, htake]
    refine congrArg Except.ok (decide_eq_decide.mpr ?_)
    subst hdb
    constructor
    · rintro ⟨⟨⟨⟨htrailer, hunusedTop⟩, hpad⟩, hone⟩, hconsistent⟩
      exact ⟨hlength ▸ hle, htrailer, hunusedTop, hpad, hone, hconsistent.symm⟩
    · intro h
      exact ⟨⟨⟨⟨h.trailer, h.unused⟩, h.padding⟩, h.one⟩, h.consistent.symm⟩

end Verify

/-! ## Rounding the number of bits -/

section Rounding

variable {encodedBits : UInt64} {messageHash salt encodedMessage : List UInt8}
  {params : RsaPssParams}

/-- Below the last seven values of `size_t` the rounding is exact, and so is the number of unused
bits. -/
lemma roundedSize_eq (hbits : encodedBits.toNat + 7 < 2 ^ 64) :
    ((encodedBits + 7) / 8).toNat = encodedSize encodedBits.toNat ∧
      (8 * ((encodedBits + 7) / 8) - encodedBits).toNat = unusedBits encodedBits.toNat := by
  have hsize : ((encodedBits + 7) / 8).toNat = encodedSize encodedBits.toNat := by
    rw [UInt64.toNat_div, UInt64.toNat_add, show (7 : UInt64).toNat = 7 from rfl,
      Nat.mod_eq_of_lt hbits]
    rfl
  have height : (8 * ((encodedBits + 7) / 8)).toNat = 8 * encodedSize encodedBits.toNat := by
    rw [UInt64.toNat_mul, hsize, show (8 : UInt64).toNat = 8 from rfl]
    exact Nat.mod_eq_of_lt (by unfold encodedSize; omega)
  refine ⟨hsize, ?_⟩
  rw [UInt64.toNat_sub_of_le _ _ (by
    rw [UInt64.le_iff_toNat_le, height]
    unfold encodedSize
    omega), height, unusedBits]

lemma roundedSize_wraps (hbits : ¬ encodedBits.toNat + 7 < 2 ^ 64) :
    ((encodedBits + 7) / 8).toNat = 0 := by
  have hlt := encodedBits.toNat_lt
  rw [UInt64.toNat_div, UInt64.toNat_add, show (7 : UInt64).toNat = 7 from rfl,
    show (8 : UInt64).toNat = 8 from rfl]
  omega

/-- Where the rounding is exact the encoder is its body at the rounded size. -/
lemma emsaPssEncode_eq_sized (hbits : encodedBits.toNat + 7 < 2 ^ 64) :
    emsaPssEncode encodedBits messageHash salt params =
      emsaPssEncodeSized (encodedSize encodedBits.toNat) (unusedBits encodedBits.toNat) messageHash
        salt params := by
  obtain ⟨hsize, hunused⟩ := roundedSize_eq hbits
  rw [emsaPssEncode, hsize, hunused]

/-- A size of zero has no room for a hash, so that nothing is encoded where the rounding wraps. -/
lemma emsaPssEncode_wraps (hhash : messageHash.length = digestSize params.messageHash)
    (hbits : ¬ encodedBits.toNat + 7 < 2 ^ 64) (encodedMessage : List UInt8) :
    emsaPssEncode encodedBits messageHash salt params ≠ .ok encodedMessage := by
  intro h
  rw [emsaPssEncode, roundedSize_wraps hbits, emsaPssEncodeSized] at h
  simp only [checkHashes_eq hhash, ok_bind] at h
  obtain ⟨hroom, -⟩ := require_bind_eq_ok.mp (require_bind_eq_ok.mp h).2
  rw [decide_eq_true (by omega)] at hroom
  cases hroom

/-- Where the rounding is exact the check of a message of the right length is its body. -/
lemma emsaPssVerify_eq_sized (hbits : encodedBits.toNat + 7 < 2 ^ 64)
    (hlength : encodedMessage.length = encodedSize encodedBits.toNat) :
    emsaPssVerify encodedMessage encodedBits messageHash params =
      emsaPssVerifySized encodedMessage (encodedSize encodedBits.toNat)
        (unusedBits encodedBits.toNat) messageHash params := by
  obtain ⟨hsize, hunused⟩ := roundedSize_eq hbits
  have hword : UInt64.ofNat encodedMessage.length = (encodedBits + 7) / 8 := by
    rw [hlength, ← hsize, UInt64.ofNat_toNat]
  rw [emsaPssVerify, hword, hunused, hsize]

/-- A message of another size than the rounded one is refused. -/
lemma emsaPssVerify_of_length_ne (hhash : messageHash.length = digestSize params.messageHash)
    (hlength : encodedMessage.length ≠ ((encodedBits + 7) / 8).toNat) :
    emsaPssVerify encodedMessage encodedBits messageHash params =
      .error (pssError .invalidArgument
        "encoded message size does not match encoded bit count") := by
  have hguard : (encodedMessage.length == ((encodedBits + 7) / 8).toNat) = false :=
    beq_eq_false_iff_ne.mpr hlength
  rw [emsaPssVerify, emsaPssVerifySized]
  simp only [checkHashes_eq hhash, ok_bind, hguard, require_false, error_bind]

end Rounding

end RsaPss

end CryptoCore
