import CryptoCore.Framework.EmeOaep
import CryptoCore.Construction.RsaPss

/-!
# The RSA-OAEP encoding

`emeOaepEncode` and `emeOaepDecode` are the padding of `EmeOaep` over the two hashes and the mask
generator. The decoding side looks for the separator in a scan that reads every byte and keeps three
masks; it finds what `separate` does.

The source repeats the hash and the mask generator of `rsa_pss.cpp` in this file. The copies keep
their own definitions here, and two equations send their lemmas to those of
`Construction/RsaPss.lean`.

What the padding is lives in `Framework/EmeOaep.lean`, over any hash and any mask generator. The
work of this module is the scan: while it looks for the separator it is in one of two states, clean
or with an invalid byte recorded (`scanByte_eq`), and after the separator nothing changes. From
`scanBytes_spec` follows that the masks at the end are clear exactly when there is a separator, and
`finish_eq` turns the conjunction of all masks into one decision. Both directions are then
equations: `emeOaepEncode_eq_ok_iff` and `emeOaepDecode_eq`. They are used for encryption and
decryption in `Construction/NativeProvider.lean` and `Properties/RsaOaep.lean`.
-/

namespace CryptoCore

open EmeOaep

/-- The two hashes and the label. The label is authenticated by its digest and not encrypted. -/
structure RsaOaepParams where
  messageHash : HashAlgorithm := .sha256
  mgf1Hash : HashAlgorithm := .sha256
  label : ByteBuffer := []

def RsaOaepParams.forHash (hash : HashAlgorithm) : RsaOaepParams :=
  { messageHash := hash, mgf1Hash := hash, label := [] }

def RsaOaepParams.withLabel (hash : HashAlgorithm) (label : List UInt8) : RsaOaepParams :=
  { messageHash := hash, mgf1Hash := hash, label := label }

namespace RsaOaep

/-- The error of the encoding; the checks of the encoder say what was wrong, the decoder does not.
-/
def oaepError (code : ErrorCode) (message : String) : Error :=
  makeError code "rsa_oaep" message

-- The source has a copy of these two beside each of the encodings.
/-- The copies of the hash and of the mask generator beside this encoding. -/
def digest (algorithm : HashAlgorithm) (input : List UInt8) : Result ByteBuffer :=
  RsaPss.digest algorithm input

def mgf1 (algorithm : HashAlgorithm) (seed : List UInt8) (outputSize : ℕ) : Result ByteBuffer :=
  RsaPss.mgf1 algorithm seed outputSize

def hashError : Error :=
  oaepError .unsupportedAlgorithm "hash algorithm is not supported"

/-- The only error of decoding. Whatever is wrong with an encoded message, this is what is returned.
-/
def decodingError : Error :=
  oaepError .authenticationFailed "RSA-OAEP encoded message is invalid"

/-- What the scan for the separator keeps: the index found so far and the two masks. -/
structure SeparatorScan where
  separator : UInt64
  scanningMask : UInt8
  invalidPaddingMask : UInt8

/-- One byte of the scan. All three components are computed whatever the byte is. -/
def scanByte (i : ℕ) (byte : UInt8) (scan : SeparatorScan) : SeparatorScan :=
  let isZero := constantTimeIsZero byte
  let isOne := constantTimeIsZero (byte ^^^ 0x01)
  let takeSeparatorMask := scan.scanningMask &&& isOne
  { separator := constantTimeSelectSize takeSeparatorMask (UInt64.ofNat i) scan.separator
    scanningMask := scan.scanningMask &&& ~~~isOne
    invalidPaddingMask :=
      scan.invalidPaddingMask ||| (scan.scanningMask &&& ~~~(isZero ||| isOne)) }

/-- The loop over the bytes from index `i` on. It does not stop at the separator. -/
def scanBytes : ℕ → List UInt8 → SeparatorScan → SeparatorScan
  | _, [], scan => scan
  | i, byte :: bytes, scan => scanBytes (i + 1) bytes (scanByte i byte scan)

end RsaOaep

open RsaOaep

/-- The padding of a message under a seed, with the four checks of the source in their order. -/
def emeOaepEncode (encodedSize : ℕ) (message seed : List UInt8) (params : RsaOaepParams) :
    Result ByteBuffer := do
  let hashSize := digestSize params.messageHash
  require (!(hashSize == 0 || digestSize params.mgf1Hash == 0)) hashError
  require (seed.length == hashSize)
    (oaepError .invalidArgument "seed size does not match RSA-OAEP hash algorithm")
  require (!(decide (encodedSize < 2 * hashSize + 2)))
    (oaepError .invalidArgument "RSA-OAEP encoded message is too short")
  require (!(decide (message.length > encodedSize - 2 * hashSize - 2)))
    (oaepError .invalidArgument "RSA-OAEP message is too large")
  let labelHash ← digest params.messageHash params.label
  let dbSize := encodedSize - hashSize - 1
  let zeros := dbSize - message.length - 1 - labelHash.length
  let db := labelHash ++ List.replicate zeros 0 ++ 0x01 :: message
  let dbMask ← mgf1 params.mgf1Hash seed dbSize
  let db := List.zipWith (· ^^^ ·) db dbMask
  let seedMask ← mgf1 params.mgf1Hash db hashSize
  let maskedSeed := List.zipWith (· ^^^ ·) seed seedMask
  return 0 :: (maskedSeed ++ db)

/-- The inverse. A length check comes first; behind it every check only clears a mask, and the
single decision is made at the end. -/
def emeOaepDecode (encodedMessage : List UInt8) (params : RsaOaepParams) :
    Result ByteBuffer := do
  let hashSize := digestSize params.messageHash
  require (!(hashSize == 0 || digestSize params.mgf1Hash == 0)) hashError
  require (!(decide (encodedMessage.length < 2 * hashSize + 2))) decodingError
  let maskedSeed := (encodedMessage.drop 1).take hashSize
  let maskedDb := encodedMessage.drop (1 + hashSize)
  let seedMask ← mgf1 params.mgf1Hash maskedDb hashSize
  let seed := List.zipWith (· ^^^ ·) maskedSeed seedMask
  let dbMask ← mgf1 params.mgf1Hash seed maskedDb.length
  let db := List.zipWith (· ^^^ ·) maskedDb dbMask
  let labelHash ← digest params.messageHash params.label
  -- The four things that can be wrong are gathered in one mask, and told apart by nothing.
  let validMask := constantTimeBoolMask (encodedMessage.headD 0 == 0)
  let validMask := validMask &&&
    constantTimeBoolMask (constantTimeEqual (db.take hashSize) labelHash)
  let scan := scanBytes hashSize (db.drop hashSize) ⟨UInt64.ofNat db.length, 0xFF, 0x00⟩
  let validMask := validMask &&& ~~~scan.invalidPaddingMask
  let validMask := validMask &&& ~~~scan.scanningMask
  require (!(validMask != 0xFF)) decodingError
  return db.drop (scan.separator + 1).toNat

namespace RsaOaep

/-! The copies beside this encoding are the functions of the other one, and so are their lemmas. -/

@[simp] lemma digest_eq_digest : digest = RsaPss.digest := rfl

@[simp] lemma mgf1_eq_mgf1 : mgf1 = RsaPss.mgf1 := rfl

/-! ## The scan -/

/-- A byte of the scan while it looks for the separator, by the three cases: padding, the separator,
and anything else, which is recorded. -/
lemma scanByte_eq (i : ℕ) (byte : UInt8) (separator : UInt64) (invalid : UInt8) :
    scanByte i byte ⟨separator, 0xFF, invalid⟩ =
      if byte = 0 then ⟨separator, 0xFF, invalid⟩
      else if byte = 1 then ⟨UInt64.ofNat i, 0, invalid⟩
      else ⟨separator, 0xFF, 0xFF⟩ := by
  have hones : ∀ b : UInt8, b ||| 0xFF = 0xFF := by
    rintro ⟨bits⟩
    revert bits
    decide +kernel
  simp only [scanByte, constantTimeIsZero_eq, UInt8.xor_eq_zero_iff]
  by_cases hzero : byte = 0
  · subst hzero
    have hone : ¬ (0 : UInt8) = 1 := by decide
    simp only [if_pos, if_neg hone]
    rw [show (0xFF : UInt8) &&& 0 = 0 from rfl, constantTimeSelectSize_clear]
    simp
  · by_cases hone : byte = 1
    · subst hone
      simp only [if_neg hzero, if_pos]
      rw [show (0xFF : UInt8) &&& 0xFF = 0xFF from rfl, constantTimeSelectSize_set]
      simp
    · simp only [if_neg hzero, if_neg hone]
      rw [show (0xFF : UInt8) &&& 0 = 0 from rfl, constantTimeSelectSize_clear]
      have hnot : (0xFF : UInt8) &&& ~~~(0 ||| 0) = 0xFF := rfl
      rw [hnot, hones]
      rfl

lemma scanBytes_found (i : ℕ) (bytes : List UInt8) (separator : UInt64) (invalid : UInt8) :
    scanBytes i bytes ⟨separator, 0, invalid⟩ = ⟨separator, 0, invalid⟩ := by
  induction bytes generalizing i with
  | nil => rfl
  | cons byte bytes ih =>
      have hbyte : scanByte i byte ⟨separator, 0, invalid⟩ = ⟨separator, 0, invalid⟩ := by
        simp only [scanByte, UInt8.zero_and, constantTimeSelectSize_clear, UInt8.or_zero]
      rw [scanBytes, hbyte, ih]

/-- An invalid byte in front of the separator stays recorded to the end of the scan. -/
lemma scanBytes_invalid (i : ℕ) (bytes : List UInt8) (separator : UInt64) :
    (scanBytes i bytes ⟨separator, 0xFF, 0xFF⟩).invalidPaddingMask = 0xFF := by
  induction bytes generalizing i with
  | nil => rfl
  | cons byte bytes ih =>
      rw [scanBytes, scanByte_eq]
      split
      · exact ih _
      · split
        · rw [scanBytes_found]
        · exact ih _

/-- The scan ends with both masks clear exactly when there is a separator, which is then where
the scan says. -/
lemma scanBytes_spec (i : ℕ) (bytes : List UInt8) (separator : UInt64) :
    (∃ message, separate bytes = some message ∧ message.length < bytes.length ∧
        scanBytes i bytes ⟨separator, 0xFF, 0⟩ =
          ⟨UInt64.ofNat (i + bytes.length - message.length - 1), 0, 0⟩) ∨
      (separate bytes = none ∧
        ((scanBytes i bytes ⟨separator, 0xFF, 0⟩).scanningMask = 0xFF ∨
          (scanBytes i bytes ⟨separator, 0xFF, 0⟩).invalidPaddingMask = 0xFF)) := by
  induction bytes generalizing i with
  | nil => exact .inr ⟨rfl, .inl rfl⟩
  | cons byte bytes ih =>
      rw [scanBytes, scanByte_eq, separate]
      by_cases hzero : byte = 0
      · rw [if_pos hzero, if_pos hzero, List.length_cons]
        obtain ⟨message, hmessage, hlt, hscan⟩ | hnone := ih (i + 1)
        · refine .inl ⟨message, hmessage, by omega, ?_⟩
          rw [hscan]
          congr 2
          omega
        · exact .inr hnone
      · rw [if_neg hzero, if_neg hzero]
        by_cases hone : byte = 1
        · rw [if_pos hone, if_pos hone, scanBytes_found]
          refine .inl ⟨bytes, rfl, Nat.lt_succ_self _, ?_⟩
          rw [List.length_cons]
          congr 2
          omega
        · rw [if_neg hone, if_neg hone]
          exact .inr ⟨rfl, .inr (scanBytes_invalid _ _ _)⟩

/-- The checks behind the scan: the first byte, the hash of the label and the two masks decide
whether a message is returned. -/
lemma finish_eq {db : List UInt8} {hashSize : ℕ} (hlength : db.length < 2 ^ 64) (first : UInt8)
    (labelHash : List UInt8) :
    let scan := scanBytes hashSize (db.drop hashSize) ⟨UInt64.ofNat db.length, 0xFF, 0x00⟩
    (require (!(constantTimeBoolMask (first == 0) &&&
        constantTimeBoolMask (constantTimeEqual (db.take hashSize) labelHash) &&&
        ~~~scan.invalidPaddingMask &&& ~~~scan.scanningMask != 0xFF)) decodingError >>=
      fun _ => (.ok (db.drop (scan.separator + 1).toNat) : Result ByteBuffer)) =
    match (if first = 0 ∧ db.take hashSize = labelHash then separate (db.drop hashSize)
      else none) with
    | some message => .ok message
    | none => .error decodingError := by
  intro scan
  obtain ⟨message, hseparate, hlt, hscan⟩ | ⟨hseparate, hmasks⟩ :=
    scanBytes_spec hashSize (db.drop hashSize) (UInt64.ofNat db.length)
  · have hscan' : scan = ⟨UInt64.ofNat (hashSize + (db.drop hashSize).length - message.length - 1),
        0, 0⟩ := hscan
    have hdrop : db.drop (scan.separator + 1).toNat = message := by
      obtain ⟨n, hrest⟩ := separate_eq_some_iff.mp hseparate
      have hrestLength := congrArg List.length hrest
      simp only [List.length_append, List.length_replicate, List.length_cons,
        List.length_drop] at hrestLength hlt
      have hindex : (scan.separator + 1).toNat = hashSize + (n + 1) := by
        rw [hscan', UInt64.toNat_add, UInt64.toNat_ofNat', List.length_drop,
          show (1 : UInt64).toNat = 1 from rfl]
        omega
      rw [hindex, ← List.drop_drop, hrest, ← List.drop_drop, List.drop_left' List.length_replicate]
      rfl
    -- The scan found a separator and cleared both of its masks, so the answer rests on the first
    -- byte and the label alone.
    have hvalid : ∀ a b : Bool, (constantTimeBoolMask a &&& constantTimeBoolMask b &&&
        ~~~(0 : UInt8) &&& ~~~(0 : UInt8) != 0xFF) = !(a && b) := by
      decide
    rw [hdrop, hscan', hseparate, constantTimeEqual_eq]
    dsimp only
    rw [hvalid, Bool.not_not]
    by_cases hguard : first = 0 ∧ db.take hashSize = labelHash
    · rw [if_pos hguard, hguard.1, decide_eq_true hguard.2]
      rfl
    · have hfalse : (first == 0 && decide (db.take hashSize = labelHash)) = false := by
        simpa using hguard
      rw [if_neg hguard, hfalse]
      rfl
  -- One of the scan's masks is full, and this alone makes the answer zero.
  · have hmask : ∀ x y : UInt8, x &&& ~~~y &&& ~~~(0xFF : UInt8) = 0 ∧
        x &&& ~~~(0xFF : UInt8) &&& ~~~y = 0 := by
      intro x y
      simp [show ~~~(0xFF : UInt8) = 0 from rfl]
    have hzero : ∀ x : UInt8, x &&& ~~~scan.invalidPaddingMask &&& ~~~scan.scanningMask = 0 := by
      intro x
      rcases hmasks with hscanning | hinvalid
      · rw [show scan.scanningMask = 0xFF from hscanning]
        exact (hmask _ _).1
      · rw [show scan.invalidPaddingMask = 0xFF from hinvalid]
        exact (hmask _ _).2
    rw [hzero, hseparate, ite_self]
    rfl

/-! ## The encoding and its inverse -/

section Encoding

variable {params : RsaOaepParams}

/-- The hash of the label, with which the data block begins. -/
abbrev labelHash (params : RsaOaepParams) : List UInt8 :=
  digestOf params.messageHash params.label

/-- The padding over the hashes of the parameters, which the statements below are about. -/
abbrev encodeWith (params : RsaOaepParams) (size : ℕ) (message seed : List UInt8) : List UInt8 :=
  encode (labelHash params) (RsaPss.maskOf params.mgf1Hash) size message seed

/-- The inverse of the padding over the same hashes, as the library defines it. -/
abbrev decodeWith (params : RsaOaepParams) (em : List UInt8) : Option (List UInt8) :=
  decode (labelHash params) (RsaPss.maskOf params.mgf1Hash) em

/-- Both enumerators of the hash have a digest, so that the first check passes. -/
lemma hashes_supported (params : RsaOaepParams) :
    (!(digestSize params.messageHash == 0 || digestSize params.mgf1Hash == 0)) = true := by
  cases params.messageHash <;> cases params.mgf1Hash <;> rfl

/-- Encoding succeeds on a seed of the size of the hash and a message that fits, and on nothing
else. -/
theorem emeOaepEncode_eq_ok_iff {size : ℕ} {message seed encodedMessage : List UInt8} :
    emeOaepEncode size message seed params = .ok encodedMessage ↔
      seed.length = digestSize params.messageHash ∧
        2 * digestSize params.messageHash + 2 + message.length ≤ size ∧
        encodeWith params size message seed = encodedMessage := by
  have hzeros : size - digestSize params.messageHash - 1 - message.length - 1 -
      digestSize params.messageHash = size - digestSize params.messageHash - 1 -
        digestSize params.messageHash - message.length - 1 := by
    omega
  rw [emeOaepEncode]
  simp only [hashes_supported, require_true, ok_bind, digest_eq_digest, RsaPss.digest_eq,
    mgf1_eq_mgf1, RsaPss.mgf1_eq, length_digestOf, require_bind_eq_ok, beq_iff_eq,
    Bool.not_eq_true', decide_eq_false_iff_not, Nat.not_lt, hzeros]
  rw [encodeWith, encode, dataBlock, length_digestOf]
  constructor
  · rintro ⟨hseed, hsize, hmessage, hencode⟩
    exact ⟨hseed, by omega, Except.ok.inj hencode⟩
  · rintro ⟨hseed, hfits, hencode⟩
    exact ⟨hseed, by omega, by omega, congrArg Except.ok hencode⟩

/-- Decoding finds the message of the padding, and fails in one way only. The bound on the length is
that of an index in the width of `size_t`. -/
theorem emeOaepDecode_eq {encodedMessage : List UInt8} (hlength : encodedMessage.length < 2 ^ 64) :
    emeOaepDecode encodedMessage params =
      if 2 * digestSize params.messageHash + 2 ≤ encodedMessage.length then
        match decodeWith params encodedMessage with
        | some message => .ok message
        | none => .error decodingError
      else .error decodingError := by
  rw [emeOaepDecode]
  simp only [hashes_supported, require_true, ok_bind, digest_eq_digest, RsaPss.digest_eq,
    mgf1_eq_mgf1, RsaPss.mgf1_eq]
  by_cases hlong : 2 * digestSize params.messageHash + 2 ≤ encodedMessage.length
  · rw [if_pos hlong, decide_eq_false (Nat.not_lt.mpr hlong), Bool.not_false, require_true, ok_bind]
    have hseedLength : ((encodedMessage.drop 1).take (digestSize params.messageHash)).length =
        digestSize params.messageHash := by
      rw [List.length_take, List.length_drop]
      omega
    -- The two masks taken off again: first the seed's, from the block, then the block's, from the
    -- seed.
    have hblock : List.zipWith (· ^^^ ·) (encodedMessage.drop (1 + digestSize params.messageHash))
        (RsaPss.maskOf params.mgf1Hash (List.zipWith (· ^^^ ·)
          ((encodedMessage.drop 1).take (digestSize params.messageHash))
          (RsaPss.maskOf params.mgf1Hash
            (encodedMessage.drop (1 + digestSize params.messageHash))
            (digestSize params.messageHash)))
          (encodedMessage.drop (1 + digestSize params.messageHash)).length) =
        recoveredBlock (RsaPss.maskOf params.mgf1Hash)
          ((encodedMessage.drop 1).take (digestSize params.messageHash))
          (encodedMessage.drop (1 + digestSize params.messageHash)) := by
      rw [recoveredBlock, recoveredSeed, hseedLength]
      rfl
    rw [hblock, decodeWith, decode, length_digestOf]
    have hdbLength : (recoveredBlock (RsaPss.maskOf params.mgf1Hash)
        ((encodedMessage.drop 1).take (digestSize params.messageHash))
        (encodedMessage.drop (1 + digestSize params.messageHash))).length < 2 ^ 64 := by
      rw [recoveredBlock, EmsaPss.length_xorBytes (RsaPss.length_maskOf _ _ _).symm,
        List.length_drop]
      omega
    generalize recoveredBlock (RsaPss.maskOf params.mgf1Hash)
      ((encodedMessage.drop 1).take (digestSize params.messageHash))
      (encodedMessage.drop (1 + digestSize params.messageHash)) = db at hdbLength ⊢
    exact finish_eq hdbLength (encodedMessage.headD 0) (labelHash params)
  · rw [if_neg hlong, decide_eq_true (Nat.lt_of_not_le hlong)]
    rfl

/-- The hash of the label has the length that the sizes are computed with. -/
lemma length_labelHash (params : RsaOaepParams) :
    (labelHash params).length = digestSize params.messageHash :=
  length_digestOf _ _

section EncodeWith

variable {size : ℕ} {message seed : List UInt8}
  (hseed : seed.length = digestSize params.messageHash)
  (hfits : 2 * digestSize params.messageHash + 2 + message.length ≤ size)
include hseed hfits

/-- An encoded message has the length that was asked for. -/
lemma length_encodeWith : (encodeWith params size message seed).length = size :=
  length_encode (RsaPss.length_maskOf params.mgf1Hash)
    (hseed.trans (length_labelHash params).symm) ((length_labelHash params).symm ▸ hfits)

/-- An encoded message begins with a zero byte, so that it is below every modulus of its length. -/
lemma beValue_encodeWith_lt :
    ByteStrings.beValue (encodeWith params size message seed) < 256 ^ (size - 1) :=
  beValue_encode_lt (RsaPss.length_maskOf params.mgf1Hash)
    (hseed.trans (length_labelHash params).symm) ((length_labelHash params).symm ▸ hfits)

/-- Decoding undoes the padding, for every message that fits and every seed. -/
lemma emeOaepDecode_encodeWith (hsize : size < 2 ^ 64) :
    emeOaepDecode (encodeWith params size message seed) params = .ok message := by
  have hlength := length_encodeWith hseed hfits
  rw [emeOaepDecode_eq (by rw [hlength]; exact hsize), if_pos (by rw [hlength]; omega),
    decodeWith, decode_encode (RsaPss.length_maskOf params.mgf1Hash)
      (hseed.trans (length_labelHash params).symm) ((length_labelHash params).symm ▸ hfits)]

end EncodeWith

end Encoding

end RsaOaep

end CryptoCore
