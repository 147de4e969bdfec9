import CryptoCore.Construction.Aes
import CryptoCore.Construction.Memory
import CryptoCore.Framework.BlockChaining
import CryptoCore.Framework.Streaming

/-!
# AES-CBC contexts

A context collects its input and works on all of it in `final`. The padding of a plaintext is
checked with masks that look at the last sixteen bytes whatever the padding claims to be.

The chain of the mode is the one of `Framework/BlockChaining.lean` over the block functions of
`Construction/Aes.lean`; `encryptRounds_eq` and `decryptRounds_eq` say that the loops of the source
compute it and never fail. Since bytes come in and blocks are worked on, `ofBlocks` translates
between the two.

The masks of the padding check are turned into a proposition about the last bytes (`PaddingHolds`),
and that into the statement that a plaintext ends in padding exactly when it is padded data
(`removePkcs7Padding_eq_ok`).

What the calls of a context answer is the pattern of `Framework/Streaming.lean`: any updates return
nothing, the first `final` returns a result of the whole message, and every later call is refused
(`streams`, `answers_eq`). A context is closed before anything in `final` can go wrong, so that a
failed `final` cannot be repeated. `Properties/AesCbc.lean` and `Properties/Cipher.lean` are about
the result.
-/

namespace CryptoCore

open Aes BlockChaining Blocks Loops Streaming

inductive CipherAlgorithm
  | aes128Cbc
  | aes192Cbc
  | aes256Cbc
  deriving DecidableEq, Repr

inductive CipherDirection
  | encrypt
  | decrypt
  deriving DecidableEq, Repr

inductive CipherPadding
  | none
  | pkcs7
  deriving DecidableEq, Repr

/-- What a cipher is created with. Without padding the input must be whole blocks. -/
structure CipherParams where
  algorithm : CipherAlgorithm
  direction : CipherDirection
  key : List UInt8
  iv : List UInt8
  padding : CipherPadding := .none

namespace AesCbc

/-- The error of the mode; the code of a bad padding is that of any other bad argument. -/
def cbcError (code : ErrorCode) (message : String) : Error :=
  makeError code "aes_cbc" message

/-- The size of a key by algorithm, in bytes. -/
def expectedKeySize : CipherAlgorithm → ℕ
  | .aes128Cbc => 16
  | .aes192Cbc => 24
  | .aes256Cbc => 32

def xorBlocks (lhs rhs : Block) : Block :=
  Vector.zipWith (· ^^^ ·) lhs rhs

/-- The bytes behind the padding checked against it, the last one first. All of the last sixteen
bytes are read; the mask drops those that the padding does not cover. -/
def paddingDiff (output : List UInt8) (pad : UInt8) : UInt8 :=
  loopUp (fun i diff =>
      let paddingMask := constantTimeBoolMask (i < pad.toNat)
      diff ||| ((output.getD (output.length - 1 - i) 0 ^^^ pad) &&& paddingMask))
    (min 16 output.length) 0

/-- The plaintext without its padding, if the padding is right. -/
def removePkcs7Padding (output : List UInt8) : Result (List UInt8) := do
  require (!output.isEmpty) (cbcError .invalidArgument "PKCS#7 plaintext is empty")
  let pad := output.getLastD 0
  let validMask := constantTimeBoolMask
    (pad != 0 && pad.toNat ≤ 16 && pad.toNat ≤ output.length)
  let validMask := validMask &&& constantTimeIsZero (paddingDiff output pad)
  require (validMask == 0xFF) (cbcError .invalidArgument "invalid PKCS#7 padding")
  return output.take (output.length - pad.toNat)

end AesCbc

open AesCbc

/-- A context: the cipher, the parameters, and the input that has come in so far. -/
structure AesCbcContext where
  cipher : AesBlockCipher
  iv : Block
  direction : CipherDirection
  padding : CipherPadding
  buffer : List UInt8 := []
  finalized : Bool := false

namespace AesCbcContext

/-- A block of the input, added to the block in front of it and encrypted. -/
def encryptRound (cipher : AesBlockCipher) (state : Block × List UInt8) (input : List UInt8) :
    Result (Block × List UInt8) := do
  let (previous, output) := state
  let block := xorBlocks (blockOfBytes input) previous
  let encrypted ← cipher.encryptBlock block.toList
  return (blockOfBytes encrypted, output ++ encrypted)

/-- The input of an encryption: padded, or checked to be whole blocks. -/
def paddedInput (context : AesCbcContext) : Result (List UInt8) :=
  match context.padding with
  | .pkcs7 =>
      let pad := 16 - context.buffer.length % 16
      .ok (context.buffer ++ List.replicate pad (UInt8.ofNat pad))
  | .none =>
      if context.buffer.length % 16 = 0 then .ok context.buffer
      else .error (cbcError .invalidArgument "AES-CBC no-padding input must be block aligned")

/-- The encryption of the collected input: the padding, then one round for each block with the block
before it in the state. -/
def encryptFinal (context : AesCbcContext) : Result ByteBuffer := do
  let input ← context.paddedInput
  let (_, output) ← (blocks 16 input).foldlM (encryptRound context.cipher) (context.iv, [])
  return output

/-- A block of the buffer, decrypted and added to the block in front of it. -/
def decryptRound (cipher : AesBlockCipher) (state : Block × List UInt8) (buffer : List UInt8) :
    Result (Block × List UInt8) := do
  let (previous, output) := state
  let decrypted ← cipher.decryptBlock buffer
  return (blockOfBytes buffer, output ++ (xorBlocks (blockOfBytes decrypted) previous).toList)

/-- The decryption of the collected input, which must be whole blocks and not empty if it is padded.
-/
def decryptFinal (context : AesCbcContext) : Result ByteBuffer := do
  require (!(context.buffer.isEmpty && context.padding == .pkcs7))
    (cbcError .invalidArgument "AES-CBC PKCS#7 ciphertext must not be empty")
  require (context.buffer.length % 16 == 0)
    (cbcError .invalidArgument "AES-CBC ciphertext must be block aligned")
  let (_, output) ← (blocks 16 context.buffer).foldlM (decryptRound context.cipher)
    (context.iv, [])
  match context.padding with
  | .pkcs7 => removePkcs7Padding output
  | .none => return output

/-- Input is collected as long as the context is open; nothing is returned for it. -/
def update (context : AesCbcContext) (input : List UInt8) : Result ByteBuffer × AesCbcContext :=
  if context.finalized then
    (.error (cbcError .invalidArgument "cannot update finalized cipher context"), context)
  else (.ok [], { context with buffer := context.buffer ++ input })

/-- The context is closed before anything can go wrong, so that a failure does not leave it open. -/
def final (context : AesCbcContext) : Result ByteBuffer × AesCbcContext :=
  if context.finalized then
    (.error (cbcError .invalidArgument "cipher context is already finalized"), context)
  else
    let closed := { context with finalized := true }
    match context.direction with
    | .encrypt => (closed.encryptFinal, closed)
    | .decrypt => (closed.decryptFinal, closed)

end AesCbcContext

/-- A context for a key and an initialization vector of the right sizes. -/
def createAesCbcContext (params : CipherParams) : Result AesCbcContext := do
  let keySize := expectedKeySize params.algorithm
  require (params.key.length == keySize)
    (cbcError .invalidKey "AES-CBC key size does not match algorithm")
  require (params.iv.length == 16)
    (cbcError .invalidArgument "AES-CBC IV must be exactly 16 bytes")
  let cipher ← AesBlockCipher.create params.key
  return {
    cipher, iv := blockOfBytes params.iv, direction := params.direction
    padding := params.padding }

/-! ## Calls -/

/-- A call on a cipher context, as a client may make them in any order. -/
inductive CipherCall
  | update (input : List UInt8)
  | final

/-- What a call returns, and the context it leaves: a machine in the sense of the streaming
contexts. -/
def AesCbcContext.call (context : AesCbcContext) : CipherCall → Result ByteBuffer × AesCbcContext
  | .update input => context.update input
  | .final => context.final

/-- What a closed context answers, which depends on the call only. -/
def cipherFinalizedError : CipherCall → Error
  | .update _ => ⟨.invalidArgument, "aes_cbc", "cannot update finalized cipher context"⟩
  | .final => ⟨.invalidArgument, "aes_cbc", "cipher context is already finalized"⟩

/-! ## Blocks and bytes -/

namespace AesCbc

/-- The bytes of blocks, one after the other, as they stand in a buffer. -/
def ofBlocks (input : List Block) : List UInt8 :=
  input.flatMap Vector.toList

@[simp] lemma ofBlocks_nil : ofBlocks [] = [] := rfl

@[simp] lemma ofBlocks_cons (block : Block) (rest : List Block) :
    ofBlocks (block :: rest) = block.toList ++ ofBlocks rest := rfl

@[simp] lemma length_ofBlocks (input : List Block) :
    (ofBlocks input).length = 16 * input.length := by
  induction input with
  | nil => rfl
  | cons block rest ih =>
      rw [ofBlocks_cons, List.length_append, Vector.length_toList, ih, List.length_cons]
      omega

/-- Cutting the bytes of blocks into blocks gives the blocks back. -/
lemma blocks_ofBlocks (input : List Block) :
    blocks 16 (ofBlocks input) = input.map Vector.toList := by
  induction input with
  | nil => rfl
  | cons block rest ih =>
      have hlength : block.toList.length = 16 := Vector.length_toList
      rw [ofBlocks_cons, blocks_append (by decide) (List.ne_nil_of_length_pos (by omega))
        hlength.le (Or.inl hlength), ih, List.map_cons]

lemma ofBlocks_injective {lhs rhs : List Block} (h : ofBlocks lhs = ofBlocks rhs) : lhs = rhs := by
  have hblocks := congrArg (blocks 16) h
  rw [blocks_ofBlocks, blocks_ofBlocks] at hblocks
  exact List.map_injective_iff.mpr (fun _ _ => Vector.toList_inj.mp) hblocks

lemma exists_ofBlocks {bytes : List UInt8} (hdvd : 16 ∣ bytes.length) :
    ∃ input, bytes = ofBlocks input := by
  induction bytes using blocks_induction (show 0 < 16 by decide) with
  | hnil => exact ⟨[], rfl⟩
  | hstep bytes hne ih =>
      have hle : 16 ≤ bytes.length := Nat.le_of_dvd (List.length_pos_iff.mpr hne) hdvd
      obtain ⟨rest, hrest⟩ := ih (by
        rw [List.length_drop]
        exact Nat.dvd_sub hdvd dvd_rfl)
      refine ⟨⟨(bytes.take 16).toArray, by simp [hle]⟩ :: rest, ?_⟩
      rw [ofBlocks_cons, ← hrest]
      exact (List.take_append_drop 16 bytes).symm

lemma xorBlocks_xorBlocks (lhs rhs : Block) : xorBlocks (xorBlocks lhs rhs) rhs = lhs := by
  ext1 i hi
  rw [xorBlocks, xorBlocks, Vector.getElem_zipWith, Vector.getElem_zipWith, UInt8.xor_assoc,
    UInt8.xor_self, UInt8.xor_zero]

/-- The loop of an encryption never fails and computes the chain. -/
lemma encryptRounds_eq (cipher : AesBlockCipher) (input : List Block) (previous : Block)
    (output : List UInt8) :
    ∃ last, (input.map Vector.toList).foldlM (AesCbcContext.encryptRound cipher)
        (previous, output) =
      .ok (last,
        output ++ ofBlocks (encryptChain cipher.encryptState xorBlocks previous input)) := by
  induction input generalizing previous output with
  | nil => exact ⟨previous, by simp [encryptChain]; rfl⟩
  | cons block rest ih =>
      obtain ⟨last, hlast⟩ := ih (cipher.encryptState (xorBlocks block previous))
        (output ++ (cipher.encryptState (xorBlocks block previous)).toList)
      refine ⟨last, ?_⟩
      have hround : AesCbcContext.encryptRound cipher (previous, output) block.toList =
          .ok (cipher.encryptState (xorBlocks block previous),
            output ++ (cipher.encryptState (xorBlocks block previous)).toList) := by
        simp only [AesCbcContext.encryptRound, blockOfBytes_toList, encryptBlock_toList, ok_bind]
        rfl
      rw [List.map_cons, List.foldlM_cons, hround, ok_bind, hlast, encryptChain, ofBlocks_cons,
        List.append_assoc]

/-- The loop of a decryption never fails and computes the chain. -/
lemma decryptRounds_eq (cipher : AesBlockCipher) (input : List Block) (previous : Block)
    (output : List UInt8) :
    ∃ last, (input.map Vector.toList).foldlM (AesCbcContext.decryptRound cipher)
        (previous, output) =
      .ok (last,
        output ++ ofBlocks (decryptChain cipher.decryptState xorBlocks previous input)) := by
  induction input generalizing previous output with
  | nil => exact ⟨previous, by simp [decryptChain]; rfl⟩
  | cons block rest ih =>
      obtain ⟨last, hlast⟩ := ih block
        (output ++ (xorBlocks (cipher.decryptState block) previous).toList)
      refine ⟨last, ?_⟩
      have hround : AesCbcContext.decryptRound cipher (previous, output) block.toList =
          .ok (block, output ++ (xorBlocks (cipher.decryptState block) previous).toList) := by
        simp only [AesCbcContext.decryptRound, blockOfBytes_toList, decryptBlock_toList, ok_bind]
        rfl
      rw [List.map_cons, List.foldlM_cons, hround, ok_bind, hlast, decryptChain, ofBlocks_cons,
        List.append_assoc]

/-! ## The padding check -/

/-- The collected differences vanish exactly when every covered byte is the padding byte. -/
lemma paddingDiff_eq_zero (output : List UInt8) (pad : UInt8) :
    paddingDiff output pad = 0 ↔ ∀ i < min 16 output.length, i < pad.toNat →
      output.getD (output.length - 1 - i) 0 = pad := by
  have hround : ∀ (i : ℕ) (diff : UInt8),
      diff ||| ((output.getD (output.length - 1 - i) 0 ^^^ pad) &&&
        constantTimeBoolMask (i < pad.toNat)) = 0 ↔
      diff = 0 ∧ (i < pad.toNat → output.getD (output.length - 1 - i) 0 = pad) := by
    intro i diff
    rw [UInt8.or_eq_zero_iff]
    by_cases hi : i < pad.toNat
    · rw [constantTimeBoolMask_eq, if_pos (by simpa using hi)]
      have hmask : ∀ byte : UInt8, byte &&& 0xFF = byte := by
        intro byte
        exact UInt8.and_neg_one
      rw [hmask, UInt8.xor_eq_zero_iff]
      simp [hi]
    · simp [hi]
  have hloop : ∀ n, loopUp (fun i diff => diff |||
      ((output.getD (output.length - 1 - i) 0 ^^^ pad) &&& constantTimeBoolMask (i < pad.toNat)))
        n 0 = 0 ↔ ∀ i < n, i < pad.toNat → output.getD (output.length - 1 - i) 0 = pad := by
    intro n
    induction n with
    | zero => simp [loopUp]
    | succ n ih => rw [loopUp, hround, ih, Nat.forall_lt_succ_right]
  exact hloop _

/-- What the masks say about the last bytes: the last one is a number from one to sixteen, and as
many bytes as it says are equal to it. -/
def PaddingHolds (output : List UInt8) : Prop :=
  output.getLastD 0 ≠ 0 ∧ (output.getLastD 0).toNat ≤ 16 ∧
    (output.getLastD 0).toNat ≤ output.length ∧
    ∀ i < (output.getLastD 0).toNat, output.getD (output.length - 1 - i) 0 = output.getLastD 0

lemma removePkcs7Padding_cases (output : List UInt8) :
    (PaddingHolds output ∧ removePkcs7Padding output =
      .ok (output.take (output.length - (output.getLastD 0).toNat))) ∨
    (¬PaddingHolds output ∧ ∃ message, removePkcs7Padding output =
      .error (cbcError .invalidArgument message)) := by
  by_cases hempty : output = []
  · subst hempty
    exact .inr ⟨fun h => h.1 rfl, _, rfl⟩
  -- The source answers through masks alone: the mask is full exactly for a padding that holds.
  · have hmask : (constantTimeBoolMask (output.getLastD 0 != 0 &&
          (output.getLastD 0).toNat ≤ 16 && (output.getLastD 0).toNat ≤ output.length) &&&
        constantTimeIsZero (paddingDiff output (output.getLastD 0)) == 0xFF) = true ↔
        PaddingHolds output := by
      rw [constantTimeBoolMask_eq, constantTimeIsZero_eq]
      by_cases hdiff : paddingDiff output (output.getLastD 0) = 0
      · have hvalues := (paddingDiff_eq_zero output _).mp hdiff
        rw [if_pos hdiff]
        constructor
        · intro h
          split at h
          · rename_i hpad
            simp only [Bool.and_eq_true, bne_iff_ne, decide_eq_true_eq] at hpad
            obtain ⟨⟨hzero, hblock⟩, hlength⟩ := hpad
            exact ⟨hzero, hblock, hlength, fun i hi => hvalues i (by omega) hi⟩
          · exact absurd h (by decide)
        · rintro ⟨hzero, hblock, hlength, -⟩
          have hpad : (output.getLastD 0 != 0 && decide ((output.getLastD 0).toNat ≤ 16) &&
              decide ((output.getLastD 0).toNat ≤ output.length)) = true := by
            simp only [Bool.and_eq_true, bne_iff_ne, decide_eq_true_eq]
            exact ⟨⟨hzero, hblock⟩, hlength⟩
          rw [if_pos hpad]
          rfl
      · rw [if_neg hdiff]
        constructor
        · intro h
          rw [UInt8.and_zero] at h
          exact absurd h (by decide)
        · rintro ⟨-, -, -, hvalues⟩
          exact absurd ((paddingDiff_eq_zero output _).mpr fun i _ hi => hvalues i hi) hdiff
    have hremove : removePkcs7Padding output = (do
        require (constantTimeBoolMask (output.getLastD 0 != 0 &&
            (output.getLastD 0).toNat ≤ 16 && (output.getLastD 0).toNat ≤ output.length) &&&
          constantTimeIsZero (paddingDiff output (output.getLastD 0)) == 0xFF)
          (cbcError .invalidArgument "invalid PKCS#7 padding")
        return output.take (output.length - (output.getLastD 0).toNat)) := by
      rw [removePkcs7Padding, List.isEmpty_eq_false_iff.mpr hempty, Bool.not_false, require_true,
        ok_bind]
    rw [hremove]
    by_cases h : PaddingHolds output
    · rw [hmask.mpr h]
      exact .inl ⟨h, rfl⟩
    · rw [Bool.eq_false_iff.mpr (mt hmask.mp h)]
      exact .inr ⟨h, _, rfl⟩

/-- The masks accept the lists that end in bytes that hold their number. -/
lemma paddingHolds_iff (output data : List UInt8) :
    PaddingHolds output ∧ data = output.take (output.length - (output.getLastD 0).toNat) ↔
      ∃ k, 0 < k ∧ k ≤ 16 ∧ output = data ++ List.replicate k (UInt8.ofNat k) := by
  constructor
  · rintro ⟨⟨hzero, hblock, hlength, hvalues⟩, hdata⟩
    refine ⟨(output.getLastD 0).toNat, ?_, hblock, ?_⟩
    · exact Nat.pos_of_ne_zero fun h => hzero (UInt8.toNat_inj.mp h)
    · rw [UInt8.ofNat_toNat]
      exact (eq_append_replicate_iff output data _ 0 _).mpr ⟨hlength, hdata, hvalues⟩
  · rintro ⟨k, hpos, hblock, heq⟩
    obtain ⟨hlength, hdata, hvalues⟩ := (eq_append_replicate_iff output data _ 0 k).mp heq
    have hlast : output.getLastD 0 = UInt8.ofNat k := by
      rw [List.getLastD_eq_getLast?, List.getLast?_eq_getElem?, ← List.getD_eq_getElem?_getD]
      exact hvalues 0 hpos
    have htoNat : (UInt8.ofNat k).toNat = k :=
      UInt8.toNat_ofNat_of_lt' (Nat.lt_of_le_of_lt hblock (by decide))
    rw [PaddingHolds, hlast, htoNat]
    refine ⟨⟨fun hzero => ?_, hblock, hlength, hvalues⟩, hdata⟩
    rw [← UInt8.toNat_inj, htoNat] at hzero
    exact absurd hzero hpos.ne'

/-- The padding is removed from padded data and from nothing else. -/
theorem removePkcs7Padding_eq_ok {output data : List UInt8} (hdvd : 16 ∣ output.length) :
    removePkcs7Padding output = .ok data ↔ output = pad 16 data := by
  rw [eq_pad_iff (by decide) hdvd, ← paddingHolds_iff]
  rcases removePkcs7Padding_cases output with ⟨hholds, hok⟩ | ⟨hfails, message, herror⟩
  · rw [hok, Except.ok.injEq]
    exact ⟨fun h => ⟨hholds, h.symm⟩, fun h => h.2.symm⟩
  · rw [herror]
    exact ⟨fun h => (by cases h), fun h => absurd h.1 hfails⟩

lemma removePkcs7Padding_error {output : List UInt8} {e : Error}
    (h : removePkcs7Padding output = .error e) : e.code = .invalidArgument := by
  rcases removePkcs7Padding_cases output with ⟨-, hok⟩ | ⟨-, message, herror⟩
  · rw [hok] at h
    cases h
  · rw [herror] at h
    cases h
    rfl

/-- The only bytes that end in padding of their own number and are whole blocks: those of the
blocks of padded data. -/
lemma exists_pad_blocks (data : List UInt8) : ∃ input, pad 16 data = ofBlocks input := by
  refine exists_ofBlocks ?_
  rw [length_pad (by decide)]
  exact dvd_mul_right _ _

/-! ## The results of `final` -/

/-- What `final` returns for a message: the work on a buffer that holds it. -/
def result (context : AesCbcContext) (message : List UInt8) : Result ByteBuffer :=
  match context.direction with
  | .encrypt => { context with buffer := message }.encryptFinal
  | .decrypt => { context with buffer := message }.decryptFinal

/-- The contexts are streaming contexts for the result of the message. -/
theorem streams {start : AesCbcContext} (hopen : start.finalized = false) :
    Streams AesCbcContext.call CipherCall.update CipherCall.final (.ok []) (result start)
      (fun c => .error (cipherFinalizedError c))
      (fun context message => context = { start with buffer := message })
      (fun context => context.finalized = true) where
  extend := by
    rintro context message chunk rfl
    refine ⟨{ start with buffer := message ++ chunk }, ?_, rfl⟩
    rw [AesCbcContext.call, AesCbcContext.update, if_neg (by simp [hopen])]
  finish := by
    rintro context message rfl
    refine ⟨{ start with buffer := message, finalized := true }, ?_, rfl⟩
    rw [AesCbcContext.call, AesCbcContext.final, if_neg (by simp [hopen]), result]
    cases start.direction <;> rfl
  refuse := by
    intro context h c
    cases c with
    | update input =>
        rw [AesCbcContext.call, AesCbcContext.update, if_pos h]
        rfl
    | final =>
        rw [AesCbcContext.call, AesCbcContext.final, if_pos h]
        rfl

/-- Chunks, one `final`, and any calls after it: the answers of a whole run. -/
lemma answers_eq {start : AesCbcContext} (hopen : start.finalized = false)
    (hempty : start.buffer = []) (chunks : List (List UInt8)) (later : List CipherCall) :
    ∃ closed, answers AesCbcContext.call start (chunks.map .update ++ [.final]) =
        (chunks.map (fun _ => .ok []) ++ [result start chunks.flatten], closed) ∧
      answers AesCbcContext.call closed later =
        (later.map fun c => .error (cipherFinalizedError c), closed) := by
  refine (streams hopen).answers_streaming ?_ chunks later
  rw [← hempty]

section Results

variable {context : AesCbcContext}

lemma encryptFinal_ofBlocks {input : List Block}
    (hinput : context.paddedInput = .ok (ofBlocks input)) :
    context.encryptFinal =
      .ok (ofBlocks (encryptChain context.cipher.encryptState xorBlocks context.iv input)) := by
  obtain ⟨last, hlast⟩ := encryptRounds_eq context.cipher input context.iv []
  rw [AesCbcContext.encryptFinal, hinput, ok_bind, blocks_ofBlocks, hlast]
  rfl

variable (context) in
/-- The blocks of a padded message are encrypted to the chain. -/
lemma encryptFinal_pkcs7 (hpadding : context.padding = .pkcs7) :
    ∃ input, pad 16 context.buffer = ofBlocks input ∧ context.encryptFinal =
      .ok (ofBlocks (encryptChain context.cipher.encryptState xorBlocks context.iv input)) := by
  obtain ⟨input, hinput⟩ := exists_pad_blocks context.buffer
  refine ⟨input, hinput, encryptFinal_ofBlocks ?_⟩
  rw [AesCbcContext.paddedInput, hpadding, ← hinput]
  rfl

lemma encryptFinal_none (hpadding : context.padding = .none) {input : List Block}
    (hinput : context.buffer = ofBlocks input) : context.encryptFinal =
      .ok (ofBlocks (encryptChain context.cipher.encryptState xorBlocks context.iv input)) := by
  refine encryptFinal_ofBlocks ?_
  rw [AesCbcContext.paddedInput, hpadding, hinput]
  simp

lemma decryptFinal_none (hpadding : context.padding = .none) {input : List Block}
    (hinput : context.buffer = ofBlocks input) : context.decryptFinal =
      .ok (ofBlocks (decryptChain context.cipher.decryptState xorBlocks context.iv input)) := by
  obtain ⟨last, hlast⟩ := decryptRounds_eq context.cipher input context.iv []
  have haligned : (context.buffer.length % 16 == 0) = true := by
    simp [hinput]
  have hnone : (!(context.buffer.isEmpty && context.padding == .pkcs7)) = true := by
    simp [hpadding]
  rw [AesCbcContext.decryptFinal, hnone, haligned, require_true, require_true, ok_bind, ok_bind,
    hinput, blocks_ofBlocks, hlast, ok_bind, hpadding]
  rfl

/-- With padding, the chain of at least one block is what the padding is removed from. -/
lemma decryptFinal_pkcs7 (hpadding : context.padding = .pkcs7) {input : List Block}
    (hinput : context.buffer = ofBlocks input) (hne : input ≠ []) : context.decryptFinal =
      removePkcs7Padding
        (ofBlocks (decryptChain context.cipher.decryptState xorBlocks context.iv input)) := by
  obtain ⟨last, hlast⟩ := decryptRounds_eq context.cipher input context.iv []
  have haligned : (context.buffer.length % 16 == 0) = true := by
    simp [hinput]
  have hnone : (!(context.buffer.isEmpty && context.padding == .pkcs7)) = true := by
    have hlength : (ofBlocks input).length ≠ 0 := by
      rw [length_ofBlocks]
      have := List.length_pos_iff.mpr hne
      omega
    have hempty : context.buffer.isEmpty = false := by
      rw [hinput, List.isEmpty_eq_false_iff]
      exact mt List.length_eq_zero_iff.mpr hlength
    rw [hempty]
    rfl
  rw [AesCbcContext.decryptFinal, hnone, haligned, require_true, require_true, ok_bind, ok_bind,
    hinput, blocks_ofBlocks, hlast, ok_bind, hpadding]
  rfl

variable (context) in
/-- No bytes, or a part of a block, are refused before they are decrypted. -/
lemma decryptFinal_refused (hpadding : context.padding = .pkcs7)
    (hbuffer : context.buffer = [] ∨ ¬16 ∣ context.buffer.length) :
    ∃ message, context.decryptFinal = .error (cbcError .invalidArgument message) := by
  rw [AesCbcContext.decryptFinal, hpadding]
  rcases hbuffer with hempty | hpartial
  · rw [hempty]
    exact ⟨_, rfl⟩
  · have hne : context.buffer.isEmpty = false := by
      rw [List.isEmpty_eq_false_iff]
      rintro hempty
      exact hpartial (by simp [hempty])
    have haligned : (context.buffer.length % 16 == 0) = false := by
      rw [beq_eq_false_iff_ne]
      exact mt Nat.dvd_of_mod_eq_zero hpartial
    rw [hne, haligned]
    exact ⟨_, rfl⟩

end Results

end AesCbc

end CryptoCore
