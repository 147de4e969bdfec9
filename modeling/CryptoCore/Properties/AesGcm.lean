import CryptoCore.Construction.AesGcm
import CryptoCore.Framework.QueryLogs

/-!
# AES-GCM

The mode is an exact authenticated codec: decryption accepts exactly the pairs that encryption
produces, returns the plaintext they were produced from, and fails with one error on every other
pair. Inside one call no counter block is used twice as long as the message has fewer than `2 ^ 32`
blocks; nothing refuses a longer one.

The first result needs nothing but the equations of the construction: counter mode is its own
inverse, and the tag that a decryption compares is the tag that an encryption computes, cut to the
length of the one that is given.

For the second result the blocks that really reach the cipher have to be named. The functions are
written down once more with a log of these blocks, and the log is tied to them by erasing it; the
counter blocks that the log contains are then `gctrCounters`, which repeat after `2 ^ 32` steps of
the low word and not before. A message one block too long reaches the block that masks the tag, so
that the bound is exact in both directions.
-/

namespace CryptoCore

open AesGcm Blocks Loops

/-- For every key of the size of its algorithm and every nonce: what encryption returns decrypts
to the plaintext, and a ciphertext with a tag of an allowed size decrypts to exactly the
plaintexts that encrypt to it, failing with `authenticationFailed` where there is none. -/
theorem aesGcm_exact (algorithm : AeadAlgorithm) (key nonce aad : List UInt8)
    (hkey : key.length = expectedKeySize algorithm) (hnonce : nonce ≠ []) :
    (∀ (plaintext : List UInt8) (tagSize : ℕ), 12 ≤ tagSize → tagSize ≤ 16 →
      ∃ sealed, aesGcmEncrypt ⟨algorithm, key, nonce, aad, tagSize⟩ plaintext = .ok sealed ∧
        sealed.tag.length = tagSize ∧
        aesGcmDecrypt ⟨algorithm, key, nonce, aad, sealed.tag⟩ sealed.ciphertext =
          .ok plaintext) ∧
    (∀ ciphertext tag : List UInt8, 12 ≤ tag.length → tag.length ≤ 16 →
      (∀ plaintext, aesGcmDecrypt ⟨algorithm, key, nonce, aad, tag⟩ ciphertext = .ok plaintext ↔
        aesGcmEncrypt ⟨algorithm, key, nonce, aad, tag.length⟩ plaintext =
          .ok ⟨ciphertext, tag⟩) ∧
      ((∀ plaintext, aesGcmEncrypt ⟨algorithm, key, nonce, aad, tag.length⟩ plaintext ≠
          .ok ⟨ciphertext, tag⟩) →
        aesGcmDecrypt ⟨algorithm, key, nonce, aad, tag⟩ ciphertext =
          .error ⟨.authenticationFailed, "aes_gcm", "AES-GCM authentication failed"⟩)) := by
  have hvalid : ∀ {tagSize : ℕ}, 12 ≤ tagSize → tagSize ≤ 16 →
      ValidParams algorithm key nonce tagSize := fun hle hge => ⟨hkey, hnonce, hle, hge⟩
  obtain ⟨cipher, hcipher⟩ := (hvalid (le_refl 12) (by decide)).cipher
  have hexact : ∀ (ciphertext tag : List UInt8), 12 ≤ tag.length → tag.length ≤ 16 →
      ∀ plaintext, aesGcmDecrypt ⟨algorithm, key, nonce, aad, tag⟩ ciphertext = .ok plaintext ↔
        aesGcmEncrypt ⟨algorithm, key, nonce, aad, tag.length⟩ plaintext =
          .ok ⟨ciphertext, tag⟩ := fun ciphertext tag hle hge plaintext =>
    aesGcmDecrypt_eq_ok_iff (hvalid hle hge) aad ciphertext plaintext
  constructor
  · intro plaintext tagSize hle hge
    refine ⟨_, aesGcmEncrypt_eq hcipher (hvalid hle hge) aad plaintext, ?_, ?_⟩
    · exact length_tagBytes cipher nonce aad _ hge
    · have htag := length_tagBytes cipher nonce aad
        (gctrBytes cipher (inc32 (firstCounter cipher nonce)) plaintext) hge
      apply (hexact _ _ _ _ plaintext).mpr
      · simp only [sealWith, htag]
        exact aesGcmEncrypt_eq hcipher (hvalid hle hge) aad plaintext
      · simpa only [sealWith, htag] using hle
      · simpa only [sealWith, htag] using hge
  · intro ciphertext tag hle hge
    refine ⟨hexact ciphertext tag hle hge, fun hnone => ?_⟩
    have hopen := aesGcmDecrypt_eq hcipher (hvalid hle hge) aad ciphertext
    -- Opening has one way to fail, and it fails when no plaintext seals to what was given.
    rcases openWith_eq_error (gctrBytes cipher (inc32 (firstCounter cipher nonce)))
      (tagBytes cipher nonce aad tag.length)
      (makeError .authenticationFailed "aes_gcm" "AES-GCM authentication failed") ciphertext tag
      with ⟨plaintext, h⟩ | h
    · exact absurd ((hexact ciphertext tag hle hge plaintext).mp (hopen.trans h))
        (hnone plaintext)
    · exact hopen.trans h

/-- A message of two blocks and a half under the key of zeros, with additional data. -/
theorem aesGcm_exact_zeroKey : ∃ sealed,
    aesGcmEncrypt ⟨.aes128Gcm, List.replicate 16 0, List.replicate 12 0, [1, 2, 3], 16⟩
      (List.replicate 40 7) = .ok sealed ∧
    sealed.tag.length = 16 ∧
    aesGcmDecrypt ⟨.aes128Gcm, List.replicate 16 0, List.replicate 12 0, [1, 2, 3], sealed.tag⟩
      sealed.ciphertext = .ok (List.replicate 40 7) :=
  (aesGcm_exact .aes128Gcm (List.replicate 16 0) (List.replicate 12 0) [1, 2, 3] (by decide)
    (by decide)).1 (List.replicate 40 7) 16 (by decide) le_rfl

/-- The first known-answer vector. -/
example : aesGcmEncrypt ⟨.aes128Gcm, List.replicate 16 0, List.replicate 12 0, [], 16⟩ [] =
    .ok ⟨[], [0x58, 0xe2, 0xfc, 0xce, 0xfa, 0x7e, 0x30, 0x61, 0x36, 0x7f, 0x1d, 0x57, 0xa4, 0xe7,
      0x45, 0x5a]⟩ := by
  decide +kernel

/-! ## The blocks that a call encrypts

Encryption and decryption once more, with a log of every block that reaches the block cipher. The
logged functions are the plain ones with `encryptBlockLogged` for `encryptBlock`, and erase to them
(`erases_aesGcmEncryptLogged`, `erases_aesGcmDecryptLogged`). -/

namespace AesGcm

open Aes QueryLogs

/-- What a call encrypts a block for: the hash key, the keystream, or the mask of the tag. -/
inductive BlockUse
  | hashSubkey
  | keystream
  | tagMask
  deriving DecidableEq, Repr

/-- A computation that logs the blocks it encrypts, each with its use. -/
abbrev Encrypting (α : Type) := Logged (BlockUse × Block) Error α

/-- The only way to the block cipher: the block goes to the log and to `encryptBlock`. -/
def encryptBlockLogged (use : BlockUse) (cipher : AesBlockCipher) (block : Block) :
    Encrypting Block :=
  call (use, block) (encryptBlock cipher block)

/-- Counter mode with a log. As in the plain loop, the counter of the next block is one step
further. -/
def gctrLoopLogged (cipher : AesBlockCipher) : Block → List (List UInt8) → Encrypting ByteBuffer
  | _, [] => return []
  | counter, block :: rest => do
      let encryptedCounter ← encryptBlockLogged .keystream cipher counter
      let output ← gctrLoopLogged cipher (inc32 counter) rest
      return List.zipWith (· ^^^ ·) block encryptedCounter.toList ++ output

def gctrLogged (cipher : AesBlockCipher) (counter : Block) (input : List UInt8) :
    Encrypting ByteBuffer :=
  gctrLoopLogged cipher counter (blocks 16 input)

def makeHashSubkeyLogged (cipher : AesBlockCipher) : Encrypting Block :=
  encryptBlockLogged .hashSubkey cipher (Vector.replicate 16 0)

def computeTagBlockLogged (cipher : AesBlockCipher) (h j0 : Block) (aad ciphertext : List UInt8) :
    Encrypting Block := do
  let s := ghash h aad ciphertext
  let encryptedJ0 ← encryptBlockLogged .tagMask cipher j0
  return xorBlock s encryptedJ0

/-- The encryption with a log, with the same checks in the same order. -/
def aesGcmEncryptLogged (params : AeadEncryptParams) (plaintext : List UInt8) :
    Encrypting AeadEncryptResult := do
  silent (validateEncryptParams params)
  let cipher ← silent (AesBlockCipher.create params.key)
  let h ← makeHashSubkeyLogged cipher
  let j0 ← silent (makeJ0 h params.nonce)
  let ciphertext ← gctrLogged cipher (inc32 j0) plaintext
  let tagBlock ← computeTagBlockLogged cipher h j0 params.aad ciphertext
  return ⟨ciphertext, tagBlock.toList.take params.tagSize⟩

/-- The decryption with a log. A tag that does not match ends the call before any keystream is made.
-/
def aesGcmDecryptLogged (params : AeadDecryptParams) (ciphertext : List UInt8) :
    Encrypting ByteBuffer := do
  silent (validateDecryptParams params)
  let cipher ← silent (AesBlockCipher.create params.key)
  let h ← makeHashSubkeyLogged cipher
  let j0 ← silent (makeJ0 h params.nonce)
  let tagBlock ← computeTagBlockLogged cipher h j0 params.aad ciphertext
  let expectedTag := tagBlock.toList.take params.tag.length
  silent (require (constantTimeEqual expectedTag params.tag)
    (makeError .authenticationFailed "aes_gcm" "AES-GCM authentication failed"))
  gctrLogged cipher (inc32 j0) ciphertext

section Erases

variable (cipher : AesBlockCipher)

lemma erases_encryptBlockLogged (use : BlockUse) (block : Block) :
    Erases (encryptBlockLogged use cipher block) (encryptBlock cipher block) :=
  erases_call _ _

lemma erases_gctrLoopLogged (counter : Block) (input : List (List UInt8)) :
    Erases (gctrLoopLogged cipher counter input) (gctrLoop cipher counter input) := by
  induction input generalizing counter with
  | nil => exact erases_pure _
  | cons block rest ih =>
      refine (erases_encryptBlockLogged cipher _ counter).bind fun _ => ?_
      exact (ih (inc32 counter)).bind fun _ => erases_pure _

lemma erases_makeHashSubkeyLogged : Erases (makeHashSubkeyLogged cipher) (makeHashSubkey cipher) :=
  erases_encryptBlockLogged cipher _ _

lemma erases_computeTagBlockLogged (h j0 : Block) (aad ciphertext : List UInt8) :
    Erases (computeTagBlockLogged cipher h j0 aad ciphertext)
      (computeTagBlock cipher h j0 aad ciphertext) :=
  (erases_encryptBlockLogged cipher _ j0).bind fun _ => erases_pure _

lemma erases_aesGcmEncryptLogged (params : AeadEncryptParams) (plaintext : List UInt8) :
    Erases (aesGcmEncryptLogged params plaintext) (aesGcmEncrypt params plaintext) := by
  refine (erases_silent _).bind fun _ => (erases_silent _).bind fun cipher => ?_
  refine (erases_makeHashSubkeyLogged cipher).bind fun h => (erases_silent _).bind fun j0 => ?_
  refine (erases_gctrLoopLogged cipher (inc32 j0) _).bind fun ciphertext => ?_
  exact (erases_computeTagBlockLogged cipher h j0 _ _).bind fun _ => erases_pure _

lemma erases_aesGcmDecryptLogged (params : AeadDecryptParams) (ciphertext : List UInt8) :
    Erases (aesGcmDecryptLogged params ciphertext) (aesGcmDecrypt params ciphertext) := by
  refine (erases_silent _).bind fun _ => (erases_silent _).bind fun cipher => ?_
  refine (erases_makeHashSubkeyLogged cipher).bind fun h => (erases_silent _).bind fun j0 => ?_
  refine (erases_computeTagBlockLogged cipher h j0 _ _).bind fun _ => ?_
  exact (erases_silent _).bind fun _ => erases_gctrLoopLogged cipher (inc32 j0) _

end Erases

section Logs

variable (cipher : AesBlockCipher)

/-- The entries that counter mode makes, one for each block of its input. -/
def keystreamEntries (counter : Block) (input : List UInt8) : List (BlockUse × Block) :=
  (gctrCounters counter input).map fun block => (.keystream, block)

lemma run_encryptBlockLogged (use : BlockUse) (block : Block) (log : List (BlockUse × Block)) :
    encryptBlockLogged use cipher block log =
      .ok (cipher.encryptState block, log ++ [(use, block)]) :=
  run_call (encryptBlock_eq cipher block) log

/-- The loop writes down its counter blocks in their order. -/
lemma run_gctrLogged (counter : Block) (input : List UInt8) (log : List (BlockUse × Block)) :
    gctrLogged cipher counter input log =
      .ok (gctrBytes cipher counter input, log ++ keystreamEntries counter input) := by
  rw [gctrLogged, gctrBytes, keystreamEntries, gctrCounters]
  induction blocks 16 input generalizing counter log with
  | nil => exact congrArg (fun rest => Except.ok ([], rest)) (List.append_nil log).symm
  | cons block rest ih =>
      rw [gctrLoopLogged, run_bind (run_encryptBlockLogged cipher _ counter log),
        run_bind (ih (inc32 counter) _), counters, List.map_cons, List.append_assoc]
      rfl

lemma run_makeHashSubkeyLogged (log : List (BlockUse × Block)) :
    makeHashSubkeyLogged cipher log =
      .ok (hashSubkey cipher, log ++ [(.hashSubkey, Vector.replicate 16 0)]) :=
  run_encryptBlockLogged cipher _ _ log

lemma run_computeTagBlockLogged (h j0 : Block) (aad ciphertext : List UInt8)
    (log : List (BlockUse × Block)) :
    computeTagBlockLogged cipher h j0 aad ciphertext log =
      .ok (xorBlock (ghash h aad ciphertext) (cipher.encryptState j0),
        log ++ [(.tagMask, j0)]) := by
  rw [computeTagBlockLogged, run_bind (run_encryptBlockLogged cipher _ j0 log)]
  rfl

end Logs

/-- The blocks of one use, in the order of the calls. -/
def blocksFor (use : BlockUse) (log : List (BlockUse × Block)) : List Block :=
  log.filterMap fun entry => if entry.1 = use then some entry.2 else none

/-- The counter blocks of a log differ from each other and from the block that masks the tag. -/
def KeystreamFresh (log : List (BlockUse × Block)) : Prop :=
  (blocksFor .keystream log).Nodup ∧ ∀ j0 ∈ blocksFor .tagMask log, j0 ∉ blocksFor .keystream log

@[simp] lemma blocksFor_append (use : BlockUse) (log log' : List (BlockUse × Block)) :
    blocksFor use (log ++ log') = blocksFor use log ++ blocksFor use log' :=
  List.filterMap_append

@[simp] lemma blocksFor_keystreamEntries (use : BlockUse) (counter : Block) (input : List UInt8) :
    blocksFor use (keystreamEntries counter input) =
      if use = .keystream then gctrCounters counter input else [] := by
  rw [blocksFor, keystreamEntries, List.filterMap_map]
  cases use <;> simp

@[simp] lemma blocksFor_nil (use : BlockUse) : blocksFor use [] = [] := rfl

@[simp] lemma blocksFor_cons (use : BlockUse) (entry : BlockUse × Block)
    (log : List (BlockUse × Block)) : blocksFor use (entry :: log) =
      if entry.1 = use then entry.2 :: blocksFor use log else blocksFor use log := by
  rw [blocksFor, List.filterMap_cons]
  split
  next h =>
    split at h
    · cases h
    next hne => rw [if_neg hne, blocksFor]
  next h =>
    split at h
    next heq =>
      cases h
      rw [if_pos heq, blocksFor]
    · cases h

/-- An encryption makes the hash subkey, crypts the message and masks the tag. -/
def encryptionLog (j0 : Block) (input : List UInt8) : List (BlockUse × Block) :=
  (.hashSubkey, Vector.replicate 16 0) ::
    (keystreamEntries (inc32 j0) input ++ [(.tagMask, j0)])

/-- A decryption compares the tag first. -/
def decryptionLog (j0 : Block) (input : List UInt8) : List (BlockUse × Block) :=
  (.hashSubkey, Vector.replicate 16 0) :: (.tagMask, j0) :: keystreamEntries (inc32 j0) input

/-- The logs of both directions are fresh as long as the message has fewer than `2 ^ 32` blocks. The
order of their entries does not matter for that. -/
lemma keystreamFresh_iff (j0 : Block) (input : List UInt8) {log : List (BlockUse × Block)}
    (hlog : log = encryptionLog j0 input ∨ log = decryptionLog j0 input) :
    KeystreamFresh log ↔ (blocks 16 input).length < 2 ^ 32 := by
  have hblocks : blocksFor .keystream log = gctrCounters (inc32 j0) input ∧
      blocksFor .tagMask log = [j0] := by
    obtain rfl | rfl := hlog
    · simp [encryptionLog]
    · simp [decryptionLog]
  rw [KeystreamFresh, hblocks.1, hblocks.2, List.forall_mem_singleton]
  exact gctrCounters_fresh_iff j0 input

section Calls

variable {algorithm : AeadAlgorithm} {key nonce : List UInt8} {cipher : AesBlockCipher}

lemma run_aesGcmEncryptLogged {tagSize : ℕ} (hcipher : AesBlockCipher.create key = .ok cipher)
    (h : ValidParams algorithm key nonce tagSize) (aad plaintext : List UInt8) :
    ∃ sealed, aesGcmEncryptLogged ⟨algorithm, key, nonce, aad, tagSize⟩ plaintext [] =
      .ok (sealed, encryptionLog (firstCounter cipher nonce) plaintext) := by
  rw [aesGcmEncryptLogged, validateEncryptParams, run_bind (run_silent h.validate _),
    run_bind (run_silent hcipher _), run_bind (run_makeHashSubkeyLogged cipher _),
    run_bind (run_silent (makeJ0_eq cipher nonce) _), run_bind (run_gctrLogged cipher _ _ _),
    run_bind (run_computeTagBlockLogged cipher _ _ _ _ _)]
  exact ⟨_, rfl⟩

lemma run_aesGcmDecryptLogged {tag : List UInt8}
    (hcipher : AesBlockCipher.create key = .ok cipher)
    (h : ValidParams algorithm key nonce tag.length) (aad ciphertext : List UInt8)
    {plaintext : List UInt8} {log : List (BlockUse × Block)}
    (hrun : aesGcmDecryptLogged ⟨algorithm, key, nonce, aad, tag⟩ ciphertext [] =
      .ok (plaintext, log)) :
    log = decryptionLog (firstCounter cipher nonce) ciphertext := by
  rw [aesGcmDecryptLogged, validateDecryptParams, run_bind (run_silent h.validate _),
    run_bind (run_silent hcipher _), run_bind (run_makeHashSubkeyLogged cipher _),
    run_bind (run_silent (makeJ0_eq cipher nonce) _),
    run_bind (run_computeTagBlockLogged cipher _ _ _ _ _)] at hrun
  dsimp only at hrun
  cases htag : require (constantTimeEqual
      ((xorBlock (ghash (hashSubkey cipher) aad ciphertext)
        (cipher.encryptState (firstCounter cipher nonce))).toList.take tag.length) tag)
      (makeError .authenticationFailed "aes_gcm" "AES-GCM authentication failed") with
  | error e =>
      rw [htag] at hrun
      cases hrun
  | ok checked =>
      rw [run_bind (run_silent htag _), run_gctrLogged] at hrun
      exact (Prod.mk.inj (Except.ok.inj hrun)).2.symm

end Calls

/-- An encryption uses no counter block twice when it succeeds, and fails on a message that is too
long for that. -/
def EncryptsFresh (params : AeadEncryptParams) (plaintext : List UInt8) : Prop :=
  (∀ sealed log, aesGcmEncryptLogged params plaintext [] = .ok (sealed, log) →
    KeystreamFresh log) ∧
  (2 ^ 32 ≤ (blocks 16 plaintext).length →
    ∃ error, aesGcmEncrypt params plaintext = .error error)

/-- A decryption that accepts its ciphertext uses no counter block twice. -/
def DecryptsFresh (params : AeadDecryptParams) (ciphertext : List UInt8) : Prop :=
  ∀ plaintext log, aesGcmDecryptLogged params ciphertext [] = .ok (plaintext, log) →
    KeystreamFresh log

lemma length_blocks_lt_iff (input : List UInt8) :
    (blocks 16 input).length < 2 ^ 32 ↔ input.length ≤ 16 * (2 ^ 32 - 1) := by
  rw [length_blocks (by decide)]
  omega

/-- Encryption accepts every message under the parameters it accepts, so that only the length or the
parameters can keep it fresh. -/
lemma encryptsFresh_iff (params : AeadEncryptParams) (plaintext : List UInt8) :
    EncryptsFresh params plaintext ↔ plaintext.length ≤ 16 * (2 ^ 32 - 1) ∨
      ¬ValidParams params.algorithm params.key params.nonce params.tagSize := by
  obtain ⟨algorithm, key, nonce, aad, tagSize⟩ := params
  have herases := fun sealed => (erases_aesGcmEncryptLogged ⟨algorithm, key, nonce, aad, tagSize⟩
    plaintext).exists_ok_iff [] sealed
  rw [← length_blocks_lt_iff, EncryptsFresh]
  by_cases hvalid : ValidParams algorithm key nonce tagSize
  · obtain ⟨cipher, hcipher⟩ := hvalid.cipher
    obtain ⟨sealed, hrun⟩ := run_aesGcmEncryptLogged hcipher hvalid aad plaintext
    have hfresh := keystreamFresh_iff (firstCounter cipher nonce) plaintext (.inl rfl)
    constructor
    · intro h
      exact Or.inl (hfresh.mp (h.1 _ _ hrun))
    · intro h
      have hlt := h.resolve_right (not_not.mpr hvalid)
      refine ⟨fun sealed' log hrun' => ?_, fun hle => absurd hle (not_le.mpr hlt)⟩
      obtain ⟨-, rfl⟩ := Prod.mk.inj (Except.ok.inj (hrun.symm.trans hrun'))
      exact hfresh.mpr hlt
  · constructor
    · intro _
      exact Or.inr hvalid
    · intro _
      have hreject : ∃ error, validateParams algorithm key nonce tagSize = .error error := by
        cases h : validateParams algorithm key nonce tagSize with
        | error error => exact ⟨error, rfl⟩
        | ok => exact absurd (ValidParams.of_validate h) hvalid
      obtain ⟨error, herror⟩ := hreject
      have hencrypt : aesGcmEncrypt ⟨algorithm, key, nonce, aad, tagSize⟩ plaintext =
          .error error := by
        rw [aesGcmEncrypt, validateEncryptParams, herror, error_bind]
      refine ⟨fun sealed log h => ?_, fun _ => ⟨error, hencrypt⟩⟩
      cases hencrypt.symm.trans ((herases sealed).mp ⟨log, h⟩)

/-- What decryption accepts is what encryption produced. So a ciphertext that is too long is no harm
when its tag seals nothing. -/
lemma decryptsFresh_iff (params : AeadDecryptParams) (ciphertext : List UInt8) :
    DecryptsFresh params ciphertext ↔ ciphertext.length ≤ 16 * (2 ^ 32 - 1) ∨
      ∀ plaintext, aesGcmEncrypt ⟨params.algorithm, params.key, params.nonce, params.aad,
        params.tag.length⟩ plaintext ≠ .ok ⟨ciphertext, params.tag⟩ := by
  obtain ⟨algorithm, key, nonce, aad, tag⟩ := params
  have herases := fun plaintext => (erases_aesGcmDecryptLogged ⟨algorithm, key, nonce, aad, tag⟩
    ciphertext).exists_ok_iff [] plaintext
  rw [← length_blocks_lt_iff, DecryptsFresh]
  by_cases hvalid : ValidParams algorithm key nonce tag.length
  · obtain ⟨cipher, hcipher⟩ := hvalid.cipher
    have hfresh := keystreamFresh_iff (firstCounter cipher nonce) ciphertext (.inr rfl)
    constructor
    · intro h
      -- Counters are used up only by what authenticates: a rejected message never reaches the
      -- keystream.
      by_cases hsealed : ∃ plaintext, aesGcmEncrypt ⟨algorithm, key, nonce, aad, tag.length⟩
          plaintext = .ok ⟨ciphertext, tag⟩
      · obtain ⟨plaintext, hplaintext⟩ := hsealed
        obtain ⟨log, hrun⟩ := (herases plaintext).mpr
          ((aesGcmDecrypt_eq_ok_iff hvalid aad ciphertext plaintext).mpr hplaintext)
        have hlog := h plaintext log hrun
        rw [run_aesGcmDecryptLogged hcipher hvalid aad ciphertext hrun] at hlog
        exact Or.inl (hfresh.mp hlog)
      · exact Or.inr (not_exists.mp hsealed)
    · intro h plaintext log hrun
      have hplaintext := (aesGcmDecrypt_eq_ok_iff hvalid aad ciphertext plaintext).mp
        ((herases plaintext).mp ⟨log, hrun⟩)
      rw [run_aesGcmDecryptLogged hcipher hvalid aad ciphertext hrun]
      exact hfresh.mpr (h.resolve_right fun hnone => hnone plaintext hplaintext)
  -- Refused parameters end the run before any block is encrypted.
  · have hreject : ∀ {α : Type} (k : Unit → Result α) (a : α),
        (validateParams algorithm key nonce tag.length >>= k) ≠ .ok a := by
      intro α k a h
      obtain ⟨_, hvalidate, _⟩ := bind_eq_ok.mp h
      exact hvalid (ValidParams.of_validate hvalidate)
    constructor
    · intro _
      exact Or.inr fun plaintext => hreject _ _
    · intro _ plaintext log h
      exact absurd ((herases plaintext).mp ⟨log, h⟩) (hreject _ _)

end AesGcm

/-- The logs are those of the calls themselves: without them, and whatever stands in them before,
the logged functions return what encryption and decryption return. And by the logs a call uses no
counter block twice exactly when its message has fewer than `2 ^ 32` blocks or is not accepted for
another reason: the parameters of an encryption, a tag that seals nothing. -/
theorem aesGcm_fresh_iff (sealing : AeadEncryptParams) (opening : AeadDecryptParams)
    (plaintext ciphertext : List UInt8) :
    (∀ log, (aesGcmEncryptLogged sealing plaintext log).map Prod.fst =
      aesGcmEncrypt sealing plaintext) ∧
    (∀ log, (aesGcmDecryptLogged opening ciphertext log).map Prod.fst =
      aesGcmDecrypt opening ciphertext) ∧
    (EncryptsFresh sealing plaintext ↔ plaintext.length ≤ 16 * (2 ^ 32 - 1) ∨
      ¬ValidParams sealing.algorithm sealing.key sealing.nonce sealing.tagSize) ∧
    (DecryptsFresh opening ciphertext ↔ ciphertext.length ≤ 16 * (2 ^ 32 - 1) ∨
      ∀ plaintext, aesGcmEncrypt ⟨opening.algorithm, opening.key, opening.nonce, opening.aad,
        opening.tag.length⟩ plaintext ≠ .ok ⟨ciphertext, opening.tag⟩) :=
  ⟨erases_aesGcmEncryptLogged sealing plaintext, erases_aesGcmDecryptLogged opening ciphertext,
    encryptsFresh_iff sealing plaintext, decryptsFresh_iff opening ciphertext⟩

/-- A message of `2 ^ 32` zero blocks is encrypted, and its last counter block masks the tag. -/
theorem aesGcmEncrypt_reuses_counter :
    ¬EncryptsFresh ⟨.aes128Gcm, List.replicate 16 0, List.replicate 12 0, [], 16⟩
      (List.replicate (2 ^ 36) 0) := by
  have hvalid : ValidParams .aes128Gcm (List.replicate 16 0) (List.replicate 12 0) 16 :=
    ⟨by decide, by decide, by decide, by decide⟩
  rw [encryptsFresh_iff, List.length_replicate]
  rintro (h | h)
  · norm_num at h
  · exact h hvalid

end CryptoCore
