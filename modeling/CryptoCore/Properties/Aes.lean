import CryptoCore.Framework.CheckedAccess
import CryptoCore.Construction.Aes

/-!
# The AES block cipher

For every key the decryption of a block and its encryption are inverse to each other. The key
schedule is stated a second time with every index checked; it never faults, so the words of the key,
the round constants and the round keys are only accessed inside their bounds.

The checked schedule follows the loops of the key schedule statement by statement. Reads, writes and
subtractions of indices go through `CheckedAccess`, so that an index below zero is a fault as well
as one past the end. The loops are `loopUpM`, and the invariant of both is an equation: the buffer
that the checked loop has filled is the array that the plain loop has filled. What has to be shown
of one round is then that its indices are in bounds (`loadKeyWordChecked_eq`,
`expandWordChecked_eq`). The round constants are the tight case: a key of four words reads all ten
of them.

Invertibility is shown beside the rounds themselves, in the construction; here it is stated for the
two block functions with their length checks.
-/

namespace CryptoCore

open Aes AesBlockCipher CheckedAccess Loops

/-! ## The key schedule with checked indices -/

/-- One round of the first loop, which reads four bytes of the key and writes a word. -/
def loadKeyWordChecked (key : List UInt8) (i : ℕ) (words : List UInt32) :
    Checked (List UInt32) := do
  let bytes ← slice key (i * 4) 4
  write words i (loadBe32 bytes)

/-- What the word in front of a word contributes to it. The round constant of a word is found by a
division and a subtraction of one. -/
def scheduleTempChecked (keyWords i : ℕ) (previous : UInt32) : Checked UInt32 :=
  if i % keyWords = 0 then do
    let constantIndex ← subSize (i / keyWords) 1
    let constant ← read rcon constantIndex
    return subWord (rotWord previous) ^^^ (constant.toUInt32 <<< 24)
  else if keyWords > 6 ∧ i % keyWords = 4 then .ok (subWord previous)
  else .ok previous

/-- One round of the second loop, which reads the word in front and the word one key length before.
-/
def expandWordChecked (keyWords i : ℕ) (words : List UInt32) : Checked (List UInt32) := do
  let previousIndex ← subSize i 1
  let previous ← read words previousIndex
  let temp ← scheduleTempChecked keyWords i previous
  let firstIndex ← subSize i keyWords
  let first ← read words firstIndex
  write words i (first ^^^ temp)

/-- The round keys of a key, in a buffer of sixty words, which is the size for the longest key. -/
def keyScheduleChecked (key : List UInt8) : Checked (List UInt32) := do
  let keyWords := key.length / 4
  let roundKeyWords := 4 * (keyWords + 6 + 1)
  let words ← loopUpM (loadKeyWordChecked key) keyWords (List.replicate 60 0)
  let count ← subSize roundKeyWords keyWords
  loopUpM (fun i => expandWordChecked keyWords (keyWords + i)) count words

lemma read_toList (words : Vector UInt32 60) {i : ℕ} (h : i < 60) :
    read words.toList i = .ok (words.getD i 0) := by
  rw [read_eq (by simpa using h) 0]
  simp [h, Vector.getD]

lemma write_toList (words : Vector UInt32 60) {i : ℕ} (h : i < 60) (word : UInt32) :
    write words.toList i word = .ok (words.setIfInBounds i word).toList := by
  rw [write_eq (by simpa using h)]
  simp

/-- A word of the key is read from four of its bytes, as long as the key has them. -/
lemma loadKeyWordChecked_eq {key : List UInt8} {i : ℕ} (hkey : i * 4 + 4 ≤ key.length)
    (hi : i < 60) (words : Vector UInt32 60) :
    loadKeyWordChecked key i words.toList =
      .ok (words.setIfInBounds i (loadBe32 (key.drop (i * 4)))).toList := by
  have hbytes : ∀ bytes : List UInt8, loadBe32 (bytes.take 4) = loadBe32 bytes := by
    intro bytes
    simp [loadBe32]
  rw [loadKeyWordChecked, slice_eq hkey, checked_bind, write_toList words hi, hbytes]

/-- A word of the schedule is computed from words in front of it, and from a round constant that
there is. -/
lemma expandWordChecked_eq {keyWords i : ℕ} (hpos : 0 < keyWords) (hle : keyWords ≤ i)
    (hi : i < 60) (hrcon : i / keyWords ≤ 10) (words : Vector UInt32 60) :
    expandWordChecked keyWords i words.toList = .ok (expandWord keyWords i words).toList := by
  have hquotient : 1 ≤ i / keyWords := (Nat.one_le_div_iff hpos).mpr hle
  have hconstant : i / keyWords - 1 < rcon.length := by
    rw [show rcon.length = 10 from rfl]
    omega
  have htemp : ∀ previous, scheduleTempChecked keyWords i previous = .ok (
      if i % keyWords = 0 then
        subWord (rotWord previous) ^^^ ((rcon.getD (i / keyWords - 1) 0).toUInt32 <<< 24)
      else if keyWords > 6 ∧ i % keyWords = 4 then subWord previous
      else previous) := by
    intro previous
    rw [scheduleTempChecked, subSize_eq hquotient, checked_bind, read_eq hconstant 0, checked_bind]
    split
    · rfl
    · split <;> rfl
  rw [expandWordChecked, subSize_eq (by omega), checked_bind, read_toList words (by omega),
    checked_bind, htemp, checked_bind, subSize_eq hle, checked_bind, read_toList words (by omega),
    checked_bind, write_toList words hi]
  rfl

/-- The key schedule stays inside its buffers and computes the round keys of the cipher. -/
lemma keyScheduleChecked_eq {key : List UInt8}
    (hkey : key.length = 16 ∨ key.length = 24 ∨ key.length = 32) {cipher : AesBlockCipher}
    (hcipher : AesBlockCipher.create key = .ok cipher) :
    keyScheduleChecked key = .ok cipher.roundKeys.toList := by
  have hsize : (key.length == 16 || key.length == 24 || key.length == 32) = true := by
    simpa [or_assoc] using hkey
  rw [AesBlockCipher.create, hsize, require_true, ok_bind] at hcipher
  have hkeys := congrArg AesBlockCipher.roundKeys (Except.ok.inj hcipher)
  dsimp only at hkeys
  rw [← hkeys, keyScheduleChecked]
  set keyWords := key.length / 4 with hwords
  have hbounds : 4 ≤ keyWords ∧ keyWords ≤ 8 ∧ keyWords * 4 = key.length := by omega
  have hload := (loopUpM_eq Vector.toList (loadKeyWordChecked key)
    (fun i words => words.setIfInBounds i (loadBe32 (key.drop (i * 4)))) keyWords
    (fun _ _ => True) (t := Vector.replicate 60 0) trivial fun i hi words _ =>
      ⟨loadKeyWordChecked_eq (by omega) (by omega) words, trivial⟩).1
  have hexpand := fun words : Vector UInt32 60 =>
    (loopUpM_eq Vector.toList (fun i => expandWordChecked keyWords (keyWords + i))
      (fun i words => expandWord keyWords (keyWords + i) words)
      (4 * (keyWords + 6 + 1) - keyWords) (fun _ _ => True) (t := words) trivial
      fun i hi words _ => by
        -- At most seven rounds of the schedule follow the key, ten for the shortest one.
        have hquotient : (keyWords + i) / keyWords ≤ 10 := by
          rw [Nat.div_le_iff_le_mul_add_pred (by omega)]
          omega
        exact ⟨expandWordChecked_eq (by omega) (by omega) (by omega) hquotient words,
          trivial⟩).1
  rw [Vector.toList_replicate] at hload
  rw [hload, checked_bind, subSize_eq (by omega), checked_bind, hexpand]
  rfl

/-! ## Decryption and encryption -/

/-- The block functions of the cipher of a key undo each other, and its key schedule accesses
nothing outside its buffers. -/
theorem aes_block_inverse (key : List UInt8)
    (hkey : key.length = 16 ∨ key.length = 24 ∨ key.length = 32) :
    ∃ cipher, AesBlockCipher.create key = .ok cipher ∧
      keyScheduleChecked key = .ok cipher.roundKeys.toList ∧
      ∀ block : List UInt8, block.length = 16 →
        (cipher.encryptBlock block >>= cipher.decryptBlock) = .ok block ∧
        (cipher.decryptBlock block >>= cipher.encryptBlock) = .ok block := by
  obtain ⟨cipher, hcipher⟩ := create_ok hkey
  refine ⟨cipher, hcipher, keyScheduleChecked_eq hkey hcipher, ?_⟩
  intro block hblock
  obtain ⟨state, rfl⟩ : ∃ state : Block, block = state.toList :=
    ⟨⟨block.toArray, hblock⟩, rfl⟩
  constructor
  · rw [encryptBlock_toList, ok_bind, decryptBlock_toList, decryptState_encryptState]
  · rw [decryptBlock_toList, ok_bind, encryptBlock_toList, encryptState_decryptState]

/-- The key of sixteen zeros, for every block. -/
theorem aes_block_inverse_zero :
    ∃ cipher, AesBlockCipher.create (List.replicate 16 0) = .ok cipher ∧
      keyScheduleChecked (List.replicate 16 0) = .ok cipher.roundKeys.toList ∧
      ∀ block : List UInt8, block.length = 16 →
        (cipher.encryptBlock block >>= cipher.decryptBlock) = .ok block ∧
        (cipher.decryptBlock block >>= cipher.encryptBlock) = .ok block :=
  aes_block_inverse (List.replicate 16 0) (Or.inl List.length_replicate)

end CryptoCore
