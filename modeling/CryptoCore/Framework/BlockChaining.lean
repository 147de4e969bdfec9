import CryptoCore.Framework.Blocks
import Mathlib.Data.List.GetD

/-!
# Block chaining and byte padding

Every block is added to the encryption of the block in front of it before it is encrypted itself.
The padding fills the last block with bytes that hold their own number; a full block is followed by
a block of padding.

The two parts are independent of each other. Chains are over any type of blocks: decrypting undoes
encrypting if the block functions and the addition undo each other one way round
(`decryptChain_encryptChain`), and the reverse needs the other way round
(`encryptChain_decryptChain`). Padding is about bytes. `missing_eq` says that the number of padding
bytes is determined by the length of the data, and `eq_pad_iff` that the padded data among all byte
strings of whole blocks are those that end in bytes of their own number, which is what a check of
the padding has to decide.
-/

namespace BlockChaining

/-! ## Chains of blocks -/

section Chain

variable {β : Type*} (encrypt decrypt : β → β) (add : β → β → β)

/-- The chain of an encryption, from the block that comes before the first one. -/
def encryptChain : β → List β → List β
  | _, [] => []
  | previous, block :: rest =>
      encrypt (add block previous) :: encryptChain (encrypt (add block previous)) rest

/-- The chain of a decryption. The block in front is one of the input, so that blocks can be
decrypted in any order. -/
def decryptChain : β → List β → List β
  | _, [] => []
  | previous, block :: rest => add (decrypt block) previous :: decryptChain block rest

@[simp] lemma length_encryptChain (previous : β) (blocks : List β) :
    (encryptChain encrypt add previous blocks).length = blocks.length := by
  induction blocks generalizing previous with
  | nil => rfl
  | cons block rest ih => rw [encryptChain, List.length_cons, ih, List.length_cons]

variable {encrypt decrypt add}

/-- Decrypting a chain gives back its blocks. -/
theorem decryptChain_encryptChain (hdecrypt : ∀ block, decrypt (encrypt block) = block)
    (hadd : ∀ a b, add (add a b) b = a) (previous : β) (blocks : List β) :
    decryptChain decrypt add previous (encryptChain encrypt add previous blocks) = blocks := by
  induction blocks generalizing previous with
  | nil => rfl
  | cons block rest ih => rw [encryptChain, decryptChain, ih, hdecrypt, hadd]

/-- Every list of blocks is a chain, namely that of its decryption. -/
theorem encryptChain_decryptChain (hencrypt : ∀ block, encrypt (decrypt block) = block)
    (hadd : ∀ a b, add (add a b) b = a) (previous : β) (blocks : List β) :
    encryptChain encrypt add previous (decryptChain decrypt add previous blocks) = blocks := by
  induction blocks generalizing previous with
  | nil => rfl
  | cons block rest ih => rw [decryptChain, encryptChain, hadd, hencrypt, ih]

end Chain

/-! ## Padding -/

/-- The number of bytes that are missing in the last block; never none, so that padding can always
be removed. -/
def missing (size : ℕ) (data : List UInt8) : ℕ :=
  size - data.length % size

/-- The data with as many bytes behind them as are missing, each of which holds that number. -/
def pad (size : ℕ) (data : List UInt8) : List UInt8 :=
  data ++ List.replicate (missing size data) (UInt8.ofNat (missing size data))

section Padding

variable {size : ℕ}

lemma missing_bounds (hsize : 0 < size) (data : List UInt8) :
    0 < missing size data ∧ missing size data ≤ size := by
  have hlt := Nat.mod_lt data.length hsize
  unfold missing
  omega

lemma length_pad (hsize : 0 < size) (data : List UInt8) :
    (pad size data).length = size * (data.length / size + 1) := by
  have hdiv := Nat.div_add_mod data.length size
  have hlt := Nat.mod_lt data.length hsize
  rw [pad, List.length_append, List.length_replicate, missing, Nat.mul_add]
  omega

lemma pad_ne_nil (hsize : 0 < size) (data : List UInt8) : pad size data ≠ [] := by
  apply List.ne_nil_of_length_pos
  rw [length_pad hsize]
  exact Nat.mul_pos hsize (Nat.succ_pos _)

/-- The number of bytes that fill the last block is the only one that does, between one and a whole
block. -/
lemma missing_eq (hsize : 0 < size) {data : List UInt8} {k : ℕ} (hpos : 0 < k) (hle : k ≤ size)
    (hdvd : size ∣ data.length + k) : missing size data = k := by
  obtain ⟨hmissing, hmissingle⟩ := missing_bounds hsize data
  have hother : size ∣ data.length + missing size data := by
    have hlength := length_pad hsize data
    rw [pad, List.length_append, List.length_replicate] at hlength
    exact ⟨_, hlength⟩
  -- Two such numbers differ by a multiple of the size, and by less than the size.
  rcases Nat.lt_trichotomy (missing size data) k with hlt | heq | hgt
  · have hdifference := Nat.dvd_sub hdvd hother
    have hle := Nat.le_of_dvd (by omega) hdifference
    omega
  · exact heq
  · have hdifference := Nat.dvd_sub hother hdvd
    have hle := Nat.le_of_dvd (by omega) hdifference
    omega

/-- Padded data are data with bytes behind them that hold their number, whichever number that is. -/
theorem eq_pad_iff (hsize : 0 < size) {padded data : List UInt8} (hdvd : size ∣ padded.length) :
    padded = pad size data ↔
      ∃ k, 0 < k ∧ k ≤ size ∧ padded = data ++ List.replicate k (UInt8.ofNat k) := by
  constructor
  · rintro rfl
    obtain ⟨hpos, hle⟩ := missing_bounds hsize data
    exact ⟨missing size data, hpos, hle, rfl⟩
  · rintro ⟨k, hpos, hle, rfl⟩
    rw [List.length_append, List.length_replicate] at hdvd
    rw [pad, missing_eq hsize hpos hle hdvd]

/-- The elements at the end of a list, counted from the last one. A scan from the end reads them in
this order. -/
lemma eq_append_replicate_iff {α : Type*} (padded data : List α) (value default : α) (k : ℕ) :
    padded = data ++ List.replicate k value ↔
      k ≤ padded.length ∧ data = padded.take (padded.length - k) ∧
        ∀ i < k, padded.getD (padded.length - 1 - i) default = value := by
  constructor
  · rintro rfl
    refine ⟨by simp, by simp, ?_⟩
    intro i hi
    rw [List.length_append, List.length_replicate, List.getD_append_right _ _ _ _ (by omega),
      List.getD_replicate _ (by omega)]
  · rintro ⟨hle, rfl, hvalues⟩
    have hdrop : padded.drop (padded.length - k) = List.replicate k value := by
      refine List.ext_getElem (by simp; omega) fun j hj hj' => ?_
      rw [List.length_replicate] at hj'
      have hvalue := hvalues (k - 1 - j) (by omega)
      have hindex : padded.length - 1 - (k - 1 - j) = padded.length - k + j := by omega
      rw [hindex, List.getD_eq_getElem _ _ (by omega)] at hvalue
      rw [List.getElem_drop, List.getElem_replicate, hvalue]
    rw [← hdrop, List.take_append_drop]

end Padding

end BlockChaining
