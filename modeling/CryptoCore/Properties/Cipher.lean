import CryptoCore.Construction.Provider
import CryptoCore.Properties.AesCbc

/-!
# The one-shot cipher

Encryption and decryption with the same parameters are inverse to each other as relations: a
ciphertext is what a message is encrypted to exactly when the message is what the ciphertext is
decrypted to, whichever the padding is. What the one-shot cipher returns is what a context ends
with, in whatever chunks the input comes.

So the ciphertexts that decrypt are the ones that are written, and each of them has one message.
That is more than a round trip: with padding it says that the check of the padding accepts nothing
that the encryption does not produce, and without padding that the two directions are a bijection on
sequences of whole blocks.

The statement is for keys and initialization vectors of any size. When their sizes are wrong no
context is created and both sides fail, so that the equivalence still holds; the theorem gives the
sizes and the messages for which an encryption succeeds, and how much it writes.
-/

namespace CryptoCore

open Aes AesCbc BlockChaining Streaming

namespace AesCbc

/-- The messages that a padding mode can encrypt: all of them, or those of whole blocks. -/
def Encryptable (padding : CipherPadding) (message : List UInt8) : Prop :=
  padding = .pkcs7 ∨ 16 ∣ message.length

/-- How much is written for a message. Padding always adds something, a whole block to whole blocks.
-/
def encryptedSize (padding : CipherPadding) (size : ℕ) : ℕ :=
  match padding with
  | .none => size
  | .pkcs7 => 16 * (size / 16 + 1)

section Result

variable (cipher : AesBlockCipher) (iv : Block) (padding : CipherPadding)
  {message ciphertext : List UInt8}

lemma encryptable_of_result
    (h : result { cipher, iv, direction := .encrypt, padding } message = .ok ciphertext) :
    Encryptable padding message := by
  cases padding with
  | pkcs7 => exact .inl rfl
  | none =>
      right
      by_contra hpartial
      have haligned : ¬ message.length % 16 = 0 := mt Nat.dvd_of_mod_eq_zero hpartial
      rw [result, AesCbcContext.encryptFinal, AesCbcContext.paddedInput] at h
      dsimp only at h
      rw [if_neg haligned, error_bind] at h
      cases h

/-- Without padding, what is decrypted are whole blocks. -/
lemma result_encrypt_of_decrypt_none
    (h : result { cipher, iv, direction := .decrypt, padding := .none } ciphertext =
      .ok message) :
    result { cipher, iv, direction := .encrypt, padding := .none } message =
      .ok ciphertext := by
  have haligned : 16 ∣ ciphertext.length := by
    obtain ⟨-, hbody⟩ := require_bind_eq_ok.mp h
    obtain ⟨haligned, -⟩ := require_bind_eq_ok.mp hbody
    exact Nat.dvd_of_mod_eq_zero (beq_iff_eq.mp haligned)
  obtain ⟨input, rfl⟩ := exists_ofBlocks haligned
  rw [result, decryptFinal_none rfl rfl, Except.ok.injEq] at h
  rw [result, encryptFinal_none rfl h.symm,
    encryptChain_decryptChain cipher.encryptState_decryptState xorBlocks_xorBlocks]

/-- The two directions are inverse to each other, for either padding. -/
lemma result_encrypt_iff_decrypt :
    result { cipher, iv, direction := .encrypt, padding } message = .ok ciphertext ↔
      result { cipher, iv, direction := .decrypt, padding } ciphertext = .ok message := by
  constructor
  · intro h
    obtain ⟨other, hother, hdecrypt⟩ := result_decrypt_encrypt cipher iv padding
      (encryptable_of_result cipher iv padding h)
    rw [h, Except.ok.injEq] at hother
    rw [hother]
    exact hdecrypt
  · intro h
    cases padding with
    | none => exact result_encrypt_of_decrypt_none cipher iv h
    | pkcs7 => exact (result_encrypt_decrypt cipher iv h).2.2

lemma length_result_encrypt
    (h : result { cipher, iv, direction := .encrypt, padding } message = .ok ciphertext) :
    ciphertext.length = encryptedSize padding message.length := by
  cases padding with
  | none =>
      obtain hnone | haligned := encryptable_of_result cipher iv .none h
      · cases hnone
      · obtain ⟨input, rfl⟩ := exists_ofBlocks haligned
        rw [result, encryptFinal_none rfl rfl, Except.ok.injEq] at h
        rw [← h, length_ofBlocks, length_encryptChain, encryptedSize, length_ofBlocks]
  | pkcs7 =>
      let context : AesCbcContext :=
        { cipher, iv, direction := .encrypt, padding := .pkcs7, buffer := message }
      obtain ⟨input, hinput, hencrypt⟩ := encryptFinal_pkcs7 context rfl
      have hlength := congrArg List.length hinput
      rw [length_pad (by decide), length_ofBlocks] at hlength
      cases h.symm.trans hencrypt
      rw [length_ofBlocks, length_encryptChain, encryptedSize]
      exact hlength.symm

end Result

/-! ## Contexts -/

variable {params : CipherParams} {context : AesCbcContext} {message : List UInt8}

lemma createAesCbcContext_sizes (h : createAesCbcContext params = .ok context) :
    params.key.length = expectedKeySize params.algorithm ∧ params.iv.length = 16 := by
  obtain ⟨hkey, h⟩ := require_bind_eq_ok.mp h
  obtain ⟨hiv, -⟩ := require_bind_eq_ok.mp h
  exact ⟨beq_iff_eq.mp hkey, beq_iff_eq.mp hiv⟩

lemma createAesCbcContext_fresh (h : createAesCbcContext params = .ok context) :
    context.finalized = false ∧ context.buffer = [] := by
  obtain ⟨-, h⟩ := require_bind_eq_ok.mp h
  obtain ⟨-, h⟩ := require_bind_eq_ok.mp h
  obtain ⟨_, -, h⟩ := Loops.bind_eq_ok.mp h
  cases h
  exact ⟨rfl, rfl⟩

/-- The one-shot cipher is one `update` with the whole input and one `final`. -/
lemma cipher_eq_result (h : createAesCbcContext params = .ok context) (input : List UInt8) :
    cipher params input = result context input := by
  obtain ⟨hopen, hempty⟩ := createAesCbcContext_fresh h
  have hstreams := streams hopen
  have hstart : context = { context with buffer := [] } := by rw [← hempty]
  obtain ⟨updated, hcall, hafter⟩ := hstreams.extend input hstart
  obtain ⟨closed, hlast, -⟩ := hstreams.finish hafter
  have hupdate : context.update input = (.ok [], updated) := hcall
  have hfinal : updated.final = (result context input, closed) := hlast
  rw [cipher, NativeProvider.createCipher, h, ok_bind, hupdate]
  dsimp only
  rw [ok_bind, hfinal]
  cases result context input <;> rfl

end AesCbc

/-- The one-shot cipher, for every key and initialization vector of any size: the directions are
inverse to each other, encryption succeeds exactly on the sizes that fit and writes whole blocks,
and every context of the parameters ends with the same result, whatever the chunks are. -/
theorem cipher_exact (algorithm : CipherAlgorithm) (key iv : List UInt8)
    (padding : CipherPadding) :
    (∀ message ciphertext,
      cipher ⟨algorithm, .encrypt, key, iv, padding⟩ message = .ok ciphertext ↔
        cipher ⟨algorithm, .decrypt, key, iv, padding⟩ ciphertext = .ok message) ∧
    (∀ message, (∃ ciphertext,
        cipher ⟨algorithm, .encrypt, key, iv, padding⟩ message = .ok ciphertext) ↔
      (key.length = expectedKeySize algorithm ∧ iv.length = 16) ∧
        Encryptable padding message) ∧
    (∀ message ciphertext,
      cipher ⟨algorithm, .encrypt, key, iv, padding⟩ message = .ok ciphertext →
        ciphertext.length = encryptedSize padding message.length) ∧
    ∀ direction context,
      createAesCbcContext ⟨algorithm, direction, key, iv, padding⟩ = .ok context →
        ∀ chunks : List (List UInt8),
          (answers AesCbcContext.call context (chunks.map .update ++ [.final])).1 =
            chunks.map (fun _ => .ok []) ++
              [cipher ⟨algorithm, direction, key, iv, padding⟩ chunks.flatten] := by
  have hstream : ∀ direction context,
      createAesCbcContext ⟨algorithm, direction, key, iv, padding⟩ = .ok context →
        ∀ chunks : List (List UInt8),
          (answers AesCbcContext.call context (chunks.map .update ++ [.final])).1 =
            chunks.map (fun _ => .ok []) ++
              [cipher ⟨algorithm, direction, key, iv, padding⟩ chunks.flatten] := by
    intro direction context h chunks
    obtain ⟨hopen, hempty⟩ := createAesCbcContext_fresh h
    obtain ⟨closed, hanswers, -⟩ := answers_eq hopen hempty chunks []
    rw [hanswers, cipher_eq_result h]
  by_cases hsizes : key.length = expectedKeySize algorithm ∧ iv.length = 16
  · obtain ⟨block, hcreate⟩ := createAesCbcContext_ok hsizes.1 hsizes.2 padding
    refine ⟨fun message ciphertext => ?_, fun message => ?_, fun message ciphertext h => ?_,
      hstream⟩
    · rw [cipher_eq_result (hcreate _), cipher_eq_result (hcreate _)]
      exact result_encrypt_iff_decrypt _ _ _
    · rw [and_iff_right hsizes, cipher_eq_result (hcreate _)]
      constructor
      · rintro ⟨ciphertext, h⟩
        exact encryptable_of_result _ _ _ h
      · intro h
        obtain ⟨ciphertext, hencrypt, -⟩ := result_decrypt_encrypt block _ padding h
        exact ⟨ciphertext, hencrypt⟩
    · rw [cipher_eq_result (hcreate _)] at h
      exact length_result_encrypt _ _ _ h
  · -- no context is created
    have hfails : ∀ direction input output,
        cipher ⟨algorithm, direction, key, iv, padding⟩ input ≠ .ok output := by
      intro direction input output h
      obtain ⟨context, hcreate, -⟩ := Loops.bind_eq_ok.mp h
      exact hsizes (createAesCbcContext_sizes hcreate)
    refine ⟨fun message ciphertext => ?_, fun message => ?_, fun message ciphertext h => ?_,
      hstream⟩
    · exact iff_of_false (hfails _ _ _) (hfails _ _ _)
    · exact iff_of_false (fun ⟨_, h⟩ => hfails _ _ _ h) fun h => hsizes h.1
    · exact absurd h (hfails _ _ _)

end CryptoCore
