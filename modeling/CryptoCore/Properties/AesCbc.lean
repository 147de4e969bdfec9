import CryptoCore.Construction.AesCbc

/-!
# Streaming AES-CBC

What a context returns is a function of the concatenation of its chunks. Decryption gives back what
was encrypted, and with padding it accepts the encryptions of messages and nothing else.

A context gives nothing out before `final`, so that it is an instance of `Streaming.Streams`, and
the chunks are dealt with once and for all there. What is left is a statement about one message: the
function `result` of a fresh context. `result_decrypt_encrypt` is the round trip,
`result_encrypt_decrypt` its converse for padded messages, and both are assembled from the inverse
of the chain and the inverse of the padding.

Without padding there is no converse to state: every sequence of whole blocks decrypts. With padding
the ciphertexts that decrypt are the encryptions, and `result_decrypt_error` says that all other
byte strings are refused with one code, so that the code of a refusal does not tell which of the
checks it failed.
-/

namespace CryptoCore

open Aes AesCbc BlockChaining Streaming

/-- The two contexts of a key share its cipher, and start from the same initialization vector. -/
lemma createAesCbcContext_ok {algorithm : CipherAlgorithm} {key iv : List UInt8}
    (hkey : key.length = expectedKeySize algorithm) (hiv : iv.length = 16)
    (padding : CipherPadding) :
    ∃ cipher, ∀ direction, createAesCbcContext { algorithm, direction, key, iv, padding } =
      .ok { cipher, iv := blockOfBytes iv, direction, padding } := by
  have hsize : key.length = 16 ∨ key.length = 24 ∨ key.length = 32 := by
    rw [hkey]
    cases algorithm <;> decide
  obtain ⟨cipher, hcipher⟩ := create_ok hsize
  refine ⟨cipher, fun direction => ?_⟩
  simp only [createAesCbcContext, hkey, hiv, beq_self_eq_true, require_true, ok_bind, hcipher]
  rfl

section RoundTrip

variable (cipher : AesBlockCipher) (iv : Block) (padding : CipherPadding)

/-- A message is given back. Without padding it has to consist of whole blocks. -/
lemma result_decrypt_encrypt {data : List UInt8} (hdata : padding = .pkcs7 ∨ 16 ∣ data.length) :
    ∃ ciphertext,
      result { cipher, iv, direction := .encrypt, padding } data = .ok ciphertext ∧
      result { cipher, iv, direction := .decrypt, padding } ciphertext = .ok data := by
  have hchain := decryptChain_encryptChain cipher.decryptState_encryptState xorBlocks_xorBlocks iv
  cases padding with
  | none =>
      obtain ⟨input, hinput⟩ := exists_ofBlocks (hdata.resolve_left (by simp))
      refine ⟨_, encryptFinal_none rfl hinput, ?_⟩
      rw [result, decryptFinal_none rfl rfl, hchain, ← hinput]
  | pkcs7 =>
      let context : AesCbcContext :=
        { cipher, iv, direction := .encrypt, padding := .pkcs7, buffer := data }
      obtain ⟨input, hinput, hencrypt⟩ := encryptFinal_pkcs7 context rfl
      have hne : input ≠ [] := by
        rintro rfl
        exact pad_ne_nil (by decide) data hinput
      have hchained : encryptChain cipher.encryptState xorBlocks iv input ≠ [] := by
        rw [← List.length_pos_iff, length_encryptChain]
        exact List.length_pos_iff.mpr hne
      refine ⟨_, hencrypt, ?_⟩
      rw [result, decryptFinal_pkcs7 rfl rfl hchained, hchain, ← hinput,
        removePkcs7Padding_eq_ok]
      rw [length_pad (by decide)]
      exact dvd_mul_right _ _

/-- A ciphertext is refused before the decryption, or by the padding check behind it. These are the
only two places where a decryption with padding can fail. -/
lemma result_decrypt_cases (ciphertext : List UInt8) :
    ((ciphertext = [] ∨ ¬16 ∣ ciphertext.length) ∧ ∃ message,
      result { cipher, iv, direction := .decrypt, padding := .pkcs7 } ciphertext =
        .error (cbcError .invalidArgument message)) ∨
    (∃ input, input ≠ [] ∧ ciphertext = ofBlocks input ∧
      result { cipher, iv, direction := .decrypt, padding := .pkcs7 } ciphertext =
        removePkcs7Padding (ofBlocks (decryptChain cipher.decryptState xorBlocks iv input))) := by
  by_cases hrefused : ciphertext = [] ∨ ¬16 ∣ ciphertext.length
  · let context : AesCbcContext :=
      { cipher, iv, direction := .decrypt, padding := .pkcs7, buffer := ciphertext }
    exact .inl ⟨hrefused, decryptFinal_refused context rfl hrefused⟩
  · obtain ⟨hne, hdvd⟩ := not_or.mp hrefused
    obtain ⟨input, rfl⟩ := exists_ofBlocks (not_not.mp hdvd)
    have hinput : input ≠ [] := by
      rintro rfl
      exact hne rfl
    exact .inr ⟨input, hinput, rfl, decryptFinal_pkcs7 rfl rfl hinput⟩

/-- What is decrypted was encrypted. -/
lemma result_encrypt_decrypt {ciphertext data : List UInt8}
    (h : result { cipher, iv, direction := .decrypt, padding := .pkcs7 } ciphertext = .ok data) :
    ciphertext ≠ [] ∧ 16 ∣ ciphertext.length ∧
      result { cipher, iv, direction := .encrypt, padding := .pkcs7 } data = .ok ciphertext := by
  rcases result_decrypt_cases cipher iv ciphertext with
    ⟨-, message, herror⟩ | ⟨input, hinput, rfl, hremove⟩
  · rw [herror] at h
    cases h
  · have hpos := List.length_pos_iff.mpr hinput
    have hlength := length_ofBlocks input
    rw [hremove, removePkcs7Padding_eq_ok (by simp)] at h
    let context : AesCbcContext :=
      { cipher, iv, direction := .encrypt, padding := .pkcs7, buffer := data }
    obtain ⟨padded, hpadded, hencrypt⟩ := encryptFinal_pkcs7 context rfl
    -- The padded message is the decrypted chain, and its chain is the ciphertext.
    have hsame : padded = decryptChain cipher.decryptState xorBlocks iv input :=
      ofBlocks_injective (hpadded.symm.trans h.symm)
    refine ⟨List.ne_nil_of_length_pos (by omega), ⟨_, hlength⟩, ?_⟩
    rw [hsame, encryptChain_decryptChain cipher.encryptState_decryptState xorBlocks_xorBlocks]
      at hencrypt
    exact hencrypt

/-- A refusal has one code, whichever of the two checks it comes from. -/
lemma result_decrypt_error {ciphertext : List UInt8} {e : Error}
    (h : result { cipher, iv, direction := .decrypt, padding := .pkcs7 } ciphertext = .error e) :
    e.code = .invalidArgument := by
  rcases result_decrypt_cases cipher iv ciphertext with
    ⟨-, message, herror⟩ | ⟨input, -, -, hremove⟩
  · rw [herror] at h
    cases h
    rfl
  · rw [hremove] at h
    exact removePkcs7Padding_error h

end RoundTrip

/-- Two contexts of one key, and what they return for a message, whatever the chunks it comes in.
The decryption gives back what was encrypted. With padding it succeeds exactly on whole blocks that
are the encryption of a message, with that message, and fails with one code on everything else.
Behind `final` every call fails. -/
theorem aesCbc_exact {algorithm : CipherAlgorithm} {key iv : List UInt8}
    (hkey : key.length = expectedKeySize algorithm) (hiv : iv.length = 16)
    (padding : CipherPadding) :
    ∃ encryptor decryptor : AesCbcContext,
      createAesCbcContext { algorithm, direction := .encrypt, key, iv, padding } =
        .ok encryptor ∧
      createAesCbcContext { algorithm, direction := .decrypt, key, iv, padding } =
        .ok decryptor ∧
      ∃ encrypted decrypted : List UInt8 → Result ByteBuffer,
        (∀ (chunks : List (List UInt8)) (later : List CipherCall), ∃ closed,
          answers AesCbcContext.call encryptor (chunks.map .update ++ [.final]) =
            (chunks.map (fun _ => .ok []) ++ [encrypted chunks.flatten], closed) ∧
          answers AesCbcContext.call closed later =
            (later.map fun c => .error (cipherFinalizedError c), closed)) ∧
        (∀ (chunks : List (List UInt8)) (later : List CipherCall), ∃ closed,
          answers AesCbcContext.call decryptor (chunks.map .update ++ [.final]) =
            (chunks.map (fun _ => .ok []) ++ [decrypted chunks.flatten], closed) ∧
          answers AesCbcContext.call closed later =
            (later.map fun c => .error (cipherFinalizedError c), closed)) ∧
        (∀ data, padding = .pkcs7 ∨ 16 ∣ data.length →
          ∃ ciphertext, encrypted data = .ok ciphertext ∧ decrypted ciphertext = .ok data) ∧
        (padding = .pkcs7 → ∀ ciphertext,
          (∀ data, decrypted ciphertext = .ok data ↔
            ciphertext ≠ [] ∧ 16 ∣ ciphertext.length ∧ encrypted data = .ok ciphertext) ∧
          ∀ e, decrypted ciphertext = .error e → e.code = .invalidArgument) := by
  obtain ⟨cipher, hcreate⟩ := createAesCbcContext_ok hkey hiv padding
  refine ⟨_, _, hcreate .encrypt, hcreate .decrypt, result _, result _, answers_eq rfl rfl,
    answers_eq rfl rfl, fun data hdata => result_decrypt_encrypt cipher _ padding hdata, ?_⟩
  rintro rfl ciphertext
  refine ⟨fun data => ⟨result_encrypt_decrypt cipher _, ?_⟩,
    fun e h => result_decrypt_error cipher _ h⟩
  rintro ⟨-, -, hencrypted⟩
  obtain ⟨other, hother, hdecrypted⟩ := result_decrypt_encrypt cipher (blockOfBytes iv) .pkcs7
    (.inl rfl)
  rw [hencrypted, Except.ok.injEq] at hother
  exact hother ▸ hdecrypted

/-- The key of zeros with padding, for all chunks. -/
theorem aesCbc_exact_zeroKey : ∃ encryptor decryptor : AesCbcContext,
    createAesCbcContext
      ⟨.aes128Cbc, .encrypt, List.replicate 16 0, List.replicate 16 0, .pkcs7⟩ = .ok encryptor ∧
    createAesCbcContext
      ⟨.aes128Cbc, .decrypt, List.replicate 16 0, List.replicate 16 0, .pkcs7⟩ = .ok decryptor ∧
    ∃ encrypted decrypted : List UInt8 → Result ByteBuffer,
      (∀ (chunks : List (List UInt8)) (later : List CipherCall), ∃ closed,
        answers AesCbcContext.call encryptor (chunks.map .update ++ [.final]) =
          (chunks.map (fun _ => .ok []) ++ [encrypted chunks.flatten], closed) ∧
        answers AesCbcContext.call closed later =
          (later.map fun c => .error (cipherFinalizedError c), closed)) ∧
      (∀ (chunks : List (List UInt8)) (later : List CipherCall), ∃ closed,
        answers AesCbcContext.call decryptor (chunks.map .update ++ [.final]) =
          (chunks.map (fun _ => .ok []) ++ [decrypted chunks.flatten], closed) ∧
        answers AesCbcContext.call closed later =
          (later.map fun c => .error (cipherFinalizedError c), closed)) ∧
      (∀ data, CipherPadding.pkcs7 = .pkcs7 ∨ 16 ∣ data.length →
        ∃ ciphertext, encrypted data = .ok ciphertext ∧ decrypted ciphertext = .ok data) ∧
      (CipherPadding.pkcs7 = .pkcs7 → ∀ ciphertext,
        (∀ data, decrypted ciphertext = .ok data ↔
          ciphertext ≠ [] ∧ 16 ∣ ciphertext.length ∧ encrypted data = .ok ciphertext) ∧
        ∀ e, decrypted ciphertext = .error e → e.code = .invalidArgument) :=
  aesCbc_exact (by decide) (by decide) .pkcs7

end CryptoCore
