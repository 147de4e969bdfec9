import CryptoCore.Framework.CheckedAccess
import CryptoCore.Construction.RsaPss

/-!
# The RSA-PSS encoding and its check

The check accepts the image of the encoder and nothing else. Stated a second time with every access
to a buffer checked, it stays inside its buffers exactly when the size of the hash and the salt
length do not overflow a 64-bit size, or overflow it to something that is longer than the encoded
message.

Both functions compute the size of the encoded message from a number of bits in a 64-bit size, which
wraps around for the seven largest numbers. There the encoder has room for nothing, and the check
meets a size of zero; the first two lemmas say so, and the theorem is for every number of bits.

The checked version wraps all of its sizes. What it compares with the size of the message is
`requiredSize`, and when that has wrapped to something small, the loop over the padding has a length
of almost `2 ^ 64`: `emsaPssVerifyChecked_fault` finds the access that is outside, and
`emsaPssVerifyChecked_of_excess` is the other case, where the wrapped size is still too long and the
message is refused. `emsaPssVerifyChecked_refines` ties the checked version to the plain one for all
sizes.
-/

namespace CryptoCore

open ByteStrings EmsaPss RsaPss CheckedAccess

/-! ## What is accepted -/

section Accepted

variable {encodedBits : UInt64} {messageHash salt encodedMessage : List UInt8}
  {params : RsaPssParams}

/-- The encoder succeeds on a salt of the length of the parameters that fits, with its encoding. A
number of bits that cannot be rounded up has room for no salt at all. -/
lemma emsaPssEncode_eq_ok_iff (hhash : messageHash.length = digestSize params.messageHash) :
    emsaPssEncode encodedBits messageHash salt params = .ok encodedMessage ↔
      encodedBits.toNat + 7 < 2 ^ 64 ∧ salt.length = params.saltLength.toNat ∧
        digestSize params.messageHash + salt.length + 2 ≤ encodedSize encodedBits.toNat ∧
        encodeWith params encodedBits.toNat messageHash salt = encodedMessage := by
  by_cases hbits : encodedBits.toNat + 7 < 2 ^ 64
  · rw [emsaPssEncode_eq_sized hbits, and_iff_right hbits]
    by_cases hsalt : salt.length = params.saltLength.toNat
    · rw [emsaPssEncodeSized_eq hhash hsalt]
      by_cases hfits : digestSize params.messageHash + salt.length + 2 ≤
          encodedSize encodedBits.toNat
      · rw [if_pos hfits]
        exact ⟨fun h => ⟨hsalt, hfits, Except.ok.inj h⟩, fun h => congrArg Except.ok h.2.2⟩
      · rw [if_neg hfits]
        exact ⟨nofun, fun h => absurd h.2.1 hfits⟩
    · constructor
      · intro h
        rw [emsaPssEncodeSized] at h
        simp only [checkHashes_eq hhash, ok_bind] at h
        exact absurd (beq_iff_eq.mp (require_bind_eq_ok.mp h).1) hsalt
      · intro h
        exact absurd h.1 hsalt
  · exact iff_of_false (emsaPssEncode_wraps hhash hbits encodedMessage) fun h => hbits h.1

/-- The check accepts the messages of the rounded size that verify. Where the number of bits cannot
be rounded up, only the empty message has that size, and it is too short. -/
lemma emsaPssVerify_eq_true_iff (hhash : messageHash.length = digestSize params.messageHash)
    (hsum : digestSize params.messageHash + params.saltLength.toNat + 2 < 2 ^ 64) :
    emsaPssVerify encodedMessage encodedBits messageHash params = .ok true ↔
      encodedBits.toNat + 7 < 2 ^ 64 ∧ encodedMessage.length = encodedSize encodedBits.toNat ∧
        VerifiesWith params encodedBits.toNat messageHash encodedMessage := by
  by_cases hlength : encodedMessage.length = ((encodedBits + 7) / 8).toNat
  · by_cases hbits : encodedBits.toNat + 7 < 2 ^ 64
    · have hsize := hlength.trans (roundedSize_eq hbits).1
      have hlt := encodedBits.toNat_lt
      rw [emsaPssVerify_eq_sized hbits hsize, emsaPssVerifySized_eq hhash hsize
        (by unfold encodedSize at hsize; omega) hsum, Except.ok.injEq, decide_eq_true_iff,
        and_iff_right hbits, and_iff_right hsize]
    · have hempty := hlength.trans (roundedSize_wraps hbits)
      have hshort := (sizes_eq (show encodedMessage.length < 2 ^ 64 by omega) hsum).1.mpr
        (by omega)
      have hguard : (encodedMessage.length == 0) = true := beq_iff_eq.mpr hempty
      refine iff_of_false ?_ fun h => hbits h.1
      rw [emsaPssVerify, roundedSize_wraps hbits, emsaPssVerifySized]
      simp only [checkHashes_eq hhash, ok_bind, hguard, require_true, if_pos hshort]
      intro h
      cases h
  · rw [emsaPssVerify_of_length_ne hhash hlength]
    refine iff_of_false (fun h => ?_) ?_
    · cases h
    rintro ⟨hbits, hsize, -⟩
    exact hlength (hsize.trans (roundedSize_eq hbits).1.symm)

end Accepted

/-- The check accepts exactly what the encoder returns for a salt of the given length, for every
number of bits that the type holds and every byte string. What the encoder returns has as many bits
as it should, is accepted, and determines its salt. -/
theorem emsaPssVerify_exact (encodedBits : UInt64) (messageHash : List UInt8)
    (params : RsaPssParams) (hhash : messageHash.length = digestSize params.messageHash)
    (hsum : digestSize params.messageHash + params.saltLength.toNat + 2 < 2 ^ 64) :
    (∀ encodedMessage : List UInt8,
      emsaPssVerify encodedMessage encodedBits messageHash params = .ok true ↔
        ∃ salt : List UInt8, salt.length = params.saltLength.toNat ∧
          emsaPssEncode encodedBits messageHash salt params = .ok encodedMessage) ∧
    (∀ salt encodedMessage : List UInt8,
      emsaPssEncode encodedBits messageHash salt params = .ok encodedMessage →
        encodedMessage.length = (encodedBits.toNat + 7) / 8 ∧
        emsaPssVerify encodedMessage encodedBits messageHash params = .ok true ∧
        beValue encodedMessage < 2 ^ encodedBits.toNat) ∧
    (∀ salt salt' encodedMessage : List UInt8,
      emsaPssEncode encodedBits messageHash salt params = .ok encodedMessage →
      emsaPssEncode encodedBits messageHash salt' params = .ok encodedMessage →
        salt = salt') := by
  have hdigest := length_digestOf params.messageHash
  have hmask := length_maskOf params.mgf1Hash
  have hverify : ∀ encodedMessage : List UInt8,
      emsaPssVerify encodedMessage encodedBits messageHash params = .ok true ↔ _ :=
    fun _ => emsaPssVerify_eq_true_iff hhash hsum
  -- An encoding passes every check of the verifier, read with its own salt.
  have haccepts : ∀ salt encodedMessage : List UInt8,
      emsaPssEncode encodedBits messageHash salt params = .ok encodedMessage →
        emsaPssVerify encodedMessage encodedBits messageHash params = .ok true := by
    intro salt encodedMessage hencode
    obtain ⟨hbits, hsalt, hfits, rfl⟩ := (emsaPssEncode_eq_ok_iff hhash).mp hencode
    refine (hverify _).mpr ⟨hbits, length_encode hdigest hmask messageHash hfits, ?_⟩
    rw [VerifiesWith, ← hsalt]
    exact verifies_encode hdigest hmask messageHash hfits
  refine ⟨?_, ?_, ?_⟩
  · intro encodedMessage
    constructor
    · intro h
      obtain ⟨hbits, hlength, h⟩ := (hverify encodedMessage).mp h
      obtain ⟨salt, hsalt, hencode⟩ := h.eq_encode hmask messageHash hlength
      have hfits := h.long_enough
      rw [← hsalt] at hfits
      exact ⟨salt, hsalt,
        (emsaPssEncode_eq_ok_iff hhash).mpr ⟨hbits, hsalt, hfits, hencode.symm⟩⟩
    · rintro ⟨salt, -, hencode⟩
      exact haccepts salt encodedMessage hencode
  · intro salt encodedMessage hencode
    have haccepted := haccepts salt encodedMessage hencode
    refine ⟨((hverify encodedMessage).mp haccepted).2.1, haccepted, ?_⟩
    obtain ⟨-, -, hfits, rfl⟩ := (emsaPssEncode_eq_ok_iff hhash).mp hencode
    exact beValue_encode_lt hdigest hmask messageHash hfits
  · intro salt salt' encodedMessage hencode hencode'
    obtain ⟨-, hsalt, hfits, rfl⟩ := (emsaPssEncode_eq_ok_iff hhash).mp hencode
    obtain ⟨-, hsalt', -, heq⟩ := (emsaPssEncode_eq_ok_iff hhash).mp hencode'
    exact encode_inj hdigest hmask messageHash (hsalt'.trans hsalt.symm) hfits heq.symm

/-- A hash and a salt of zeros, encoded with the default parameters. -/
theorem emsaPssVerify_exact_zero :
    ∃ encodedMessage : List UInt8,
      emsaPssEncode 528 (List.replicate 32 0) (List.replicate 32 0) {} = .ok encodedMessage ∧
      encodedMessage.length = 66 ∧
      emsaPssVerify encodedMessage 528 (List.replicate 32 0) {} = .ok true := by
  have hhash : (List.replicate 32 (0 : UInt8)).length =
      digestSize ({} : RsaPssParams).messageHash := rfl
  have hencode : emsaPssEncode 528 (List.replicate 32 0) (List.replicate 32 0) {} =
      .ok (encodeWith {} 528 (List.replicate 32 0) (List.replicate 32 0)) :=
    (emsaPssEncode_eq_ok_iff hhash).mpr ⟨by decide, by decide, by decide, rfl⟩
  obtain ⟨hlength, hverify, -⟩ := (emsaPssVerify_exact 528 (List.replicate 32 0) {} hhash
    (by decide)).2.1 _ _ hencode
  exact ⟨_, hencode, hlength, hverify⟩

/-! ## The check with checked accesses -/

namespace RsaPss

/-- The rest of a function that returns the error it meets, in the order in which the source checks.
-/
def onValue {α β : Type} (result : Result α) (k : α → Checked (Result β)) : Checked (Result β) :=
  match result with
  | .ok value => k value
  | .error e => .ok (.error e)

@[simp] lemma onValue_ok {α β : Type} (a : α) (k : α → Checked (Result β)) :
    onValue (.ok a) k = k a := rfl

/-- The size that the check compares with that of the message. It wraps around silently. -/
def requiredSize (params : RsaPssParams) : UInt64 :=
  UInt64.ofNat (digestSize params.messageHash) + params.saltLength + 2

/-- The size of the masked data block, computed as the source computes it. -/
def maskedDbSize (encodedMessage : List UInt8) (params : RsaPssParams) : UInt64 :=
  UInt64.ofNat encodedMessage.length - UInt64.ofNat (digestSize params.messageHash) - 1

/-- The number of zeros in front of the one. It is a size near `2 ^ 64` when the salt is too long.
-/
def paddingSizeOf (encodedMessage : List UInt8) (params : RsaPssParams) : UInt64 :=
  UInt64.ofNat encodedMessage.length - UInt64.ofNat (digestSize params.messageHash) -
    params.saltLength - 2

/-- The check of the unused bits, which reads the first byte of the data block only when there are
any. -/
def checkUnusedChecked (unusedBits : UInt64) (maskedDb : List UInt8) (validMask : UInt8) :
    Checked UInt8 :=
  if unusedBits > 0 then do
    let first ← read maskedDb 0
    return validMask &&& constantTimeIsZero
      (first &&& (0xFF <<< UInt8.ofNat (8 - unusedBits).toNat))
  else .ok validMask

/-- The loop that takes the mask off, with both reads and the write checked. -/
def unmaskChecked (maskedDb dbMask : List UInt8) (size : ℕ) : Checked (List UInt8) :=
  Loops.loopUpM (fun i db => (do
    let masked ← read maskedDb i
    let mask ← read dbMask i
    return masked ^^^ mask) >>= fun byte => write db i byte) size (List.replicate size 0)

/-- Clears the unused bits of the first byte, when there are any. -/
def clearUnusedChecked (unusedBits : UInt64) (db : List UInt8) : Checked (List UInt8) :=
  if unusedBits > 0 then do
    let first ← read db 0
    write db 0 (first &&& (0xFF >>> UInt8.ofNat unusedBits.toNat))
  else .ok db

/-- The loop over the padding. Its length is the size that may have wrapped. -/
def paddingDiffChecked (db : List UInt8) (size : ℕ) : Checked UInt8 :=
  Loops.loopUpM (fun i diff => do
    let byte ← read db i
    return diff ||| byte) size 0

end RsaPss

/-- The check, with every access to a buffer checked and every size that of the code. -/
def emsaPssVerifyChecked (encodedMessage : List UInt8) (encodedBits : UInt64)
    (messageHash : List UInt8) (params : RsaPssParams) : Checked (Result Bool) :=
  let size := UInt64.ofNat encodedMessage.length
  let hashSize := UInt64.ofNat (digestSize params.messageHash)
  onValue (checkHashes messageHash params) fun _ =>
  onValue (require (size == (encodedBits + 7) / 8)
    (pssError .invalidArgument "encoded message size does not match encoded bit count")) fun _ =>
  if size < requiredSize params then .ok (.ok false)
  else do
    let last ← read encodedMessage (size - 1).toNat
    let validMask := constantTimeIsZero (last ^^^ 0xBC)
    let maskedDbSize := (maskedDbSize encodedMessage params).toNat
    let maskedDb ← slice encodedMessage 0 maskedDbSize
    let hash ← slice encodedMessage maskedDbSize hashSize.toNat
    let unusedBits := 8 * size - encodedBits
    let validMask ← checkUnusedChecked unusedBits maskedDb validMask
    onValue (mgf1 params.mgf1Hash hash maskedDbSize) fun dbMask => do
      let db ← unmaskChecked maskedDb dbMask maskedDbSize
      let db ← clearUnusedChecked unusedBits db
      let paddingSize := (paddingSizeOf encodedMessage params).toNat
      let paddingDiff ← paddingDiffChecked db paddingSize
      let validMask := validMask &&& constantTimeIsZero paddingDiff
      let separator ← read db paddingSize
      let validMask := validMask &&& constantTimeIsZero (separator ^^^ 0x01)
      let salt ← slice db (paddingSize + 1) params.saltLength.toNat
      onValue (pssHash params.messageHash messageHash salt) fun expectedHash =>
        let validMask := validMask &&& constantTimeBoolMask (constantTimeEqual hash expectedHash)
        .ok (.ok (validMask == 0xFF))

namespace RsaPss

lemma unmaskChecked_eq {maskedDb dbMask : List UInt8} {size : ℕ}
    (hmasked : maskedDb.length = size)
    (hmask : dbMask.length = size) :
    unmaskChecked maskedDb dbMask size = .ok (List.zipWith (· ^^^ ·) maskedDb dbMask) := by
  have hbyte : ∀ i < size, (do
      let masked ← read maskedDb i
      let mask ← read dbMask i
      return masked ^^^ mask) = .ok (maskedDb.getD i 0 ^^^ dbMask.getD i 0) := by
    intro i hi
    rw [read_eq (by omega) 0, checked_bind, read_eq (by omega) 0, checked_bind]
    rfl
  rw [unmaskChecked, fill_eq _ (fun i => maskedDb.getD i 0 ^^^ dbMask.getD i 0) hbyte]
  refine congrArg Except.ok (List.ext_getElem ?_ fun i h h' => ?_)
  · simp [hmasked, hmask]
  · rw [List.length_map, List.length_range] at h
    have hmasked' : i < maskedDb.length := by omega
    have hmask' : i < dbMask.length := by omega
    rw [List.getElem_map, List.getElem_range, List.getElem_zipWith,
      List.getD_eq_getElem _ _ hmasked', List.getD_eq_getElem _ _ hmask']

lemma paddingDiffChecked_eq {db : List UInt8} {size : ℕ} (h : size ≤ db.length) :
    paddingDiffChecked db size = .ok ((db.take size).foldl (· ||| ·) 0) :=
  fold_eq (· ||| ·) db h 0

lemma paddingDiffChecked_fault {db : List UInt8} {size : ℕ} (h : db.length < size) :
    paddingDiffChecked db size = .error .outOfBounds :=
  fold_fault (· ||| ·) db h 0

lemma read_zero {bytes : List UInt8} (h : 0 < bytes.length) :
    read bytes 0 = .ok (bytes.headD 0) := by
  rw [read_eq h 0]
  cases bytes <;> rfl

lemma checkUnusedChecked_eq {unusedBits : UInt64} {maskedDb : List UInt8}
    (hunused : unusedBits.toNat < 8) (hdb : 0 < maskedDb.length) (validMask : UInt8) :
    checkUnusedChecked unusedBits maskedDb validMask = .ok (if unusedBits.toNat > 0 then
        validMask &&& constantTimeIsZero
          (maskedDb.headD 0 &&& (0xFF <<< UInt8.ofNat (8 - unusedBits.toNat)))
      else validMask) := by
  have hpos : unusedBits > 0 ↔ unusedBits.toNat > 0 := UInt64.lt_iff_toNat_lt
  have hshift : (8 - unusedBits).toNat = 8 - unusedBits.toNat :=
    UInt64.toNat_sub_of_le _ _ (UInt64.le_iff_toNat_le.mpr hunused.le)
  rw [checkUnusedChecked]
  by_cases h : unusedBits > 0
  · rw [if_pos h, if_pos (hpos.mp h), read_zero hdb, checked_bind, hshift]
    rfl
  · rw [if_neg h, if_neg (mt hpos.mpr h)]

lemma clearUnusedChecked_eq (unusedBits : UInt64) {db : List UInt8} (hdb : 0 < db.length) :
    clearUnusedChecked unusedBits db = .ok (if unusedBits.toNat > 0 then
        db.set 0 (db.headD 0 &&& (0xFF >>> UInt8.ofNat unusedBits.toNat))
      else db) := by
  have hpos : unusedBits > 0 ↔ unusedBits.toNat > 0 := UInt64.lt_iff_toNat_lt
  rw [clearUnusedChecked]
  by_cases h : unusedBits > 0
  · rw [if_pos h, if_pos (hpos.mp h), read_zero hdb, checked_bind, write_eq hdb]
  · rw [if_neg h, if_neg (mt hpos.mpr h)]

lemma checkUnusedChecked_cases (unusedBits : UInt64) (maskedDb : List UInt8) (validMask : UInt8) :
    checkUnusedChecked unusedBits maskedDb validMask = .error .outOfBounds ∨
      ∃ mask, checkUnusedChecked unusedBits maskedDb validMask = .ok mask := by
  rw [checkUnusedChecked]
  split
  · cases maskedDb with
    | nil => exact .inl rfl
    | cons first rest => exact .inr ⟨_, rfl⟩
  · exact .inr ⟨_, rfl⟩

lemma clearUnusedChecked_cases (unusedBits : UInt64) (db : List UInt8) :
    clearUnusedChecked unusedBits db = .error .outOfBounds ∨
      ∃ db', clearUnusedChecked unusedBits db = .ok db' ∧ db'.length = db.length := by
  rw [clearUnusedChecked]
  split
  · cases db with
    | nil => exact .inl rfl
    | cons first rest => exact .inr ⟨_, rfl, List.length_set⟩
  · exact .inr ⟨_, rfl, rfl⟩

section Sizes

variable {encodedBits : UInt64} {messageHash encodedMessage : List UInt8} {params : RsaPssParams}

/-- The sizes of a message of the right length. -/
lemma encodedSize_eq (hlength : encodedMessage.length = (encodedBits.toNat + 7) / 8)
    (hbits : encodedBits.toNat + 7 < 2 ^ 64) :
    UInt64.ofNat encodedMessage.length = (encodedBits + 7) / 8 ∧
      (8 * UInt64.ofNat encodedMessage.length - encodedBits).toNat =
        8 * encodedMessage.length - encodedBits.toNat := by
  obtain ⟨hsize, hunused⟩ := roundedSize_eq hbits
  have hword : UInt64.ofNat encodedMessage.length = (encodedBits + 7) / 8 := by
    rw [hlength, ← encodedSize, ← hsize, UInt64.ofNat_toNat]
  refine ⟨hword, ?_⟩
  rw [hword, hunused, hlength]
  rfl

/-- The index of the last byte. In an empty message it wraps to the top of the type. -/
lemma lastIndex_eq (hmemory : encodedMessage.length < 2 ^ 64) (hpos : 0 < encodedMessage.length) :
    (UInt64.ofNat encodedMessage.length - 1).toNat = encodedMessage.length - 1 := by
  have hsize : (UInt64.ofNat encodedMessage.length).toNat = encodedMessage.length := by
    rw [UInt64.toNat_ofNat']
    exact Nat.mod_eq_of_lt hmemory
  have hone : (1 : UInt64).toNat = 1 := rfl
  rw [UInt64.toNat_sub_of_le _ _ (by rwa [UInt64.le_iff_toNat_le, hsize, hone]), hsize, hone]

lemma lastIndex_of_empty (hempty : encodedMessage.length = 0) :
    (UInt64.ofNat encodedMessage.length - 1).toNat = 2 ^ 64 - 1 := by
  rw [hempty]
  rfl

/-- Taking the mask off keeps the size of the data block, and so does clearing its first bits. -/
lemma length_unmasked {maskedDb : List UInt8} {size : ℕ} (h : maskedDb.length = size)
    (hashAlgorithm : HashAlgorithm) (seed : List UInt8) :
    (List.zipWith (· ^^^ ·) maskedDb (maskOf hashAlgorithm seed size)).length = size := by
  rw [List.length_zipWith, h, length_maskOf, Nat.min_self]

lemma length_cleared (unused : ℕ) (mask : UInt8) (db : List UInt8) :
    (if unused > 0 then db.set 0 (db.headD 0 &&& mask) else db).length = db.length := by
  split
  · exact List.length_set
  · rfl

/-- Without overflow the check stays inside its buffers, and returns what the plain check returns.
-/
theorem emsaPssVerifyChecked_eq (hhash : messageHash.length = digestSize params.messageHash)
    (hlength : encodedMessage.length = (encodedBits.toNat + 7) / 8)
    (hbits : encodedBits.toNat + 7 < 2 ^ 64)
    (hsum : digestSize params.messageHash + params.saltLength.toNat + 2 < 2 ^ 64) :
    emsaPssVerifyChecked encodedMessage encodedBits messageHash params =
      .ok (emsaPssVerify encodedMessage encodedBits messageHash params) := by
  obtain ⟨hlt, hsub, hhashSize⟩ := sizes_eq (show encodedMessage.length < 2 ^ 64 by omega) hsum
  obtain ⟨hsize, hunused⟩ := encodedSize_eq hlength hbits
  have hguard : (UInt64.ofNat encodedMessage.length == (encodedBits + 7) / 8) = true :=
    beq_iff_eq.mpr hsize
  have hguard' : (encodedMessage.length == ((encodedBits + 7) / 8).toNat) = true :=
    beq_iff_eq.mpr (hlength.trans (roundedSize_eq hbits).1.symm)
  rw [emsaPssVerifyChecked, emsaPssVerify, emsaPssVerifySized, requiredSize, maskedDbSize,
    paddingSizeOf]
  simp only [checkHashes_eq hhash, hguard, hguard', require_true, onValue_ok, ok_bind]
  by_cases hshort : encodedMessage.length <
      digestSize params.messageHash + params.saltLength.toNat + 2
  · rw [if_pos (hlt.mpr hshort), if_pos (hlt.mpr hshort)]
    rfl
  · rw [if_neg (mt hlt.mp hshort), if_neg (mt hlt.mp hshort)]
    have hle := Nat.le_of_not_lt hshort
    obtain ⟨hmaskedSize, hpaddingSize⟩ := hsub hle
    -- The guard has left at least two bytes, so the index of the trailer does not wrap.
    have hlast := lastIndex_eq (show encodedMessage.length < 2 ^ 64 by omega) (by omega)
    have hback : read encodedMessage (encodedMessage.length - 1) =
        .ok (encodedMessage.getLastD 0) := by
      rw [read_eq (by omega) 0, List.getD_eq_getElem?_getD, List.getLastD_eq_getLast?,
        List.getLast?_eq_getElem?]
    have hmaskedLength : (encodedMessage.take
        (encodedMessage.length - digestSize params.messageHash - 1)).length =
          encodedMessage.length - digestSize params.messageHash - 1 :=
      List.length_take_of_le (by omega)
    -- Fewer than eight bits are unused, so neither of the two masks shifts its byte away.
    have hunusedLt : (8 * UInt64.ofNat encodedMessage.length - encodedBits).toNat < 8 := by
      rw [hunused]
      omega
    simp only [hmaskedSize, hpaddingSize, hhashSize, hlast, hback, checked_bind, mgf1_eq, ok_bind,
      pssHash_eq]
    rw [slice_eq (by omega), checked_bind, slice_eq (by omega), checked_bind, List.drop_zero,
      checkUnusedChecked_eq hunusedLt (by omega), checked_bind, onValue_ok,
      unmaskChecked_eq hmaskedLength (length_maskOf _ _ _), checked_bind]
    have hdbLength := length_unmasked hmaskedLength params.mgf1Hash ((encodedMessage.drop
      (encodedMessage.length - digestSize params.messageHash - 1)).take
        (digestSize params.messageHash))
    generalize List.zipWith (· ^^^ ·) (encodedMessage.take
        (encodedMessage.length - digestSize params.messageHash - 1))
        (maskOf params.mgf1Hash ((encodedMessage.drop
          (encodedMessage.length - digestSize params.messageHash - 1)).take
            (digestSize params.messageHash))
          (encodedMessage.length - digestSize params.messageHash - 1)) = db at hdbLength ⊢
    rw [clearUnusedChecked_eq _ (by omega), checked_bind, hunused]
    have hclearLength := (length_cleared (8 * encodedMessage.length - encodedBits.toNat)
      (0xFF >>> UInt8.ofNat (8 * encodedMessage.length - encodedBits.toNat)) db).trans hdbLength
    generalize (if 8 * encodedMessage.length - encodedBits.toNat > 0 then
        db.set 0 (db.headD 0 &&& (0xFF >>> UInt8.ofNat
          (8 * encodedMessage.length - encodedBits.toNat))) else db) = db at hclearLength ⊢
    rw [paddingDiffChecked_eq (by omega), checked_bind, read_eq (by omega) 0, checked_bind,
      slice_eq (by omega), checked_bind, onValue_ok]
    rfl

/-- The overflow of the size that is required, and the two sizes computed without it. -/
lemma wrapped_sizes (hlength : encodedMessage.length < 2 ^ 64)
    (hsum : 2 ^ 64 ≤ digestSize params.messageHash + params.saltLength.toNat + 2) :
    let size := UInt64.ofNat encodedMessage.length
    let excess := digestSize params.messageHash + params.saltLength.toNat + 2 - 2 ^ 64
    (requiredSize params).toNat = excess ∧ size.toNat = encodedMessage.length ∧
    (UInt64.ofNat (digestSize params.messageHash)).toNat = digestSize params.messageHash ∧
    (digestSize params.messageHash + 1 ≤ encodedMessage.length →
      (maskedDbSize encodedMessage params).toNat =
        encodedMessage.length - digestSize params.messageHash - 1) ∧
    (encodedMessage.length < digestSize params.messageHash + 1 →
      encodedMessage.length < (maskedDbSize encodedMessage params).toNat) ∧
    (excess ≤ encodedMessage.length →
      (paddingSizeOf encodedMessage params).toNat = encodedMessage.length - excess) := by
  intro size excess
  have hsize : size.toNat = encodedMessage.length := by
    rw [UInt64.toNat_ofNat']
    exact Nat.mod_eq_of_lt hlength
  have hdigest : digestSize params.messageHash ≤ 64 := by
    cases params.messageHash <;> decide
  have hhash := toNat_digestSize params.messageHash
  have hsalt := params.saltLength.toNat_lt
  have htwo : (2 : UInt64).toNat = 2 := rfl
  have hone : (1 : UInt64).toNat = 1 := rfl
  have hmasked : (maskedDbSize encodedMessage params).toNat =
      (2 ^ 64 - 1 + ((2 ^ 64 - digestSize params.messageHash + encodedMessage.length) % 2 ^ 64)) %
        2 ^ 64 := by
    rw [maskedDbSize, UInt64.toNat_sub, UInt64.toNat_sub, hone, hhash, hsize]
  have hpadding : (paddingSizeOf encodedMessage params).toNat =
      (2 ^ 64 - 2 + ((2 ^ 64 - params.saltLength.toNat +
        ((2 ^ 64 - digestSize params.messageHash + encodedMessage.length) % 2 ^ 64)) % 2 ^ 64)) %
          2 ^ 64 := by
    rw [paddingSizeOf, UInt64.toNat_sub, UInt64.toNat_sub, UInt64.toNat_sub, htwo, hhash, hsize]
  refine ⟨?_, hsize, hhash, ?_, ?_, ?_⟩
  · rw [requiredSize, UInt64.toNat_add, UInt64.toNat_add, hhash, htwo]
    omega
  · intro hle
    rw [hmasked]
    omega
  · intro hlt
    rw [hmasked]
    omega
  · intro hle
    rw [hpadding]
    omega

/-- With an overflow that is no longer than the message, some access is outside. -/
theorem emsaPssVerifyChecked_fault (hhash : messageHash.length = digestSize params.messageHash)
    (hlength : encodedMessage.length = (encodedBits.toNat + 7) / 8)
    (hbits : encodedBits.toNat + 7 < 2 ^ 64)
    (hsum : 2 ^ 64 ≤ digestSize params.messageHash + params.saltLength.toNat + 2)
    (hexcess : digestSize params.messageHash + params.saltLength.toNat + 2 ≤
      2 ^ 64 + encodedMessage.length) :
    emsaPssVerifyChecked encodedMessage encodedBits messageHash params = .error .outOfBounds := by
  obtain ⟨hrequired, hsizeNat, hhashNat, hmasked, hoverlong, hpadding⟩ :=
    wrapped_sizes (show encodedMessage.length < 2 ^ 64 by omega) hsum
  obtain ⟨hsize, hunused⟩ := encodedSize_eq hlength hbits
  have hguard : (UInt64.ofNat encodedMessage.length == (encodedBits + 7) / 8) = true :=
    beq_iff_eq.mpr hsize
  have hlong : ¬ UInt64.ofNat encodedMessage.length < requiredSize params := by
    rw [UInt64.lt_iff_toNat_lt, hrequired, hsizeNat]
    omega
  rw [emsaPssVerifyChecked]
  simp only [checkHashes_eq hhash, hguard, require_true, onValue_ok, if_neg hlong, hhashNat]
  by_cases hempty : encodedMessage.length = 0
  · -- the last byte of the empty message
    have hlast := lastIndex_of_empty hempty
    rw [read_fault (by omega), fault_bind]
  have hlast := lastIndex_eq (show encodedMessage.length < 2 ^ 64 by omega)
    (Nat.pos_of_ne_zero hempty)
  rw [read_eq (by omega) 0, checked_bind]
  by_cases hblock : encodedMessage.length < digestSize params.messageHash + 1
  · -- the masked data block of a message that is no longer than the hash
    have hover := hoverlong hblock
    rw [slice_fault (by omega), fault_bind]
  rw [hmasked (by omega), hpadding (by omega), slice_eq (by omega), checked_bind,
    slice_eq (by omega), checked_bind, List.drop_zero]
  have hmaskedLength : (encodedMessage.take
      (encodedMessage.length - digestSize params.messageHash - 1)).length =
        encodedMessage.length - digestSize params.messageHash - 1 :=
    List.length_take_of_le (by omega)
  obtain hfault | ⟨validMask, hvalid⟩ := checkUnusedChecked_cases
    (8 * UInt64.ofNat encodedMessage.length - encodedBits)
    (encodedMessage.take (encodedMessage.length - digestSize params.messageHash - 1))
    (constantTimeIsZero (encodedMessage.getD (UInt64.ofNat encodedMessage.length - 1).toNat 0 ^^^
      0xBC))
  · rw [hfault, fault_bind]
  rw [hvalid, checked_bind, mgf1_eq, onValue_ok,
    unmaskChecked_eq hmaskedLength (length_maskOf _ _ _), checked_bind]
  obtain hfault | ⟨db, hclear, hdb⟩ := clearUnusedChecked_cases
    (8 * UInt64.ofNat encodedMessage.length - encodedBits)
    (List.zipWith (· ^^^ ·) (encodedMessage.take
      (encodedMessage.length - digestSize params.messageHash - 1))
      (maskOf params.mgf1Hash ((encodedMessage.drop
        (encodedMessage.length - digestSize params.messageHash - 1)).take
          (digestSize params.messageHash))
        (encodedMessage.length - digestSize params.messageHash - 1)))
  · rw [hfault, fault_bind]
  rw [length_unmasked hmaskedLength] at hdb
  rw [hclear, checked_bind]
  have hsalt := params.saltLength.toNat_lt
  by_cases hover : encodedMessage.length - digestSize params.messageHash - 1 <
      encodedMessage.length -
        (digestSize params.messageHash + params.saltLength.toNat + 2 - 2 ^ 64)
  · -- the padding runs past the data block
    rw [paddingDiffChecked_fault (by omega), fault_bind]
  · -- it fills the data block, and the separator is behind it
    rw [paddingDiffChecked_eq (by omega), checked_bind, read_fault (by omega), fault_bind]

/-- An overflow that is longer than the message is taken for a size that is too long. -/
lemma emsaPssVerifyChecked_of_excess (hhash : messageHash.length = digestSize params.messageHash)
    (hlength : encodedMessage.length = (encodedBits.toNat + 7) / 8)
    (hbits : encodedBits.toNat + 7 < 2 ^ 64)
    (hexcess : 2 ^ 64 + encodedMessage.length <
      digestSize params.messageHash + params.saltLength.toNat + 2) :
    emsaPssVerifyChecked encodedMessage encodedBits messageHash params = .ok (.ok false) := by
  obtain ⟨hrequired, hsizeNat, -⟩ :=
    wrapped_sizes (show encodedMessage.length < 2 ^ 64 by omega)
      (show 2 ^ 64 ≤ digestSize params.messageHash + params.saltLength.toNat + 2 by omega)
  have hguard : (UInt64.ofNat encodedMessage.length == (encodedBits + 7) / 8) = true :=
    beq_iff_eq.mpr (encodedSize_eq hlength hbits).1
  have hshort : UInt64.ofNat encodedMessage.length < requiredSize params := by
    rw [UInt64.lt_iff_toNat_lt, hrequired, hsizeNat]
    omega
  rw [emsaPssVerifyChecked]
  simp only [checkHashes_eq hhash, hguard, require_true, onValue_ok, if_pos hshort]

/-- The check with checked accesses refines the plain one: whatever the sizes are and however they
wrap, it stops at an access outside a buffer or returns what the plain check returns. -/
theorem emsaPssVerifyChecked_refines (hhash : messageHash.length = digestSize params.messageHash)
    (hmemory : encodedMessage.length < 2 ^ 64) :
    emsaPssVerifyChecked encodedMessage encodedBits messageHash params = .error .outOfBounds ∨
      emsaPssVerifyChecked encodedMessage encodedBits messageHash params =
        .ok (emsaPssVerify encodedMessage encodedBits messageHash params) := by
  have hsizeNat : (UInt64.ofNat encodedMessage.length).toNat = encodedMessage.length := by
    rw [UInt64.toNat_ofNat']
    exact Nat.mod_eq_of_lt hmemory
  by_cases hrounded : encodedMessage.length = ((encodedBits + 7) / 8).toNat
  · have hguard : (UInt64.ofNat encodedMessage.length == (encodedBits + 7) / 8) = true := by
      rw [beq_iff_eq, hrounded, UInt64.ofNat_toNat]
    have hguard' : (encodedMessage.length == ((encodedBits + 7) / 8).toNat) = true :=
      beq_iff_eq.mpr hrounded
    by_cases hshort : UInt64.ofNat encodedMessage.length < requiredSize params
    · -- both return false, also where the required size has wrapped
      refine .inr ?_
      rw [emsaPssVerifyChecked, emsaPssVerify, emsaPssVerifySized]
      simp only [checkHashes_eq hhash, hguard, hguard', require_true, onValue_ok, ok_bind,
        if_pos hshort]
      rw [requiredSize] at hshort
      rw [if_pos hshort]
      rfl
    · by_cases hbits : encodedBits.toNat + 7 < 2 ^ 64
      · have hlength := hrounded.trans (roundedSize_eq hbits).1
        by_cases hsum : digestSize params.messageHash + params.saltLength.toNat + 2 < 2 ^ 64
        · exact .inr (emsaPssVerifyChecked_eq hhash hlength hbits hsum)
        · have hwraps := Nat.le_of_not_lt hsum
          obtain ⟨hrequired, -⟩ := wrapped_sizes hmemory hwraps
          rw [UInt64.lt_iff_toNat_lt, hrequired, hsizeNat] at hshort
          exact .inl (emsaPssVerifyChecked_fault hhash hlength hbits hwraps (by omega))
      · -- the last byte of the empty message
        have hempty := hrounded.trans (roundedSize_wraps hbits)
        have hlast := lastIndex_of_empty hempty
        refine .inl ?_
        rw [emsaPssVerifyChecked]
        simp only [checkHashes_eq hhash, hguard, require_true, onValue_ok, if_neg hshort]
        rw [read_fault (by omega), fault_bind]
  · have hguard : (UInt64.ofNat encodedMessage.length == (encodedBits + 7) / 8) = false := by
      rw [beq_eq_false_iff_ne]
      intro h
      rw [← h, hsizeNat] at hrounded
      exact hrounded rfl
    refine .inr ?_
    rw [emsaPssVerify_of_length_ne hhash hrounded, emsaPssVerifyChecked]
    simp only [checkHashes_eq hhash, hguard, require_false, onValue_ok]
    rfl

end Sizes

/-- The two sizes that the check computes are the numbers they stand for: neither sum has wrapped.
-/
structure SizesExact (encodedBits : UInt64)
    (params : RsaPssParams) : Prop where
  encoded : ((encodedBits + 7) / 8).toNat = (encodedBits.toNat + 7) / 8
  required : (requiredSize params).toNat =
    digestSize params.messageHash + params.saltLength.toNat + 2

/-- A message that is too short is refused, and on any other the check stays inside its buffers,
where the salt ends with the data block. -/
def StaysInside (encodedMessage : List UInt8) (encodedBits : UInt64) (messageHash : List UInt8)
    (params : RsaPssParams) : Prop :=
  encodedMessage.length < digestSize params.messageHash + params.saltLength.toNat + 2 ∧
      emsaPssVerifyChecked encodedMessage encodedBits messageHash params = .ok (.ok false) ∨
    (paddingSizeOf encodedMessage params).toNat + 1 + params.saltLength.toNat =
        (maskedDbSize encodedMessage params).toNat ∧
      ∃ verdict, emsaPssVerifyChecked encodedMessage encodedBits messageHash params =
        .ok (.ok verdict)

section Sizes

variable {encodedBits : UInt64} {messageHash encodedMessage : List UInt8} {params : RsaPssParams}

lemma sizesExact_of_fits (hbits : encodedBits.toNat + 7 < 2 ^ 64)
    (hsum : digestSize params.messageHash + params.saltLength.toNat + 2 < 2 ^ 64) :
    SizesExact encodedBits params where
  encoded := (roundedSize_eq hbits).1
  required := by
    rw [requiredSize, UInt64.toNat_add, UInt64.toNat_add, UInt64.toNat_ofNat',
      show (2 : UInt64).toNat = 2 from rfl]
    omega

lemma staysInside_of_fits (hhash : messageHash.length = digestSize params.messageHash)
    (hlength : encodedMessage.length = (encodedBits.toNat + 7) / 8)
    (hbits : encodedBits.toNat + 7 < 2 ^ 64)
    (hsum : digestSize params.messageHash + params.saltLength.toNat + 2 < 2 ^ 64) :
    StaysInside encodedMessage encodedBits messageHash params := by
  have hrun := emsaPssVerifyChecked_eq hhash hlength hbits hsum
  rw [emsaPssVerify_eq_sized hbits hlength,
    emsaPssVerifySized_eq hhash hlength (by omega) hsum] at hrun
  by_cases hshort : encodedMessage.length <
      digestSize params.messageHash + params.saltLength.toNat + 2
  · refine .inl ⟨hshort, ?_⟩
    rw [hrun, decide_eq_false fun h => Nat.not_lt.mpr (hlength ▸ h.long_enough) hshort]
  · have hle := Nat.le_of_not_lt hshort
    obtain ⟨hmasked, hpadding⟩ :=
      (sizes_eq (show encodedMessage.length < 2 ^ 64 by omega) hsum).2.1 hle
    refine .inr ⟨?_, _, hrun⟩
    rw [paddingSizeOf, maskedDbSize, hmasked, hpadding]
    omega

lemma emsaPssVerifyChecked_of_wraps
    (hhash : messageHash.length = digestSize params.messageHash)
    (hlength : encodedMessage.length = (encodedBits.toNat + 7) / 8)
    (hbits : ¬ encodedBits.toNat + 7 < 2 ^ 64) :
    emsaPssVerifyChecked encodedMessage encodedBits messageHash params =
      .ok (.error (pssError .invalidArgument
        "encoded message size does not match encoded bit count")) := by
  have hlt := encodedBits.toNat_lt
  have hguard : (UInt64.ofNat encodedMessage.length == (encodedBits + 7) / 8) = false := by
    rw [beq_eq_false_iff_ne]
    intro h
    have hnat := congrArg UInt64.toNat h
    rw [roundedSize_wraps hbits, UInt64.toNat_ofNat'] at hnat
    omega
  rw [emsaPssVerifyChecked]
  simp only [checkHashes_eq hhash, hguard, require_false, onValue_ok]
  rfl

end Sizes

end RsaPss

/-- The check stays inside its buffers with exact sizes when the sizes fit their type, and only
then. It reads outside them when the required size overflows to one that the message has. -/
theorem emsaPssVerify_staysInside_iff (encodedMessage : List UInt8) (encodedBits : UInt64)
    (messageHash : List UInt8) (params : RsaPssParams)
    (hhash : messageHash.length = digestSize params.messageHash)
    (hlength : encodedMessage.length = (encodedBits.toNat + 7) / 8) :
    (StaysInside encodedMessage encodedBits messageHash params ∧
        SizesExact encodedBits params ↔
      encodedBits.toNat + 7 < 2 ^ 64 ∧
        digestSize params.messageHash + params.saltLength.toNat + 2 < 2 ^ 64) ∧
    (emsaPssVerifyChecked encodedMessage encodedBits messageHash params = .error .outOfBounds ↔
      encodedBits.toNat + 7 < 2 ^ 64 ∧
        2 ^ 64 ≤ digestSize params.messageHash + params.saltLength.toNat + 2 ∧
        digestSize params.messageHash + params.saltLength.toNat + 2 ≤
          2 ^ 64 + encodedMessage.length) := by
  by_cases hbits : encodedBits.toNat + 7 < 2 ^ 64
  · by_cases hsum : digestSize params.messageHash + params.saltLength.toNat + 2 < 2 ^ 64
    · have hrun := emsaPssVerifyChecked_eq hhash hlength hbits hsum
      refine ⟨iff_of_true ⟨?_, sizesExact_of_fits hbits hsum⟩ ⟨hbits, hsum⟩, ?_⟩
      · exact staysInside_of_fits hhash hlength hbits hsum
      · rw [hrun]
        exact ⟨nofun, fun h => absurd hsum (Nat.not_lt.mpr h.2.1)⟩
    · have hwraps := Nat.le_of_not_lt hsum
      refine ⟨iff_of_false (fun h => hsum ?_) fun h => hsum h.2, ?_⟩
      · rw [← h.2.required]
        exact (requiredSize params).toNat_lt
      · by_cases hexcess : digestSize params.messageHash + params.saltLength.toNat + 2 ≤
            2 ^ 64 + encodedMessage.length
        · exact iff_of_true (emsaPssVerifyChecked_fault hhash hlength hbits hwraps hexcess)
            ⟨hbits, hwraps, hexcess⟩
        · rw [emsaPssVerifyChecked_of_excess hhash hlength hbits (Nat.lt_of_not_le hexcess)]
          exact ⟨nofun, fun h => absurd h.2.2 hexcess⟩
  · have hencoded := roundedSize_wraps hbits
    refine ⟨iff_of_false (fun h => ?_) fun h => hbits h.1, ?_⟩
    · have hexact := h.2.encoded
      rw [hencoded] at hexact
      omega
    · rw [emsaPssVerifyChecked_of_wraps hhash hlength hbits]
      exact ⟨nofun, fun h => absurd h.1 hbits⟩

/-- A salt length of `2 ^ 64 - 1` passes as one that fits 34 bytes next to a hash of 32. -/
def overflowingParams : RsaPssParams where
  messageHash := .sha256
  mgf1Hash := .sha256
  saltLength := 0xFFFFFFFFFFFFFFFF

/-- On 34 zeros the check reads behind a data block of one byte. -/
theorem emsaPssVerify_reads_outside :
    emsaPssVerifyChecked (List.replicate 34 0) 272 (List.replicate 32 0) overflowingParams =
        .error .outOfBounds ∧
      ¬ StaysInside (List.replicate 34 0) 272 (List.replicate 32 0) overflowingParams := by
  have hfault : emsaPssVerifyChecked (List.replicate 34 0) 272 (List.replicate 32 0)
      overflowingParams = .error .outOfBounds :=
    emsaPssVerifyChecked_fault (by decide) (by decide) (by decide) (by decide) (by decide)
  refine ⟨hfault, ?_⟩
  rintro (⟨-, h⟩ | ⟨-, _, h⟩) <;> cases hfault.symm.trans h

/-- The theorem above on this message. -/
theorem emsaPssVerify_staysInside_iff_overflowing :
    ¬ (StaysInside (List.replicate 34 0) 272 (List.replicate 32 0) overflowingParams ∧
      SizesExact 272 overflowingParams) :=
  fun h => absurd ((emsaPssVerify_staysInside_iff (List.replicate 34 0) 272 (List.replicate 32 0)
    overflowingParams (by decide) (by decide)).1.mp h).2 (by decide)

end CryptoCore
