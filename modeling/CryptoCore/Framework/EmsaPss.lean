import CryptoCore.Framework.ByteStrings

/-!
# The probabilistic signature encoding

The encoding over an arbitrary hash and an arbitrary mask generator: a data block of zeros, a one
and the salt, masked by the mask of the challenge, then the challenge and a trailer. An encoded
message of `bits` bits has `encodedSize bits` bytes, and the top `unusedBits bits` bits of the first
are zero.

`Verifies` is the check that recovers the salt. It accepts what `encode` produces, and nothing else:
`verifies_encode` is the one direction, and `Verifies.eq_encode` reads the salt off an encoded
message that passes. `encode_inj` adds that the salt is the only one of its length.

Sizes are natural numbers and are never truncated, so that this is the encoding itself and not an
implementation of it with sizes of a machine word. The assumptions on the hash and on the mask
generator are about lengths only.

The first section has the bytewise operations, of which `clearTop` is the one with an argument:
clearing bits before a mask is put on and again after it is taken off loses nothing that was zero
before.
-/

namespace EmsaPss

open ByteStrings

/-! ## Sizes and masks -/

/-- The bytes of an encoded message of a number of bits, rounded up. -/
def encodedSize (bits : ℕ) : ℕ := (bits + 7) / 8

/-- The bits of the first byte that are not used, of which there are at most seven. -/
def unusedBits (bits : ℕ) : ℕ := 8 * encodedSize bits - bits

lemma unusedBits_lt (bits : ℕ) : unusedBits bits < 8 := by
  unfold unusedBits encodedSize
  omega

lemma bits_add_unusedBits (bits : ℕ) : bits + unusedBits bits = 8 * encodedSize bits := by
  unfold unusedBits encodedSize
  omega

/-- Clears the top bits of the first byte, and leaves the other bytes alone. -/
def clearTop (unused : ℕ) : List UInt8 → List UInt8
  | [] => []
  | b :: bs => (b &&& (0xFF >>> UInt8.ofNat unused)) :: bs

@[simp] lemma length_clearTop (unused : ℕ) (bytes : List UInt8) :
    (clearTop unused bytes).length = bytes.length := by
  cases bytes <;> rfl

/-- The byte keeps what lies below its cleared bits: the mask is a power of two minus one. -/
lemma toNat_and_shift {unused : ℕ} (hunused : unused < 8) (b : UInt8) :
    (b &&& (0xFF >>> UInt8.ofNat unused)).toNat = b.toNat % 2 ^ (8 - unused) := by
  have hmask : ((0xFF : UInt8) >>> UInt8.ofNat unused).toNat = 2 ^ (8 - unused) - 1 := by
    interval_cases unused <;> rfl
  rw [UInt8.toNat_and, hmask, Nat.and_two_pow_sub_one_eq_mod]

lemma clearTop_of_lt {unused : ℕ} (hunused : unused < 8) {bytes : List UInt8}
    (htop : (bytes.headD 0).toNat < 2 ^ (8 - unused)) : clearTop unused bytes = bytes := by
  cases bytes with
  | nil => rfl
  | cons b bs =>
      rw [List.headD_cons] at htop
      rw [clearTop, List.cons.injEq]
      refine ⟨UInt8.toNat_inj.mp ?_, rfl⟩
      rw [toNat_and_shift hunused, Nat.mod_eq_of_lt htop]

lemma headD_clearTop_lt {unused : ℕ} (hunused : unused < 8) (bytes : List UInt8) :
    ((clearTop unused bytes).headD 0).toNat < 2 ^ (8 - unused) := by
  have hpos : 0 < 2 ^ (8 - unused) := Nat.pow_pos (by decide)
  cases bytes with
  | nil => exact hpos
  | cons b bs =>
      rw [clearTop, List.headD_cons, toNat_and_shift hunused]
      exact Nat.mod_lt _ hpos

/-- The bytewise exclusive or. -/
def xorBytes (lhs rhs : List UInt8) : List UInt8 :=
  List.zipWith (· ^^^ ·) lhs rhs

lemma length_xorBytes {lhs rhs : List UInt8} (h : lhs.length = rhs.length) :
    (xorBytes lhs rhs).length = lhs.length := by
  rw [xorBytes, List.length_zipWith, h, Nat.min_self]

lemma xorBytes_xorBytes {lhs rhs : List UInt8} (h : lhs.length = rhs.length) :
    xorBytes (xorBytes lhs rhs) rhs = lhs := by
  induction lhs generalizing rhs with
  | nil => rfl
  | cons a lhs ih =>
      cases rhs with
      | nil => simp at h
      | cons b rhs =>
          have hcons : xorBytes (a :: lhs) (b :: rhs) = (a ^^^ b) :: xorBytes lhs rhs := rfl
          rw [hcons]
          have hcons' : xorBytes ((a ^^^ b) :: xorBytes lhs rhs) (b :: rhs) =
              (a ^^^ b ^^^ b) :: xorBytes (xorBytes lhs rhs) rhs := rfl
          rw [hcons', ih (by simpa using h), UInt8.xor_assoc, UInt8.xor_self, UInt8.xor_zero]

/-- Clearing bits before masking is lost on the cleared bits only. -/
lemma clearTop_xorBytes_clearTop (unused : ℕ) (lhs rhs : List UInt8) :
    clearTop unused (xorBytes (clearTop unused lhs) rhs) = clearTop unused (xorBytes lhs rhs) := by
  have hbits : ∀ a b k : UInt8, (a &&& k ^^^ b) &&& k = (a ^^^ b) &&& k := by
    intro a b k
    apply UInt8.toBitVec_inj.mp
    simp only [UInt8.toBitVec_and, UInt8.toBitVec_xor]
    ext i hi
    simp only [BitVec.getElem_and, BitVec.getElem_xor]
    cases a.toBitVec[i] <;> cases b.toBitVec[i] <;> cases k.toBitVec[i] <;> rfl
  cases lhs with
  | nil => rfl
  | cons a lhs =>
      cases rhs with
      | nil => rfl
      | cons b rhs =>
          show ((a &&& _ ^^^ b) &&& _) :: xorBytes lhs rhs = ((a ^^^ b) &&& _) :: xorBytes lhs rhs
          rw [hbits]

/-- A number of `bits` bits is one whose unused top bits are zero, when it is written in the bytes
of an encoded message. -/
lemma beValue_lt_iff (bits : ℕ) {em : List UInt8} (hlength : em.length = encodedSize bits) :
    beValue em < 2 ^ bits ↔ (em.headD 0).toNat < 2 ^ (8 - unusedBits bits) := by
  have hunused := unusedBits_lt bits
  have hbits := bits_add_unusedBits bits
  cases em with
  | nil =>
      have hzero : bits = 0 := by
        rw [List.length_nil] at hlength
        unfold encodedSize at hlength
        omega
      subst hzero
      simp
  | cons b bs =>
      rw [List.length_cons] at hlength
      have hpow : 2 ^ bits = 2 ^ (8 - unusedBits bits) * 256 ^ bs.length := by
        rw [show (256 : ℕ) = 2 ^ 8 from rfl, ← pow_mul, ← pow_add]
        congr 1
        omega
      have hlt := beValue_lt bs
      rw [beValue_cons, List.headD_cons, hpow]
      constructor
      · intro h
        exact Nat.lt_of_mul_lt_mul_right ((Nat.le_add_right _ _).trans_lt h)
      · intro h
        calc b.toNat * 256 ^ bs.length + beValue bs
            < b.toNat * 256 ^ bs.length + 256 ^ bs.length := by omega
          _ = (b.toNat + 1) * 256 ^ bs.length := by ring
          _ ≤ 2 ^ (8 - unusedBits bits) * 256 ^ bs.length := Nat.mul_le_mul_right _ h

/-! ## The encoding -/

section Encoding

variable (hash : List UInt8 → List UInt8) (hashSize : ℕ) (mask : List UInt8 → ℕ → List UInt8)

/-- The hash of eight zeros, the message hash and the salt. The message itself is not needed any
more. -/
def challenge (messageHash salt : List UInt8) : List UInt8 :=
  hash (List.replicate 8 0 ++ messageHash ++ salt)

/-- Zeros, a one and the salt. The one marks where the salt starts, so that its length can be any.
-/
def dataBlock (size : ℕ) (salt : List UInt8) : List UInt8 :=
  List.replicate (size - salt.length - 1) 0 ++ 1 :: salt

/-- The size of a data block: what the hash and the trailer leave of an encoded message. -/
def dataBlockSize (bits : ℕ) : ℕ := encodedSize bits - hashSize - 1

/-- The encoded message of a salt. The top bits are cleared behind the masking, so that they are
zero whatever the mask is. -/
def encode (bits : ℕ) (messageHash salt : List UInt8) : List UInt8 :=
  let h := challenge hash messageHash salt
  let size := dataBlockSize hashSize bits
  clearTop (unusedBits bits) (xorBytes (dataBlock size salt) (mask h size)) ++ h ++ [0xBC]

/-- The masked data block of an encoded message, at its front. -/
def maskedDataBlock (bits : ℕ) (em : List UInt8) : List UInt8 :=
  em.take (dataBlockSize hashSize bits)

/-- The challenge of an encoded message, between the data block and the trailer. -/
def challengeOf (bits : ℕ) (em : List UInt8) : List UInt8 :=
  (em.drop (dataBlockSize hashSize bits)).take hashSize

/-- The data block with its mask taken off. The unused bits of the mask are cleared with the block's
own. -/
def recoveredBlock (bits : ℕ) (em : List UInt8) : List UInt8 :=
  clearTop (unusedBits bits) (xorBytes (maskedDataBlock hashSize bits em)
    (mask (challengeOf hashSize bits em) (dataBlockSize hashSize bits)))

/-- The zeros in front of the one, when the salt has a given length. -/
def paddingSize (bits saltLength : ℕ) : ℕ := dataBlockSize hashSize bits - saltLength - 1

/-- The check of an encoded message of `encodedSize bits` bytes, for a salt of a given length: the
shape of the recovered block, and the challenge that its salt hashes to. -/
structure Verifies (bits saltLength : ℕ) (messageHash em : List UInt8) : Prop where
  long_enough : hashSize + saltLength + 2 ≤ encodedSize bits
  trailer : em.getLastD 0 = 0xBC
  unused : (em.headD 0).toNat < 2 ^ (8 - unusedBits bits)
  padding : (recoveredBlock hashSize mask bits em).take (paddingSize hashSize bits saltLength) =
    List.replicate (paddingSize hashSize bits saltLength) 0
  one : (recoveredBlock hashSize mask bits em).getD (paddingSize hashSize bits saltLength) 0 = 1
  consistent : challenge hash messageHash ((recoveredBlock hashSize mask bits em).drop
    (paddingSize hashSize bits saltLength + 1)) = challengeOf hashSize bits em

instance (bits saltLength : ℕ) (messageHash em : List UInt8) :
    Decidable (Verifies hash hashSize mask bits saltLength messageHash em) :=
  decidable_of_iff
    (hashSize + saltLength + 2 ≤ encodedSize bits ∧ em.getLastD 0 = 0xBC ∧
      (em.headD 0).toNat < 2 ^ (8 - unusedBits bits) ∧
      (recoveredBlock hashSize mask bits em).take (paddingSize hashSize bits saltLength) =
        List.replicate (paddingSize hashSize bits saltLength) 0 ∧
      (recoveredBlock hashSize mask bits em).getD (paddingSize hashSize bits saltLength) 0 = 1 ∧
      challenge hash messageHash ((recoveredBlock hashSize mask bits em).drop
        (paddingSize hashSize bits saltLength + 1)) = challengeOf hashSize bits em)
    ⟨fun ⟨h₁, h₂, h₃, h₄, h₅, h₆⟩ => ⟨h₁, h₂, h₃, h₄, h₅, h₆⟩,
      fun ⟨h₁, h₂, h₃, h₄, h₅, h₆⟩ => ⟨h₁, h₂, h₃, h₄, h₅, h₆⟩⟩

variable {hash hashSize mask} (hhash : ∀ input, (hash input).length = hashSize)
  (hmask : ∀ seed size, (mask seed size).length = size) {bits : ℕ} (messageHash : List UInt8)
  {salt : List UInt8}

lemma length_dataBlock {size : ℕ} (h : salt.length + 1 ≤ size) :
    (dataBlock size salt).length = size := by
  simp only [dataBlock, List.length_append, List.length_replicate, List.length_cons]
  omega

/-- The first byte of a data block is zero or one, so that its top bits are clear before it is
masked. -/
lemma headD_dataBlock_lt {size unused : ℕ} (hunused : unused < 8) :
    ((dataBlock size salt).headD 0).toNat < 2 ^ (8 - unused) := by
  have htwo : 2 ≤ 2 ^ (8 - unused) := by
    calc 2 = 2 ^ 1 := rfl
      _ ≤ 2 ^ (8 - unused) := Nat.pow_le_pow_right (by decide) (by omega)
  rw [dataBlock]
  cases hn : size - salt.length - 1 with
  | zero =>
      rw [List.replicate_zero, List.nil_append, List.headD_cons]
      exact htwo
  | succ n =>
      rw [List.replicate_succ, List.cons_append, List.headD_cons]
      exact (by decide : (0 : UInt8).toNat < 2).trans_le htwo

include hhash hmask

lemma length_encode (h : hashSize + salt.length + 2 ≤ encodedSize bits) :
    (encode hash hashSize mask bits messageHash salt).length = encodedSize bits := by
  have hblock : salt.length + 1 ≤ dataBlockSize hashSize bits := by
    unfold dataBlockSize
    omega
  simp only [encode, List.length_append, length_clearTop, challenge, hhash,
    List.length_singleton]
  rw [length_xorBytes (by rw [length_dataBlock hblock, hmask]), length_dataBlock hblock]
  unfold dataBlockSize
  omega

/-- The parts of an encoding are what it was put together from. -/
lemma maskedDataBlock_encode (h : hashSize + salt.length + 2 ≤ encodedSize bits) :
    maskedDataBlock hashSize bits (encode hash hashSize mask bits messageHash salt) =
      clearTop (unusedBits bits) (xorBytes (dataBlock (dataBlockSize hashSize bits) salt)
        (mask (challenge hash messageHash salt) (dataBlockSize hashSize bits))) ∧
    challengeOf hashSize bits (encode hash hashSize mask bits messageHash salt) =
      challenge hash messageHash salt := by
  have hblock : salt.length + 1 ≤ dataBlockSize hashSize bits := by
    unfold dataBlockSize
    omega
  have hlength : (clearTop (unusedBits bits) (xorBytes
      (dataBlock (dataBlockSize hashSize bits) salt)
      (mask (challenge hash messageHash salt) (dataBlockSize hashSize bits)))).length =
      dataBlockSize hashSize bits := by
    rw [length_clearTop, length_xorBytes (by rw [length_dataBlock hblock, hmask]),
      length_dataBlock hblock]
  constructor
  · rw [maskedDataBlock, encode, List.append_assoc]
    exact List.take_left' hlength
  · rw [challengeOf, encode, List.append_assoc, List.drop_left' hlength]
    exact List.take_left' (hhash _)

/-- Taking the mask off an encoding gives its data block back. -/
lemma recoveredBlock_encode (h : hashSize + salt.length + 2 ≤ encodedSize bits) :
    recoveredBlock hashSize mask bits (encode hash hashSize mask bits messageHash salt) =
      dataBlock (dataBlockSize hashSize bits) salt := by
  have hblock : salt.length + 1 ≤ dataBlockSize hashSize bits := by
    unfold dataBlockSize
    omega
  obtain ⟨hmasked, hchallenge⟩ := maskedDataBlock_encode hhash hmask messageHash h
  rw [recoveredBlock, hmasked, hchallenge, clearTop_xorBytes_clearTop,
    xorBytes_xorBytes (by rw [length_dataBlock hblock, hmask])]
  exact clearTop_of_lt (unusedBits_lt bits) (headD_dataBlock_lt (unusedBits_lt bits))

/-- An encoding is a number of `bits` bits. -/
lemma headD_encode_lt (h : hashSize + salt.length + 2 ≤ encodedSize bits) :
    ((encode hash hashSize mask bits messageHash salt).headD 0).toNat <
      2 ^ (8 - unusedBits bits) := by
  obtain ⟨hmasked, -⟩ := maskedDataBlock_encode hhash hmask messageHash h
  have hpos : 0 < dataBlockSize hashSize bits := by
    unfold dataBlockSize
    omega
  have hhead : (encode hash hashSize mask bits messageHash salt).headD 0 =
      (maskedDataBlock hashSize bits
        (encode hash hashSize mask bits messageHash salt)).headD 0 := by
    rw [maskedDataBlock]
    cases encode hash hashSize mask bits messageHash salt with
    | nil => rw [List.take_nil]
    | cons b bs =>
        obtain ⟨n, hn⟩ := Nat.exists_eq_succ_of_ne_zero (Nat.ne_of_gt hpos)
        rw [hn, List.take_succ_cons]
        rfl
  rw [hhead, hmasked]
  exact headD_clearTop_lt (unusedBits_lt bits) _

lemma beValue_encode_lt (h : hashSize + salt.length + 2 ≤ encodedSize bits) :
    beValue (encode hash hashSize mask bits messageHash salt) < 2 ^ bits :=
  (beValue_lt_iff bits (length_encode hhash hmask messageHash h)).mpr
    (headD_encode_lt hhash hmask messageHash h)

/-- What is encoded verifies, for every salt that there is room for. -/
theorem verifies_encode (h : hashSize + salt.length + 2 ≤ encodedSize bits) :
    Verifies hash hashSize mask bits salt.length messageHash
      (encode hash hashSize mask bits messageHash salt) := by
  have hblock := recoveredBlock_encode hhash hmask messageHash h
  have hpadding : paddingSize hashSize bits salt.length =
      (List.replicate (dataBlockSize hashSize bits - salt.length - 1) (0 : UInt8)).length := by
    rw [List.length_replicate, paddingSize]
  constructor
  · exact h
  · rw [encode, List.getLastD_concat]
  · exact headD_encode_lt hhash hmask messageHash h
  · rw [hblock, dataBlock, List.take_left' hpadding.symm, paddingSize]
  · rw [hblock, dataBlock, List.getD_append_right _ _ _ _ hpadding.ge, hpadding, Nat.sub_self]
    rfl
  · rw [hblock, (maskedDataBlock_encode hhash hmask messageHash h).2, dataBlock,
      List.drop_append, hpadding, List.drop_of_length_le (Nat.le_succ _),
      Nat.add_sub_cancel_left]
    rfl

/-- Encodings of salts of one length determine the salt: the block is recovered without knowing it.
-/
lemma encode_inj {salt' : List UInt8} (hsalt : salt'.length = salt.length)
    (h : hashSize + salt.length + 2 ≤ encodedSize bits)
    (heq : encode hash hashSize mask bits messageHash salt =
      encode hash hashSize mask bits messageHash salt') : salt = salt' := by
  have hblock := recoveredBlock_encode hhash hmask messageHash h
  have hblock' := recoveredBlock_encode hhash hmask messageHash (hsalt ▸ h)
  rw [heq, hblock', dataBlock, dataBlock, hsalt] at hblock
  exact (List.cons.inj (List.append_cancel_left hblock)).2.symm

omit hhash in
lemma length_recoveredBlock {saltLength : ℕ} {em : List UInt8}
    (hlength : em.length = encodedSize bits) (h : hashSize + saltLength + 2 ≤ encodedSize bits) :
    (recoveredBlock hashSize mask bits em).length =
      paddingSize hashSize bits saltLength + 1 + saltLength := by
  have hmasked : (maskedDataBlock hashSize bits em).length = dataBlockSize hashSize bits := by
    rw [maskedDataBlock, List.length_take]
    unfold dataBlockSize
    omega
  rw [recoveredBlock, length_clearTop, length_xorBytes (by rw [hmasked, hmask]), hmasked,
    paddingSize]
  unfold dataBlockSize
  omega

omit hhash hmask in
/-- A message that is long enough is its masked data block, its challenge and one byte. -/
lemma eq_parts {em : List UInt8} (hlength : em.length = encodedSize bits)
    (h : hashSize + 2 ≤ encodedSize bits) :
    em = maskedDataBlock hashSize bits em ++ challengeOf hashSize bits em ++ [em.getLastD 0] := by
  obtain ⟨front, last, rfl⟩ : ∃ front last, em = front ++ [last] := by
    have hne : em ≠ [] := by
      intro hnil
      rw [hnil, List.length_nil] at hlength
      omega
    exact ⟨em.dropLast, em.getLast hne, (List.dropLast_append_getLast hne).symm⟩
  have hsize : front.length = dataBlockSize hashSize bits + hashSize := by
    rw [List.length_append, List.length_singleton] at hlength
    unfold dataBlockSize
    omega
  rw [List.getLastD_concat, maskedDataBlock, challengeOf, List.take_append_of_le_length (by omega),
    List.drop_append_of_le_length (by omega), List.take_left' (by rw [List.length_drop]; omega),
    List.take_append_drop]

omit hhash in
/-- What verifies is the encoding of its salt, the end of the recovered block. -/
theorem Verifies.eq_encode {saltLength : ℕ} {em : List UInt8}
    (hlength : em.length = encodedSize bits)
    (h : Verifies hash hashSize mask bits saltLength messageHash em) :
    ∃ salt : List UInt8, salt.length = saltLength ∧
      em = encode hash hashSize mask bits messageHash salt := by
  have hlong := h.long_enough
  have hlengthBlock := length_recoveredBlock hmask hlength hlong
  have hunused := unusedBits_lt bits
  have hmasked : (maskedDataBlock hashSize bits em).length = dataBlockSize hashSize bits := by
    rw [maskedDataBlock, List.length_take]
    unfold dataBlockSize
    omega
  set salt := (recoveredBlock hashSize mask bits em).drop (paddingSize hashSize bits saltLength + 1)
    with hsalt
  have hsaltLength : salt.length = saltLength := by
    rw [hsalt, List.length_drop]
    omega
  -- The recovered block is the data block of the salt.
  have hblock : recoveredBlock hashSize mask bits em =
      dataBlock (dataBlockSize hashSize bits) salt := by
    have hone : (recoveredBlock hashSize mask bits em).drop
        (paddingSize hashSize bits saltLength) = 1 :: salt := by
      have hlt : paddingSize hashSize bits saltLength <
          (recoveredBlock hashSize mask bits em).length := by omega
      rw [List.drop_eq_getElem_cons hlt, ← hsalt, ← List.getD_eq_getElem _ 0 hlt, h.one]
    rw [← List.take_append_drop (paddingSize hashSize bits saltLength)
      (recoveredBlock hashSize mask bits em), h.padding, hone, dataBlock, hsaltLength]
    rfl
  -- Masking it again gives the masked block back, whose unused bits are zero.
  have htop : clearTop (unusedBits bits) (maskedDataBlock hashSize bits em) =
      maskedDataBlock hashSize bits em := by
    refine clearTop_of_lt hunused ?_
    have hhead : (maskedDataBlock hashSize bits em).headD 0 = em.headD 0 := by
      obtain ⟨n, hn⟩ : ∃ n, dataBlockSize hashSize bits = n + 1 :=
        ⟨dataBlockSize hashSize bits - 1, by unfold dataBlockSize; omega⟩
      rw [maskedDataBlock, hn]
      cases em <;> rfl
    rw [hhead]
    exact h.unused
  have hremask : clearTop (unusedBits bits) (xorBytes (dataBlock (dataBlockSize hashSize bits) salt)
      (mask (challengeOf hashSize bits em) (dataBlockSize hashSize bits))) =
        maskedDataBlock hashSize bits em := by
    rw [← hblock, recoveredBlock, clearTop_xorBytes_clearTop,
      xorBytes_xorBytes (by rw [hmasked, hmask]), htop]
  refine ⟨salt, hsaltLength, ?_⟩
  rw [encode, h.consistent, hremask, ← h.trailer]
  exact eq_parts hlength (by omega)

end Encoding

end EmsaPss
