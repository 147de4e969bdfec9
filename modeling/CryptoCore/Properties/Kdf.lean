import CryptoCore.Construction.Kdf
import CryptoCore.Properties.Hmac

/-!
# Key derivation

PBKDF2 and HKDF return what the standards say. PBKDF2 does so up to one block below the limit of its
standard: at the limit the index of the loop can never be past the last block, and just below the
largest 64-bit size the number of blocks wraps to zero.

Both are loops that append blocks until the output is long enough, modelled as runs of rounds that
need not end. So that the output is the one of the standard is a statement about a run that ends,
and that it ends is another; `pbkdf2_exact` has both, for every size up to that block.

`Pbkdf2SizeSafe` collects what the limits of the standard promise for one size, and
`pbkdf2_sizeSafe_iff` tells the sizes that keep the promise. The two kinds of sizes that do not are
`not_pbkdf2SizeSafe_of_le`, where the 32-bit index wraps to zero behind the last block and the loop
goes on, and `not_pbkdf2SizeSafe_of_lt`, where the sum that rounds the size up wraps, so that the
check for too many blocks passes and the allocation of the output fails.

HKDF counts its blocks in a byte, and refuses every size for which the byte could wrap.
-/

namespace CryptoCore

open KeyDerivation Runs

/-! ## PBKDF2 -/

/-- The output of the standard; what is returned for a smaller size is a prefix of it. -/
theorem pbkdf2_exact (algorithm : MacAlgorithm) (password salt : List UInt8) {iterations : UInt32}
    {outputSize : UInt64} (hiterations : iterations ≠ 0) (hpos : 1 ≤ outputSize.toNat)
    (hsize : outputSize.toNat ≤ (2 ^ 32 - 2) * macSize algorithm) :
    ∃ rounds output,
      nativePbkdf2 (pbkdf2Algorithm algorithm) password salt iterations outputSize rounds =
        .ended (.returned (.ok output)) ∧
      output = pbkdf2 (standardMac algorithm) (macSize algorithm) password salt iterations.toNat
        outputSize.toNat ∧
      ∀ (shorter : UInt64) (rounds : ℕ) (front : ByteBuffer), shorter ≤ outputSize →
        nativePbkdf2 (pbkdf2Algorithm algorithm) password salt iterations shorter rounds =
          .ended (.returned (.ok front)) → front <+: output := by
  rw [← hmacOf_eq]
  refine ⟨_, _, nativePbkdf2_returned password salt hiterations hpos hsize, rfl, ?_⟩
  intro shorter rounds front hle hfront
  have hshorter := UInt64.le_iff_toNat_le.mp hle
  rcases Nat.eq_zero_or_pos shorter.toNat with hzero | hpos'
  · -- No output of size zero is ever returned.
    rw [eq_zero_of_toNat hzero, nativePbkdf2_zero] at hfront
    cases hfront
  · have hreturned := nativePbkdf2_returned password salt hiterations hpos'
      (hshorter.trans hsize)
    have hsame := (isRun_nativePbkdf2 password salt _ iterations shorter).unique hfront hreturned
    rw [Except.ok.inj (Outcome.returned.inj hsame)]
    exact firstElements_prefix (macSize_pos algorithm) (fun i => length_pbkdf2Block password salt
      (length_hmacOf_hashAlgorithm algorithm) (i + 1) _) hshorter

/-- Forty bytes are one block and a part of the next one. -/
theorem pbkdf2_exact_twoBlocks : ∃ rounds output,
    nativePbkdf2 .pbkdf2HmacSha256 [1, 2] [3] 5 40 rounds = .ended (.returned (.ok output)) ∧
    output = pbkdf2 (standardMac .hmacSha256) 32 [1, 2] [3] 5 40 ∧
    ∀ (shorter : UInt64) (rounds : ℕ) (front : ByteBuffer), shorter ≤ 40 →
      nativePbkdf2 .pbkdf2HmacSha256 [1, 2] [3] 5 shorter rounds =
        .ended (.returned (.ok front)) → front <+: output :=
  pbkdf2_exact .hmacSha256 [1, 2] [3] (by decide) (by decide) (by decide)

/-- The limits that the standard sets, for one request: the run ends, with as many bytes as asked
for up to `2 ^ 32 - 1` blocks and with a refusal beyond, and its index counts the rounds without
wrapping. -/
structure Pbkdf2SizeSafe (algorithm : MacAlgorithm) (password salt : List UInt8)
    (iterations : UInt32) (outputSize : UInt64) : Prop where
  terminates : ∃ rounds outcome,
    nativePbkdf2 (pbkdf2Algorithm algorithm) password salt iterations outputSize rounds =
      .ended outcome
  exact : 1 ≤ outputSize.toNat → outputSize.toNat ≤ (2 ^ 32 - 1) * macSize algorithm →
    ∃ rounds output,
      nativePbkdf2 (pbkdf2Algorithm algorithm) password salt iterations outputSize rounds =
        .ended (.returned (.ok output)) ∧ output.length = outputSize.toNat
  refused : (2 ^ 32 - 1) * macSize algorithm < outputSize.toNat → ∃ rounds error,
    nativePbkdf2 (pbkdf2Algorithm algorithm) password salt iterations outputSize rounds =
      .ended (.returned (.error error)) ∧ error.code = .invalidArgument
  counter : ∀ rounds state,
    nativePbkdf2 (pbkdf2Algorithm algorithm) password salt iterations outputSize rounds =
      .running state → state.blockIndex.toNat = rounds + 1

section Sizes

variable {algorithm : MacAlgorithm} {password salt : List UInt8} {iterations : UInt32}
  {outputSize : UInt64}

lemma pbkdf2SizeSafe_zero (iterations : UInt32) :
    Pbkdf2SizeSafe algorithm password salt iterations 0 where
  terminates := ⟨0, _, nativePbkdf2_zero password salt iterations 0⟩
  exact := fun hpos => absurd hpos (by decide)
  refused := fun hmore => absurd hmore (Nat.not_lt_zero _)
  counter := by
    intro rounds state hrun
    rw [nativePbkdf2_zero] at hrun
    cases hrun

lemma pbkdf2SizeSafe_of_le (hiterations : iterations ≠ 0) (hpos : 1 ≤ outputSize.toNat)
    (hsize : outputSize.toNat ≤ (2 ^ 32 - 2) * macSize algorithm) :
    Pbkdf2SizeSafe algorithm password salt iterations outputSize where
  terminates := ⟨_, _, nativePbkdf2_returned password salt hiterations hpos hsize⟩
  exact := fun _ _ => ⟨_, _, nativePbkdf2_returned password salt hiterations hpos hsize,
    length_firstElements (macSize_pos algorithm) (fun i => length_pbkdf2Block password salt
      (length_hmacOf_hashAlgorithm algorithm) (i + 1) _) _⟩
  refused := by
    intro hmore
    omega
  counter := fun _ _ hrun => nativePbkdf2_blockIndex password salt hiterations hpos hsize hrun

lemma pbkdf2SizeSafe_of_lt (hiterations : iterations ≠ 0)
    (hmore : (2 ^ 32 - 1) * macSize algorithm < outputSize.toNat)
    (hsize : outputSize.toNat ≤ 2 ^ 64 - macSize algorithm) :
    Pbkdf2SizeSafe algorithm password salt iterations outputSize where
  terminates := ⟨0, _, nativePbkdf2_refused password salt hiterations hmore hsize 0⟩
  exact := by
    intro _ hle
    omega
  refused := fun _ => ⟨0, _, nativePbkdf2_refused password salt hiterations hmore hsize 0, rfl⟩
  counter := by
    intro rounds state hrun
    rw [nativePbkdf2_refused password salt hiterations hmore hsize] at hrun
    cases hrun

/-- A request for the last block of the limit never returns, since its index is the largest there
is. -/
lemma not_pbkdf2SizeSafe_of_le (hiterations : iterations ≠ 0)
    (hmore : (2 ^ 32 - 2) * macSize algorithm < outputSize.toNat)
    (hsize : outputSize.toNat ≤ (2 ^ 32 - 1) * macSize algorithm) :
    ¬Pbkdf2SizeSafe algorithm password salt iterations outputSize := by
  intro h
  obtain ⟨rounds, outcome, hended⟩ := h.terminates
  obtain ⟨state, hrunning⟩ := nativePbkdf2_running password salt hiterations hmore hsize rounds
  rw [hrunning] at hended
  cases hended

/-- A request that cannot be rounded up is not refused, although it is far above the limit. -/
lemma not_pbkdf2SizeSafe_of_lt (hiterations : iterations ≠ 0)
    (hsize : 2 ^ 64 - macSize algorithm < outputSize.toNat) :
    ¬Pbkdf2SizeSafe algorithm password salt iterations outputSize := by
  intro h
  have hmac := macSize_le algorithm
  obtain ⟨rounds, error, hrefused, -⟩ := h.refused (by omega)
  rw [nativePbkdf2_terminated password salt hiterations hsize] at hrefused
  cases hrefused

end Sizes

/-- The sizes with the limits of the standard: all but the last block in front of the limit and
the sizes that wrap when they are rounded up. -/
theorem pbkdf2_sizeSafe_iff (algorithm : MacAlgorithm) (password salt : List UInt8)
    {iterations : UInt32} (hiterations : iterations ≠ 0) (outputSize : UInt64) :
    Pbkdf2SizeSafe algorithm password salt iterations outputSize ↔
      outputSize.toNat ≤ (2 ^ 32 - 2) * macSize algorithm ∨
        (2 ^ 32 - 1) * macSize algorithm < outputSize.toNat ∧
          outputSize.toNat ≤ 2 ^ 64 - macSize algorithm := by
  constructor
  · intro h
    by_contra hcondition
    rcases Nat.lt_or_ge ((2 ^ 32 - 1) * macSize algorithm) outputSize.toNat with hmore | hle
    · exact not_pbkdf2SizeSafe_of_lt hiterations (by omega) h
    · exact not_pbkdf2SizeSafe_of_le hiterations (by omega) hle h
  · rintro (hle | ⟨hmore, hle⟩)
    · rcases Nat.eq_zero_or_pos outputSize.toNat with hzero | hpos
      · rw [eq_zero_of_toNat hzero]
        exact pbkdf2SizeSafe_zero iterations
      · exact pbkdf2SizeSafe_of_le hiterations hpos hle
    · exact pbkdf2SizeSafe_of_lt hiterations hmore hle

/-- The limit for SHA-256, which is one block above the sizes that keep the promise. -/
theorem pbkdf2_sizeSafe_iff_limit :
    Pbkdf2SizeSafe .hmacSha256 [] [] 1 137438953440 ↔
      (137438953440 : UInt64).toNat ≤ (2 ^ 32 - 2) * macSize .hmacSha256 ∨
        (2 ^ 32 - 1) * macSize .hmacSha256 < (137438953440 : UInt64).toNat ∧
          (137438953440 : UInt64).toNat ≤ 2 ^ 64 - macSize .hmacSha256 :=
  pbkdf2_sizeSafe_iff .hmacSha256 [] [] (by decide) 137438953440

/-- The limit itself, and the largest size. -/
theorem pbkdf2_not_sizeSafe :
    ¬Pbkdf2SizeSafe .hmacSha256 [] [] 1 137438953440 ∧
      ¬Pbkdf2SizeSafe .hmacSha256 [] [] 1 0xFFFFFFFFFFFFFFFF :=
  ⟨not_pbkdf2SizeSafe_of_le (by decide) (by decide) (by decide),
    not_pbkdf2SizeSafe_of_lt (by decide) (by decide)⟩

/-! ## HKDF -/

/-- The output of the standard for the sizes of the standard, and a refusal for the others; while
there is a block to compute the counter is its number, which fits in 8 bits. -/
theorem hkdf_exact (algorithm : MacAlgorithm) (keyMaterial salt info : List UInt8)
    (outputSize : UInt64) :
    (1 ≤ outputSize.toNat → outputSize.toNat ≤ 255 * macSize algorithm →
      (∃ rounds, nativeHkdf (hkdfAlgorithm algorithm) keyMaterial salt info outputSize rounds =
        .ended (.ok (hkdf (standardMac algorithm) (macSize algorithm) keyMaterial salt info
          outputSize.toNat))) ∧
      ∀ rounds state,
        nativeHkdf (hkdfAlgorithm algorithm) keyMaterial salt info outputSize rounds =
          .running state → state.output.length < outputSize.toNat →
        rounds + 1 ≤ 255 ∧ state.counter.toNat = rounds + 1) ∧
    (outputSize.toNat = 0 ∨ 255 * macSize algorithm < outputSize.toNat →
      ∃ error, error.code = .invalidArgument ∧ ∀ rounds,
        nativeHkdf (hkdfAlgorithm algorithm) keyMaterial salt info outputSize rounds =
          .ended (.error error)) := by
  rw [← hmacOf_eq]
  refine ⟨fun hpos hsize => ⟨⟨_, nativeHkdf_returned algorithm keyMaterial salt info hpos hsize⟩,
    fun rounds state hrun hshort =>
      nativeHkdf_counter algorithm keyMaterial salt info hpos hsize hrun hshort⟩, ?_⟩
  rintro (hzero | hmore)
  · rw [eq_zero_of_toNat hzero]
    exact ⟨_, rfl, nativeHkdf_zero algorithm keyMaterial salt info⟩
  · exact ⟨_, rfl, nativeHkdf_tooLarge algorithm keyMaterial salt info hmore⟩

end CryptoCore
