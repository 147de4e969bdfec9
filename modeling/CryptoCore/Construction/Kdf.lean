import CryptoCore.Construction.Hmac
import CryptoCore.Framework.Loops
import CryptoCore.Framework.Runs

/-!
# Key derivation

The loop of PBKDF2 counts blocks in 32 bits and the loop of HKDF counts them in 8 bits. Neither has
a bound that the text of the loop gives, so each is a run that is cut off after a number of rounds
(`Framework/Runs.lean`): a statement that the code returns says after how many. Sizes are those of a
64-bit `size_t`, in which the source rounds an output size up to blocks.

A run of PBKDF2 has four possible ends, by the size that is asked for. Up to `2 ^ 32 - 2` blocks it
returns the output of the standard (`nativePbkdf2_returned`). At `2 ^ 32 - 1` blocks no index is
past the last block, and the loop goes on for ever (`nativePbkdf2_running`). More blocks are refused
(`nativePbkdf2_refused`), as long as the size can be rounded up; the last sizes of 64 bits wrap to
no block at all, and making room for them ends the process (`nativePbkdf2_terminated`). The outcome
type has a case for that.

HKDF is refused above 255 blocks, and below that its counter never wraps (`nativeHkdf_returned`,
`nativeHkdf_counter`). The invariants `Pbkdf2State.At` and `HkdfState.At` say what the state is
before each round; the standard's functions are those of `Framework/KeyDerivation.lean`.
`Properties/Kdf.lean` draws the conclusions.
-/

namespace CryptoCore

open KeyDerivation Loops Runs

/-- The key derivations of the interface: two constructions over two hashes. -/
inductive KdfAlgorithm
  | pbkdf2HmacSha256
  | pbkdf2HmacSha512
  | hkdfSha256
  | hkdfSha512
  deriving DecidableEq, Repr

/-- The error of this file. An output size that is no good is an invalid argument. -/
def kdfError (code : ErrorCode) (message : String) : Error :=
  makeError code "kdf" message

/-- The code under an algorithm of PBKDF2; the other algorithms are refused. -/
def pbkdf2Mac : KdfAlgorithm → Result MacAlgorithm
  | .pbkdf2HmacSha256 => .ok .hmacSha256
  | .pbkdf2HmacSha512 => .ok .hmacSha512
  | .hkdfSha256 | .hkdfSha512 =>
      .error (kdfError .unsupportedAlgorithm "KDF algorithm is not a PBKDF2 algorithm")

/-- The code under an algorithm of HKDF. The algorithms of the other construction are refused. -/
def hkdfMac : KdfAlgorithm → Result MacAlgorithm
  | .hkdfSha256 => .ok .hmacSha256
  | .hkdfSha512 => .ok .hmacSha512
  | .pbkdf2HmacSha256 | .pbkdf2HmacSha512 =>
      .error (kdfError .unsupportedAlgorithm "KDF algorithm is not an HKDF algorithm")

/-- Four bytes of a number, the most significant first, behind what is there. -/
def appendBe32 (out : List UInt8) (value : UInt32) : List UInt8 :=
  out ++ [(value >>> 24).toUInt8, (value >>> 16).toUInt8, (value >>> 8).toUInt8, value.toUInt8]

/-- The end of a function that must not throw: it returns, or an exception reaches its border and
the program is terminated. -/
inductive Outcome (α : Type)
  | returned (result : Result α)
  | terminated

/-! ## PBKDF2 -/

/-- The variables of the loop over the blocks. The index is a word of 32 bits and starts at one. -/
structure Pbkdf2State where
  blockIndex : UInt32 := 1
  blockInput : List UInt8
  output : List UInt8 := []

/-- One more iteration: the code of the code before it, added to the sum. -/
def pbkdf2Iteration (algorithm : MacAlgorithm) (password : List UInt8)
    (state : List UInt8 × List UInt8) : Result (List UInt8 × List UInt8) := do
  let (u, t) := state
  let u ← mac algorithm password u
  return (u, List.zipWith (· ^^^ ·) t u)

/-- The sum of the codes of a block: the first one, and one more for each further iteration. -/
def pbkdf2T (algorithm : MacAlgorithm) (password blockInput : List UInt8) (iterations : UInt32) :
    Result (List UInt8) := do
  let u ← mac algorithm password blockInput
  let (_, t) ← loopUpM (fun _ => pbkdf2Iteration algorithm password) (iterations.toNat - 1) (u, u)
  return t

/-- A round of the loop over the blocks, which goes on as long as the index is not past the last
block. -/
def pbkdf2Round (algorithm : MacAlgorithm) (password : List UInt8) (saltSize : ℕ)
    (iterations : UInt32) (outputSize : UInt64) (blocks : UInt32) (state : Pbkdf2State) :
    Progress Pbkdf2State (Outcome ByteBuffer) :=
  if state.blockIndex ≤ blocks then
    let blockInput := appendBe32 (resize saltSize 0 state.blockInput) state.blockIndex
    match pbkdf2T algorithm password blockInput iterations with
    | .error e => .ended (.returned (.error e))
    | .ok t =>
        let remaining := outputSize - UInt64.ofNat state.output.length
        let take := min remaining.toNat t.length
        .running {
          -- Wraps at the last index of the type: with as many blocks as that, the loop never ends.
          blockIndex := state.blockIndex + 1
          blockInput
          output := state.output ++ t.take take }
  else .ended (.returned (.ok state.output))

/-- The number of blocks, rounded up in `size_t`, where the sum can wrap around. -/
def pbkdf2Blocks (algorithm : MacAlgorithm) (outputSize : UInt64) : UInt64 :=
  let digestSize := UInt64.ofNat (macSize algorithm)
  (outputSize + digestSize - 1) / digestSize

/-- The run of `native_pbkdf2` with a number of rounds of its loop. -/
def nativePbkdf2 (algorithm : KdfAlgorithm) (password salt : List UInt8) (iterations : UInt32)
    (outputSize : UInt64) (rounds : ℕ) : Progress Pbkdf2State (Outcome ByteBuffer) :=
  if iterations == 0 || outputSize == 0 then
    .ended (.returned (.error (kdfError .invalidArgument
      "PBKDF2 iterations and output size must be non-zero")))
  else
    match pbkdf2Mac algorithm with
    | .error e => .ended (.returned (.error e))
    | .ok macAlgorithm =>
        let blocks := pbkdf2Blocks macAlgorithm outputSize
        if blocks > 0xFFFFFFFF then
          .ended (.returned (.error (kdfError .invalidArgument "PBKDF2 output size is too large")))
        -- The `reserve` of a `noexcept` function throws.
        else if outputSize.toNat > maxVectorSize then .ended .terminated
        else
          Progress.after
            (pbkdf2Round macAlgorithm password salt.length iterations outputSize blocks.toUInt32)
            (.running { blockInput := salt }) rounds

/-! ## HKDF -/

/-- The variables of the loop over the blocks; the counter has one byte. -/
structure HkdfState where
  counter : UInt8 := 1
  previous : List UInt8 := []
  output : List UInt8 := []

/-- The next block, by a context that takes its input in three parts. -/
def hkdfT (algorithm : MacAlgorithm) (prk previous info : List UInt8) (counter : UInt8) :
    Result ByteBuffer := do
  let context ← createMac algorithm prk
  let (updated, context) := context.update previous
  updated
  let (updated, context) := context.update info
  updated
  let (updated, context) := context.update [counter]
  updated
  context.final.1

/-- A round of the loop over the blocks, which goes on as long as the output is too short. -/
def hkdfRound (algorithm : MacAlgorithm) (prk info : List UInt8) (outputSize : UInt64)
    (state : HkdfState) : Progress HkdfState (Result ByteBuffer) :=
  if state.output.length < outputSize.toNat then
    match hkdfT algorithm prk state.previous info state.counter with
    | .error e => .ended (.error e)
    | .ok t =>
        let remaining := outputSize - UInt64.ofNat state.output.length
        let take := min remaining.toNat t.length
        .running
          { counter := state.counter + 1, previous := t, output := state.output ++ t.take take }
  else .ended (.ok state.output)

/-- The run of `native_hkdf` with a number of rounds of its loop. -/
def nativeHkdf (algorithm : KdfAlgorithm) (inputKeyMaterial salt info : List UInt8)
    (outputSize : UInt64) (rounds : ℕ) : Progress HkdfState (Result ByteBuffer) :=
  if outputSize == 0 then
    .ended (.error (kdfError .invalidArgument "HKDF output size must be non-zero"))
  else
    match hkdfMac algorithm with
    | .error e => .ended (.error e)
    | .ok macAlgorithm =>
        let digestSize := macSize macAlgorithm
        if outputSize > 255 * UInt64.ofNat digestSize then
          .ended (.error (kdfError .invalidArgument "HKDF output size is too large"))
        else
          let zeroSalt := List.replicate digestSize 0
          -- No salt is a salt of zeros, as long as a digest.
          let saltSpan := if salt.isEmpty then zeroSalt else salt
          match mac macAlgorithm saltSpan inputKeyMaterial with
          | .error e => .ended (.error e)
          | .ok prk =>
              Progress.after (hkdfRound macAlgorithm prk info outputSize) (.running {}) rounds

/-! ## The rounds of PBKDF2 -/

/-- The algorithm of PBKDF2 over a code, so that statements can range over codes. -/
def pbkdf2Algorithm : MacAlgorithm → KdfAlgorithm
  | .hmacSha256 => .pbkdf2HmacSha256
  | .hmacSha512 => .pbkdf2HmacSha512

/-- The algorithm of HKDF over a code, so that statements can range over codes. -/
def hkdfAlgorithm : MacAlgorithm → KdfAlgorithm
  | .hmacSha256 => .hkdfSha256
  | .hmacSha512 => .hkdfSha512

lemma pbkdf2Mac_eq (algorithm : MacAlgorithm) :
    pbkdf2Mac (pbkdf2Algorithm algorithm) = .ok algorithm := by
  cases algorithm <;> rfl

lemma hkdfMac_eq (algorithm : MacAlgorithm) :
    hkdfMac (hkdfAlgorithm algorithm) = .ok algorithm := by
  cases algorithm <;> rfl

/-- A code has at least one byte, which the rounding divides by. -/
lemma macSize_pos (algorithm : MacAlgorithm) : 0 < macSize algorithm := by
  cases algorithm <;> decide

lemma macSize_le (algorithm : MacAlgorithm) : macSize algorithm ≤ 64 := by
  cases algorithm <;> decide

lemma length_hmacOf_hashAlgorithm (algorithm : MacAlgorithm) (key message : List UInt8) :
    (hmacOf algorithm.hashAlgorithm key message).length = macSize algorithm := by
  rw [length_hmacOf, digestSize_hashAlgorithm]

/-- The four bytes of a number, also of one that does not fit into them. -/
lemma appendBe32_eq (out : List UInt8) (n : ℕ) :
    appendBe32 out (UInt32.ofNat n) = out ++ ByteStrings.beBytes 4 n := by
  simp only [appendBe32, ByteStrings.beBytes, List.nil_append, List.cons_append,
    List.append_cancel_left_eq, List.cons.injEq, and_true, ← UInt8.toNat_inj,
    UInt32.toNat_toUInt8, UInt32.toNat_shiftRight, UInt32.toNat_ofNat', UInt8.toNat_ofNat',
    Nat.shiftRight_eq_div_pow, UInt32.reduceToNat, Nat.reduceMod, Nat.reducePow]
  omega

/-- The codes of a block never fail, and add up to the block of the standard. -/
lemma pbkdf2T_eq (algorithm : MacAlgorithm) (password salt : List UInt8) (i : ℕ)
    (iterations : UInt32) :
    pbkdf2T algorithm password (salt ++ ByteStrings.beBytes 4 i) iterations =
      .ok (pbkdf2Block (hmacOf algorithm.hashAlgorithm) password salt i
        (iterations.toNat - 1)) := by
  have hiteration : ∀ j < iterations.toNat - 1, ∀ state : List UInt8 × List UInt8,
      (state.1 = iteratedPrf (hmacOf algorithm.hashAlgorithm) password salt i j ∧
        state.2 = pbkdf2Block (hmacOf algorithm.hashAlgorithm) password salt i j) →
      ∃ next, pbkdf2Iteration algorithm password state = .ok next ∧
        next.1 = iteratedPrf (hmacOf algorithm.hashAlgorithm) password salt i (j + 1) ∧
        next.2 = pbkdf2Block (hmacOf algorithm.hashAlgorithm) password salt i (j + 1) := by
    rintro j - ⟨u, t⟩ ⟨rfl, rfl⟩
    exact ⟨_, by rw [pbkdf2Iteration, mac_eq, ok_bind]; rfl, rfl, rfl⟩
  obtain ⟨⟨u, t⟩, hloop, -, rfl⟩ := loopUpM_invariant (fun _ => pbkdf2Iteration algorithm password)
    (fun j state => state.1 = iteratedPrf (hmacOf algorithm.hashAlgorithm) password salt i j ∧
      state.2 = pbkdf2Block (hmacOf algorithm.hashAlgorithm) password salt i j)
    (s := (iteratedPrf (hmacOf algorithm.hashAlgorithm) password salt i 0,
      iteratedPrf (hmacOf algorithm.hashAlgorithm) password salt i 0)) ⟨rfl, rfl⟩ hiteration
  have hfirst : hmacOf algorithm.hashAlgorithm password (salt ++ ByteStrings.beBytes 4 i) =
      iteratedPrf (hmacOf algorithm.hashAlgorithm) password salt i 0 := rfl
  rw [pbkdf2T, mac_eq, ok_bind, hfirst, hloop]
  rfl

/-- The state before round `i`. The index wraps where four bytes of `i + 1` do. -/
structure Pbkdf2State.At (algorithm : MacAlgorithm) (password salt : List UInt8) (c size i : ℕ)
    (state : Pbkdf2State) : Prop where
  blockIndex : state.blockIndex = UInt32.ofNat (i + 1)
  blockInput : salt <+: state.blockInput
  output : state.output = (firstBlocks (fun i =>
    pbkdf2Block (hmacOf algorithm.hashAlgorithm) password salt i c) i).take size

/-- Cutting the input of a block back to the salt removes the index of the block before. -/
lemma resize_of_prefix {salt bytes : List UInt8} (h : salt <+: bytes) :
    resize salt.length 0 bytes = salt := by
  obtain ⟨rest, rfl⟩ := h
  simp [resize]

/-- What remains to be written, as a number: the subtraction does not wrap. -/
lemma toNat_remaining {output : List UInt8} {size : UInt64} (h : output.length ≤ size.toNat) :
    (size - UInt64.ofNat output.length).toNat = size.toNat - output.length := by
  have hlt := size.toNat_lt
  have hlength : (UInt64.ofNat output.length).toNat = output.length :=
    UInt64.toNat_ofNat_of_lt' (h.trans_lt hlt)
  rw [UInt64.toNat_sub_of_le _ _ (by rw [UInt64.le_iff_toNat_le, hlength]; exact h), hlength]

section Rounds

variable {algorithm : MacAlgorithm} {password salt : List UInt8} {iterations : UInt32}
  {outputSize : UInt64} {blocks : UInt32} {state : Pbkdf2State} {i : ℕ}

/-- A round adds a block, as far as there is room for it. -/
lemma pbkdf2Round_running
    (h : state.At algorithm password salt (iterations.toNat - 1) outputSize.toNat i)
    (hindex : UInt32.ofNat (i + 1) ≤ blocks) :
    ∃ next, pbkdf2Round algorithm password salt.length iterations outputSize blocks state =
        .running next ∧
      next.At algorithm password salt (iterations.toNat - 1) outputSize.toNat (i + 1) := by
  have hle : state.output.length ≤ outputSize.toNat := by
    rw [h.output, List.length_take]
    exact min_le_left _ _
  rw [pbkdf2Round, h.blockIndex, if_pos hindex, resize_of_prefix h.blockInput, appendBe32_eq]
  simp only [pbkdf2T_eq]
  refine ⟨_, rfl, ?_, List.prefix_append _ _, ?_⟩
  · exact (UInt32.ofNat_add (i + 1) 1).symm
  · rw [← take_firstBlocks_succ, ← h.output]
    dsimp only
    rw [toNat_remaining hle, ← List.take_eq_take_min]

/-- Past the last block the loop returns what it has collected. -/
lemma pbkdf2Round_ended
    (h : state.At algorithm password salt (iterations.toNat - 1) outputSize.toNat i)
    (hindex : ¬UInt32.ofNat (i + 1) ≤ blocks) :
    pbkdf2Round algorithm password salt.length iterations outputSize blocks state =
      .ended (.returned (.ok state.output)) := by
  rw [pbkdf2Round, h.blockIndex, if_neg hindex]

variable (algorithm password salt iterations outputSize) in
/-- The loop goes on as long as the index is not past the last block. -/
lemma pbkdf2Loop_running {rounds : ℕ} (hindex : ∀ i < rounds, UInt32.ofNat (i + 1) ≤ blocks) :
    ∃ state, Progress.after
        (pbkdf2Round algorithm password salt.length iterations outputSize blocks)
        (.running { blockInput := salt }) rounds = .running state ∧
      state.At algorithm password salt (iterations.toNat - 1) outputSize.toNat rounds := by
  refine Progress.after_invariant
    (fun i (state : Pbkdf2State) =>
      state.At algorithm password salt (iterations.toNat - 1) outputSize.toNat i)
    ⟨rfl, List.prefix_rfl, by simp⟩ ?_
  intro i hi state h
  exact pbkdf2Round_running h (hindex i hi)

/-- The loop ends behind the last block, unless that is the last index there is. -/
lemma pbkdf2Loop_ended (hblocks : blocks.toNat < 2 ^ 32 - 1) :
    Progress.after (pbkdf2Round algorithm password salt.length iterations outputSize blocks)
        (.running { blockInput := salt }) (blocks.toNat + 1) =
      .ended (.returned (.ok ((firstBlocks (fun i => pbkdf2Block (hmacOf algorithm.hashAlgorithm)
        password salt i (iterations.toNat - 1)) blocks.toNat).take outputSize.toNat))) := by
  have hofNat : ∀ i ≤ blocks.toNat, (UInt32.ofNat (i + 1)).toNat = i + 1 :=
    fun i hi => UInt32.toNat_ofNat_of_lt' (Nat.lt_of_le_of_lt (Nat.add_le_add_right hi 1)
      (Nat.add_lt_of_lt_sub hblocks))
  have hindex : ∀ i < blocks.toNat, UInt32.ofNat (i + 1) ≤ blocks := by
    intro i hi
    rw [UInt32.le_iff_toNat_le, hofNat i hi.le]
    omega
  have hlast : ¬UInt32.ofNat (blocks.toNat + 1) ≤ blocks := by
    rw [UInt32.le_iff_toNat_le, hofNat _ le_rfl]
    omega
  obtain ⟨state, hrun, h⟩ :=
    pbkdf2Loop_running algorithm password salt iterations outputSize hindex
  rw [← h.output]
  exact Progress.after_succ_ended hrun (pbkdf2Round_ended h hlast)

end Rounds

/-! ## The number of blocks -/

section Blocks

variable {algorithm : MacAlgorithm} {outputSize : UInt64}

lemma toNat_macSize (algorithm : MacAlgorithm) :
    (UInt64.ofNat (macSize algorithm)).toNat = macSize algorithm := by
  cases algorithm <;> rfl

/-- The number of blocks as the source computes it, with the sum taken modulo `2 ^ 64`. -/
lemma toNat_pbkdf2Blocks (algorithm : MacAlgorithm) (outputSize : UInt64) :
    (pbkdf2Blocks algorithm outputSize).toNat =
      (outputSize.toNat + macSize algorithm - 1) % 2 ^ 64 / macSize algorithm := by
  have hpos := macSize_pos algorithm
  have hone : (1 : UInt64).toNat = 1 := rfl
  rw [pbkdf2Blocks, UInt64.toNat_div, UInt64.toNat_sub, UInt64.toNat_add, toNat_macSize, hone]
  congr 1
  omega

lemma toNat_pbkdf2Blocks_of_le (hsize : outputSize.toNat + macSize algorithm ≤ 2 ^ 64) :
    (pbkdf2Blocks algorithm outputSize).toNat =
      (outputSize.toNat + macSize algorithm - 1) / macSize algorithm := by
  have hpos := macSize_pos algorithm
  rw [toNat_pbkdf2Blocks, Nat.mod_eq_of_lt (by omega)]

lemma toNat_pbkdf2Blocks_of_lt (hsize : 2 ^ 64 < outputSize.toNat + macSize algorithm) :
    (pbkdf2Blocks algorithm outputSize).toNat = 0 := by
  have hlt := outputSize.toNat_lt
  have hpos := macSize_pos algorithm
  have hle := macSize_le algorithm
  rw [toNat_pbkdf2Blocks, Nat.mod_eq_sub_mod (by omega), Nat.mod_eq_of_lt (by omega),
    Nat.div_eq_of_lt (by omega)]

end Blocks

/-! ## The runs of PBKDF2 -/

section Runs

variable {algorithm : MacAlgorithm} (password salt : List UInt8) {iterations : UInt32}
  {outputSize : UInt64}

/-- More rounds only continue a run, and an end is kept. -/
lemma isRun_nativePbkdf2 (algorithm : KdfAlgorithm) (iterations : UInt32) (outputSize : UInt64) :
    Progress.IsRun (nativePbkdf2 algorithm password salt iterations outputSize) := by
  unfold nativePbkdf2
  split
  · exact Progress.isRun_ended _
  · split
    · exact Progress.isRun_ended _
    · dsimp only
      split
      · exact Progress.isRun_ended _
      · split
        · exact Progress.isRun_ended _
        · exact Progress.isRun_after _ _

lemma nativePbkdf2_zero (iterations : UInt32) (rounds : ℕ) :
    nativePbkdf2 (pbkdf2Algorithm algorithm) password salt iterations 0 rounds =
      .ended (.returned (.error (kdfError .invalidArgument
        "PBKDF2 iterations and output size must be non-zero"))) := by
  rw [nativePbkdf2, if_pos (by simp)]

/-- Once the checks are passed, the run is that of the loop. -/
lemma nativePbkdf2_loop (hiterations : iterations ≠ 0) (hsize : outputSize ≠ 0)
    (hblocks : (pbkdf2Blocks algorithm outputSize).toNat < 2 ^ 32)
    (hvector : outputSize.toNat ≤ maxVectorSize) (rounds : ℕ) :
    nativePbkdf2 (pbkdf2Algorithm algorithm) password salt iterations outputSize rounds =
      Progress.after (pbkdf2Round algorithm password salt.length iterations outputSize
        (pbkdf2Blocks algorithm outputSize).toUInt32) (.running { blockInput := salt }) rounds := by
  have hlimit : ¬pbkdf2Blocks algorithm outputSize > 0xFFFFFFFF := by
    simp only [gt_iff_lt, UInt64.lt_iff_toNat_lt, UInt64.reduceToNat]
    omega
  rw [nativePbkdf2, if_neg (by simp [hiterations, hsize])]
  simp only [pbkdf2Mac_eq]
  rw [if_neg hlimit, if_neg (by omega)]

lemma nativePbkdf2_tooLarge (hiterations : iterations ≠ 0) (hsize : outputSize ≠ 0)
    (hblocks : 2 ^ 32 ≤ (pbkdf2Blocks algorithm outputSize).toNat) (rounds : ℕ) :
    nativePbkdf2 (pbkdf2Algorithm algorithm) password salt iterations outputSize rounds =
      .ended
        (.returned (.error (kdfError .invalidArgument "PBKDF2 output size is too large"))) := by
  have hlimit : pbkdf2Blocks algorithm outputSize > 0xFFFFFFFF := by
    simp only [gt_iff_lt, UInt64.lt_iff_toNat_lt, UInt64.reduceToNat]
    omega
  rw [nativePbkdf2, if_neg (by simp [hiterations, hsize])]
  simp only [pbkdf2Mac_eq]
  rw [if_pos hlimit]

lemma eq_zero_of_toNat {size : UInt64} (hzero : size.toNat = 0) : size = 0 :=
  UInt64.toNat_inj.mp hzero

lemma ne_zero_of_toNat_pos {size : UInt64} (hpos : 1 ≤ size.toNat) : size ≠ 0 := by
  rintro rfl
  exact absurd hpos (by decide)

lemma toNat_toUInt32_pbkdf2Blocks (hblocks : (pbkdf2Blocks algorithm outputSize).toNat < 2 ^ 32) :
    (pbkdf2Blocks algorithm outputSize).toUInt32.toNat =
      (pbkdf2Blocks algorithm outputSize).toNat := by
  rw [UInt64.toNat_toUInt32]
  exact Nat.mod_eq_of_lt hblocks

/-- What sizes of at most `2 ^ 32 - 2` blocks pass. -/
lemma pbkdf2_sizes (hpos : 1 ≤ outputSize.toNat)
    (hsize : outputSize.toNat ≤ (2 ^ 32 - 2) * macSize algorithm) :
    outputSize ≠ 0 ∧ outputSize.toNat ≤ maxVectorSize ∧
      (pbkdf2Blocks algorithm outputSize).toNat =
        (outputSize.toNat + macSize algorithm - 1) / macSize algorithm ∧
      (pbkdf2Blocks algorithm outputSize).toNat < 2 ^ 32 - 1 := by
  have hmac := macSize_le algorithm
  have hcount : (pbkdf2Blocks algorithm outputSize).toNat =
      (outputSize.toNat + macSize algorithm - 1) / macSize algorithm :=
    toNat_pbkdf2Blocks_of_le (by omega)
  refine ⟨ne_zero_of_toNat_pos hpos, ?_, hcount, ?_⟩
  · rw [maxVectorSize]
    omega
  · rw [hcount, Nat.div_lt_iff_lt_mul (macSize_pos algorithm)]
    omega

/-- Sizes of at most `2 ^ 32 - 2` blocks: the run ends with the output of the standard. -/
lemma nativePbkdf2_returned (hiterations : iterations ≠ 0) (hpos : 1 ≤ outputSize.toNat)
    (hsize : outputSize.toNat ≤ (2 ^ 32 - 2) * macSize algorithm) :
    nativePbkdf2 (pbkdf2Algorithm algorithm) password salt iterations outputSize
        ((pbkdf2Blocks algorithm outputSize).toNat + 1) =
      .ended (.returned (.ok (pbkdf2 (hmacOf algorithm.hashAlgorithm) (macSize algorithm) password
        salt iterations.toNat outputSize.toNat))) := by
  obtain ⟨hzero, hvector, hcount, hlt⟩ := pbkdf2_sizes hpos hsize
  have hblocks := toNat_toUInt32_pbkdf2Blocks (hlt.trans (by decide))
  rw [nativePbkdf2_loop password salt hiterations hzero (hlt.trans (by decide)) hvector,
    ← hblocks, pbkdf2Loop_ended (hblocks ▸ hlt), hblocks, hcount]
  rfl

/-- Before they end, these runs count the blocks without wrapping. -/
lemma nativePbkdf2_blockIndex (hiterations : iterations ≠ 0) (hpos : 1 ≤ outputSize.toNat)
    (hsize : outputSize.toNat ≤ (2 ^ 32 - 2) * macSize algorithm) {rounds : ℕ}
    {state : Pbkdf2State}
    (hrun : nativePbkdf2 (pbkdf2Algorithm algorithm) password salt iterations outputSize rounds =
      .running state) : state.blockIndex.toNat = rounds + 1 := by
  obtain ⟨hzero, hvector, -, hlt⟩ := pbkdf2_sizes hpos hsize
  have hrounds := (isRun_nativePbkdf2 password salt _ iterations outputSize).lt_of_running hrun
    (nativePbkdf2_returned password salt hiterations hpos hsize)
  have hofNat : ∀ i ≤ rounds, (UInt32.ofNat (i + 1)).toNat = i + 1 :=
    fun i hi => UInt32.toNat_ofNat_of_lt' (show i + 1 < 2 ^ 32 by omega)
  have hindex : ∀ i < rounds,
      UInt32.ofNat (i + 1) ≤ (pbkdf2Blocks algorithm outputSize).toUInt32 := by
    intro i hi
    rw [UInt32.le_iff_toNat_le, hofNat i hi.le, toNat_toUInt32_pbkdf2Blocks (by omega)]
    omega
  obtain ⟨reached, hreached, h⟩ :=
    pbkdf2Loop_running algorithm password salt iterations outputSize hindex
  rw [nativePbkdf2_loop password salt hiterations hzero (by omega) hvector, hreached] at hrun
  rw [← Progress.running.inj hrun, h.blockIndex, hofNat rounds le_rfl]

/-- Sizes of `2 ^ 32 - 1` blocks: no index is past the last block. -/
lemma nativePbkdf2_running (hiterations : iterations ≠ 0)
    (hmore : (2 ^ 32 - 2) * macSize algorithm < outputSize.toNat)
    (hsize : outputSize.toNat ≤ (2 ^ 32 - 1) * macSize algorithm) (rounds : ℕ) :
    ∃ state, nativePbkdf2 (pbkdf2Algorithm algorithm) password salt iterations outputSize rounds =
      .running state := by
  have hmac := macSize_le algorithm
  have hpos := macSize_pos algorithm
  have hcount : (pbkdf2Blocks algorithm outputSize).toNat = 2 ^ 32 - 1 := by
    rw [toNat_pbkdf2Blocks_of_le (by omega), Nat.div_eq_iff hpos]
    omega
  have hvector : outputSize.toNat ≤ maxVectorSize := by
    rw [maxVectorSize]
    omega
  have hlast : ∀ index : UInt32, index ≤ (pbkdf2Blocks algorithm outputSize).toUInt32 := by
    intro index
    have hlt := index.toNat_lt
    rw [UInt32.le_iff_toNat_le, toNat_toUInt32_pbkdf2Blocks (by omega), hcount]
    omega
  obtain ⟨state, hrun, -⟩ := pbkdf2Loop_running algorithm password salt iterations outputSize
    fun (i : ℕ) (_ : i < rounds) => hlast (UInt32.ofNat (i + 1))
  exact ⟨state, by rw [nativePbkdf2_loop password salt hiterations
    (ne_zero_of_toNat_pos (by omega)) (by omega) hvector, hrun]⟩

/-- Sizes of more blocks are refused as long as they can be rounded up. -/
lemma nativePbkdf2_refused (hiterations : iterations ≠ 0)
    (hmore : (2 ^ 32 - 1) * macSize algorithm < outputSize.toNat)
    (hsize : outputSize.toNat ≤ 2 ^ 64 - macSize algorithm) (rounds : ℕ) :
    nativePbkdf2 (pbkdf2Algorithm algorithm) password salt iterations outputSize rounds =
      .ended
        (.returned (.error (kdfError .invalidArgument "PBKDF2 output size is too large"))) := by
  have hmac := macSize_le algorithm
  have hpos := macSize_pos algorithm
  have hcount : 2 ^ 32 ≤ (pbkdf2Blocks algorithm outputSize).toNat := by
    rw [toNat_pbkdf2Blocks_of_le (by omega), Nat.le_div_iff_mul_le hpos]
    omega
  exact nativePbkdf2_tooLarge password salt hiterations (ne_zero_of_toNat_pos (by omega)) hcount
    rounds

/-- The last sizes of 64 bits wrap to no block at all, and no vector can be so large. -/
lemma nativePbkdf2_terminated (hiterations : iterations ≠ 0)
    (hsize : 2 ^ 64 - macSize algorithm < outputSize.toNat) (rounds : ℕ) :
    nativePbkdf2 (pbkdf2Algorithm algorithm) password salt iterations outputSize rounds =
      .ended .terminated := by
  have hmac := macSize_le algorithm
  have hcount : (pbkdf2Blocks algorithm outputSize).toNat = 0 :=
    toNat_pbkdf2Blocks_of_lt (by omega)
  have hlimit : ¬pbkdf2Blocks algorithm outputSize > 0xFFFFFFFF := by
    simp only [gt_iff_lt, UInt64.lt_iff_toNat_lt, UInt64.reduceToNat]
    omega
  have hvector : outputSize.toNat > maxVectorSize := by
    rw [maxVectorSize]
    omega
  have hzero : outputSize ≠ 0 := ne_zero_of_toNat_pos (by omega)
  rw [nativePbkdf2, if_neg (by simp [hiterations, hzero])]
  simp only [pbkdf2Mac_eq]
  rw [if_neg hlimit, if_pos hvector]

end Runs

/-! ## The rounds of HKDF -/

lemma hkdfT_eq (algorithm : MacAlgorithm) (prk previous info : List UInt8) (counter : UInt8) :
    hkdfT algorithm prk previous info counter =
      .ok (hmacOf algorithm.hashAlgorithm prk (previous ++ info ++ [counter])) := by
  obtain ⟨first, hfirst, h⟩ :=
    (HmacContext.after_create algorithm.hashAlgorithm prk).update previous
  obtain ⟨second, hsecond, h⟩ := h.update info
  obtain ⟨third, hthird, h⟩ := h.update [counter]
  obtain ⟨closed, hclosed, -⟩ := h.final
  simp only [hkdfT, createMac_eq, ok_bind, hfirst, hsecond, hthird, hclosed, List.nil_append]

/-- The state before round `i`: the number of the next block, the block before it, and the output so
far. -/
structure HkdfState.At (algorithm : MacAlgorithm) (prk info : List UInt8) (size i : ℕ)
    (state : HkdfState) : Prop where
  counter : state.counter = UInt8.ofNat (i + 1)
  previous : state.previous = hkdfBlock (hmacOf algorithm.hashAlgorithm) prk info i
  output : state.output =
    (firstBlocks (hkdfBlock (hmacOf algorithm.hashAlgorithm) prk info) i).take size

section Rounds

variable {algorithm : MacAlgorithm} {prk info : List UInt8} {outputSize : UInt64}
  {state : HkdfState} {i : ℕ}

lemma HkdfState.At.length_output (h : state.At algorithm prk info outputSize.toNat i) :
    state.output.length = min outputSize.toNat (i * macSize algorithm) := by
  rw [h.output, List.length_take, length_firstBlocks fun i =>
    length_hkdfBlock (length_hmacOf_hashAlgorithm algorithm) prk info i]

/-- A round adds a block while the output is short. -/
lemma hkdfRound_running (h : state.At algorithm prk info outputSize.toNat i)
    (hshort : i * macSize algorithm < outputSize.toNat) :
    ∃ next, hkdfRound algorithm prk info outputSize state = .running next ∧
      next.At algorithm prk info outputSize.toNat (i + 1) := by
  have hlength := h.length_output
  have hle : state.output.length ≤ outputSize.toNat := hlength.trans_le (min_le_left _ _)
  have hT : hkdfT algorithm prk state.previous info state.counter =
      .ok (hkdfBlock (hmacOf algorithm.hashAlgorithm) prk info (i + 1)) := by
    rw [hkdfT_eq, h.previous, h.counter]
    rfl
  rw [hkdfRound, if_pos (by omega), hT]
  refine ⟨_, rfl, ?_, rfl, ?_⟩
  · rw [h.counter]
    exact (UInt8.ofNat_add (i + 1) 1).symm
  · rw [← take_firstBlocks_succ, ← h.output]
    dsimp only
    rw [toNat_remaining hle, ← List.take_eq_take_min]

lemma hkdfRound_ended (h : state.At algorithm prk info outputSize.toNat i)
    (hfull : outputSize.toNat ≤ i * macSize algorithm) :
    hkdfRound algorithm prk info outputSize state = .ended (.ok state.output) := by
  have hlength := h.length_output
  rw [hkdfRound, if_neg (by omega)]

variable (algorithm prk info outputSize) in
/-- The loop goes on as long as the output is short. -/
lemma hkdfLoop_running {rounds : ℕ}
    (hshort : ∀ i < rounds, i * macSize algorithm < outputSize.toNat) :
    ∃ state, Progress.after (hkdfRound algorithm prk info outputSize) (.running {}) rounds =
        .running state ∧ state.At algorithm prk info outputSize.toNat rounds := by
  refine Progress.after_invariant
    (fun i (state : HkdfState) => state.At algorithm prk info outputSize.toNat i)
    ⟨rfl, rfl, by simp⟩ ?_
  intro i hi state h
  exact hkdfRound_running h (hshort i hi)

variable (algorithm prk info outputSize) in
/-- The loop ends after as many rounds as there are blocks, with the output cut to size. -/
lemma hkdfLoop_ended :
    Progress.after (hkdfRound algorithm prk info outputSize) (.running {})
        ((outputSize.toNat + macSize algorithm - 1) / macSize algorithm + 1) =
      .ended (.ok (firstElements (hkdfBlock (hmacOf algorithm.hashAlgorithm) prk info)
        (macSize algorithm) outputSize.toNat)) := by
  have hpos := macSize_pos algorithm
  obtain ⟨state, hrun, h⟩ := hkdfLoop_running algorithm prk info outputSize
    fun i hi => (lt_ceilDiv_iff hpos i).mp hi
  rw [firstElements, ← h.output]
  exact Progress.after_succ_ended hrun (hkdfRound_ended h (le_ceilDiv_mul hpos _))

end Rounds

/-! ## The runs of HKDF -/

section Runs

variable (algorithm : MacAlgorithm) (keyMaterial salt info : List UInt8) {outputSize : UInt64}

lemma isRun_nativeHkdf (algorithm : KdfAlgorithm) (outputSize : UInt64) :
    Progress.IsRun (nativeHkdf algorithm keyMaterial salt info outputSize) := by
  unfold nativeHkdf
  split
  · exact Progress.isRun_ended _
  · split
    · exact Progress.isRun_ended _
    · dsimp only
      split
      · exact Progress.isRun_ended _
      · split
        · exact Progress.isRun_ended _
        · exact Progress.isRun_after _ _

lemma nativeHkdf_zero (rounds : ℕ) :
    nativeHkdf (hkdfAlgorithm algorithm) keyMaterial salt info 0 rounds =
      .ended (.error (kdfError .invalidArgument "HKDF output size must be non-zero")) := by
  rw [nativeHkdf, if_pos (by simp)]

/-- The limit in the width of `size_t` is that of numbers. -/
lemma lt_hkdfLimit_iff :
    outputSize > 255 * UInt64.ofNat (macSize algorithm) ↔
      255 * macSize algorithm < outputSize.toNat := by
  rw [gt_iff_lt, UInt64.lt_iff_toNat_lt]
  cases algorithm <;> rfl

lemma nativeHkdf_tooLarge (hsize : 255 * macSize algorithm < outputSize.toNat) (rounds : ℕ) :
    nativeHkdf (hkdfAlgorithm algorithm) keyMaterial salt info outputSize rounds =
      .ended (.error (kdfError .invalidArgument "HKDF output size is too large")) := by
  have hzero : outputSize ≠ 0 := ne_zero_of_toNat_pos (by omega)
  rw [nativeHkdf, if_neg (by simpa using hzero)]
  simp only [hkdfMac_eq]
  rw [if_pos ((lt_hkdfLimit_iff algorithm).mpr hsize)]

/-- Once the checks are passed, the run is that of the loop. -/
lemma nativeHkdf_loop (hpos : 1 ≤ outputSize.toNat)
    (hsize : outputSize.toNat ≤ 255 * macSize algorithm) (rounds : ℕ) :
    nativeHkdf (hkdfAlgorithm algorithm) keyMaterial salt info outputSize rounds =
      Progress.after (hkdfRound algorithm (hkdfExtract (hmacOf algorithm.hashAlgorithm)
        (macSize algorithm) salt keyMaterial) info outputSize) (.running {}) rounds := by
  have hzero : outputSize ≠ 0 := ne_zero_of_toNat_pos hpos
  rw [nativeHkdf, if_neg (by simpa using hzero)]
  simp only [hkdfMac_eq, mac_eq, List.isEmpty_iff]
  rw [if_neg (mt (lt_hkdfLimit_iff algorithm).mp (by omega)), hkdfExtract]

lemma nativeHkdf_returned (hpos : 1 ≤ outputSize.toNat)
    (hsize : outputSize.toNat ≤ 255 * macSize algorithm) :
    nativeHkdf (hkdfAlgorithm algorithm) keyMaterial salt info outputSize
        ((outputSize.toNat + macSize algorithm - 1) / macSize algorithm + 1) =
      .ended (.ok (hkdf (hmacOf algorithm.hashAlgorithm) (macSize algorithm) keyMaterial salt info
        outputSize.toNat)) := by
  rw [nativeHkdf_loop algorithm keyMaterial salt info hpos hsize, hkdfLoop_ended]
  rfl

/-- A state of the run from which another block is computed has counted without wrapping. -/
lemma nativeHkdf_counter (hpos : 1 ≤ outputSize.toNat)
    (hsize : outputSize.toNat ≤ 255 * macSize algorithm) {rounds : ℕ} {state : HkdfState}
    (hrun : nativeHkdf (hkdfAlgorithm algorithm) keyMaterial salt info outputSize rounds =
      .running state) (hshort : state.output.length < outputSize.toNat) :
    rounds + 1 ≤ 255 ∧ state.counter.toNat = rounds + 1 := by
  have hmac := macSize_pos algorithm
  have hrounds := (isRun_nativeHkdf keyMaterial salt info _ outputSize).lt_of_running hrun
    (nativeHkdf_returned algorithm keyMaterial salt info hpos hsize)
  obtain ⟨reached, hreached, h⟩ := hkdfLoop_running algorithm
    (hkdfExtract (hmacOf algorithm.hashAlgorithm) (macSize algorithm) salt keyMaterial) info
    outputSize fun (i : ℕ) (hi : i < rounds) => (lt_ceilDiv_iff hmac i).mp (by omega)
  rw [nativeHkdf_loop algorithm keyMaterial salt info hpos hsize, hreached] at hrun
  obtain rfl := Progress.running.inj hrun
  have hlength := h.length_output
  have hlt : rounds * macSize algorithm < 255 * macSize algorithm := by omega
  have hle : rounds < 255 := Nat.lt_of_mul_lt_mul_right hlt
  refine ⟨hle, ?_⟩
  rw [h.counter]
  exact UInt8.toNat_ofNat_of_lt' (show rounds + 1 < 2 ^ 8 by omega)

end Runs

end CryptoCore
