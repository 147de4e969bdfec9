import CryptoCore.Construction.OsRng
import Mathlib.Data.List.Range
import Mathlib.Tactic.Ring

/-!
# The random generator of the operating system

However the kernel cuts its bytes into replies and whichever calls it interrupts, the output is the
bytes that the kernel gives out, each once and in order, and as many as were asked for. The
generator fails only when a call fails for good or returns nothing, and then it returns no bytes; or
when there is no room for the output, and then it makes no call. It ends as soon as the kernel does
not interrupt it without end.

The kernel is a machine of its own, with a state and any behavior that fits the types.
`Kernel.Reads` adds the one assumption that there is a stream which it gives out from a position.
`Filling` is the invariant of the two nested loops, in terms of that position: what is in the output
is the stream between the start and the position of the kernel now. Every round keeps it
(`Filling.fillRound`), and the last round gives the outcome.

Termination is a measure. A kernel that interrupts forever keeps the code in its loop, so that the
patience of the kernel, a bound on the interruptions in a row, stands in the statement about it.
-/

namespace CryptoCore

open Runs

variable {σ : Type}

/-- The next bytes of a stream, as many as asked for, from a position on. -/
def streamSlice (stream : ℕ → UInt8) (position size : ℕ) : List UInt8 :=
  (List.range size).map fun i => stream (position + i)

@[simp] lemma length_streamSlice (stream : ℕ → UInt8) (position size : ℕ) :
    (streamSlice stream position size).length = size := by
  rw [streamSlice, List.length_map, List.length_range]

lemma streamSlice_append (stream : ℕ → UInt8) (position m n : ℕ) :
    streamSlice stream position m ++ streamSlice stream (position + m) n =
      streamSlice stream position (m + n) := by
  simp only [streamSlice, List.range_add, List.map_append, List.map_map]
  congr 1
  apply List.map_congr_left
  intro i _
  simp only [Function.comp_apply, Nat.add_assoc]

/-- A kernel that gives out a stream, from a position that moves by what it writes. An interrupted
or a failed call writes nothing. -/
structure Kernel.Reads (kernel : Kernel σ) (stream : ℕ → UInt8) (position : σ → ℕ) : Prop where
  generated : ∀ {s s' : σ} {size : ℕ} {bytes : List UInt8} {h : bytes.length ≤ size},
    kernel.getrandom s size = (.generated bytes h, s') →
      bytes = streamSlice stream (position s) bytes.length ∧
        position s' = position s + bytes.length
  failed : ∀ {s s' : σ} {size : ℕ} {interrupted : Bool},
    kernel.getrandom s size = (.failed interrupted, s') → position s' = position s

namespace OsRng

variable {kernel : Kernel σ} {stream : ℕ → UInt8} {position : σ → ℕ} {start : σ} {size : ℕ}

/-- What the rounds keep: the output is what the kernel gave out, and the chunk in hand fits
between the offset and the end. -/
structure Filling (stream : ℕ → UInt8) (position : σ → ℕ) (start : σ) (size : ℕ)
    (state : FillState σ) : Prop where
  output_eq : state.output = streamSlice stream (position start) state.output.length
  position_eq : position state.kernel = position start + state.output.length
  outside : state.chunk = none → state.output.length = state.offset ∧ state.offset ≤ size
  inside : ∀ {chunkSize remaining}, state.chunk = some (chunkSize, remaining) →
    state.output.length + remaining = state.offset + chunkSize ∧
      state.offset + chunkSize ≤ size ∧ remaining ≤ rngChunkSize

/-- A call that ends the generator: it was asked for some bytes of a chunk, and failed for good or
returned nothing. -/
def Refuses (kernel : Kernel σ) (s : σ) (error : Error) (s' : σ) : Prop :=
  ∃ requested, 0 < requested ∧ requested ≤ rngChunkSize ∧
    (kernel.getrandom s requested = (.failed false, s') ∧ error = rngError "getrandom failed" ∨
      (∃ h, kernel.getrandom s requested = (.generated [] h, s')) ∧
        error = rngError "getrandom returned no data")

/-- What the generator may end with: the next bytes of the stream, or the error of a call that this
run made, before it had all of them. -/
def ReadOutcome (kernel : Kernel σ) (stream : ℕ → UInt8) (position : σ → ℕ) (start : σ) (size : ℕ) :
    Result ByteBuffer × σ → Prop
  | (.ok bytes, s') =>
      bytes = streamSlice stream (position start) size ∧ position s' = position start + size
  | (.error error, s') => ∃ s, position start ≤ position s ∧ position s < position start + size ∧
      Refuses kernel s error s'

lemma filling_start (stream : ℕ → UInt8) (position : σ → ℕ) (start : σ) (size : ℕ) :
    Filling stream position start size { kernel := start } where
  output_eq := rfl
  position_eq := rfl
  outside := fun _ => ⟨rfl, Nat.zero_le size⟩
  inside := nofun

/-- A round of the inner loop: it goes on with more of the stream, or it is interrupted, or it ends.
-/
lemma Filling.fillRound (hkernel : kernel.Reads stream position) {state : FillState σ}
    {chunkSize remaining : ℕ} (h : Filling stream position start size state)
    (hchunk : state.chunk = some (chunkSize, remaining)) (hpos : 0 < remaining) :
    (∀ next, fillRound kernel state chunkSize remaining = .running next →
      Filling stream position start size next) ∧
    ∀ result, fillRound kernel state chunkSize remaining = .ended result →
      ReadOutcome kernel stream position start size result := by
  obtain ⟨hlength, hsize, hrequest⟩ := h.inside hchunk
  have hinside : position start ≤ position state.kernel ∧
      position state.kernel < position start + size := by
    rw [h.position_eq]
    omega
  rw [OsRng.fillRound]
  split
  next interrupted after hreply =>
    cases interrupted with
    | true =>
        refine ⟨?_, nofun⟩
        rintro _ ⟨⟩
        exact ⟨h.output_eq, (hkernel.failed hreply).trans h.position_eq, h.outside, h.inside⟩
    | false =>
        refine ⟨nofun, ?_⟩
        rintro _ ⟨⟩
        exact ⟨state.kernel, hinside.1, hinside.2, remaining, hpos, hrequest,
          Or.inl ⟨hreply, rfl⟩⟩
  next bytes hle after hreply =>
    split
    · refine ⟨nofun, ?_⟩
      rintro _ ⟨⟩
      -- No bytes is an answer the source does not wait on: it gives up.
      obtain rfl : bytes = [] := List.eq_nil_of_length_eq_zero ‹_›
      exact ⟨state.kernel, hinside.1, hinside.2, remaining, hpos, hrequest,
        Or.inr ⟨⟨hle, hreply⟩, rfl⟩⟩
    · refine ⟨?_, nofun⟩
      rintro _ ⟨⟩
      -- The bytes that came are the next of the stream, however few they were.
      obtain ⟨hbytes, hposition⟩ := hkernel.generated hreply
      refine ⟨?_, ?_, nofun, ?_⟩
      · dsimp only
        rw [List.length_append, ← streamSlice_append, ← h.position_eq, ← h.output_eq, ← hbytes]
      · dsimp only
        rw [hposition, h.position_eq, List.length_append, Nat.add_assoc]
      · rintro _ _ ⟨⟩
        dsimp only
        rw [List.length_append]
        omega

/-- A round of the loops. -/
lemma keeps_generateRound (hkernel : kernel.Reads stream position) (start : σ) (size : ℕ) :
    Progress.Keeps (generateRound kernel size) (Filling stream position start size)
      (ReadOutcome kernel stream position start size) := by
  intro state h
  rw [generateRound]
  split
  next hchunk =>
    obtain ⟨hoffset, hsize⟩ := h.outside hchunk
    split
    · refine ⟨?_, nofun⟩
      rintro _ ⟨⟩
      refine ⟨h.output_eq, h.position_eq, nofun, ?_⟩
      rintro _ _ ⟨⟩
      dsimp only
      exact ⟨by omega, by omega, Nat.min_le_right _ _⟩
    · refine ⟨nofun, ?_⟩
      rintro _ ⟨⟩
      have hlength : state.output.length = size := by omega
      exact ⟨hlength ▸ h.output_eq, hlength ▸ h.position_eq⟩
  next chunkSize hchunk =>
    obtain ⟨hlength, hsize, -⟩ := h.inside hchunk
    refine ⟨?_, nofun⟩
    rintro _ ⟨⟩
    exact ⟨h.output_eq, h.position_eq, fun _ => ⟨hlength, hsize⟩, nofun⟩
  next chunkSize remaining hchunk => exact h.fillRound hkernel hchunk (Nat.succ_pos remaining)

/-! ## Termination -/

/-- Rounds to go: the bytes that are missing, the interruptions that the kernel may still make, and
the rounds of the outer loop before the next call. -/
def roundsLeft (patience : σ → ℕ) (bound size : ℕ) (state : FillState σ) : ℕ :=
  (size - state.output.length) * (bound + 4) + patience state.kernel +
    match state.chunk with
    | none => 1
    | some (_, 0) => 2
    | some (_, _ + 1) => 0

/-- Every round brings the end nearer: it makes output, uses up patience, or moves on to the next
chunk. -/
lemma roundsLeft_lt {patience : σ → ℕ} {bound : ℕ} (hbound : ∀ s, patience s ≤ bound)
    (hpatience : ∀ s s' requested, kernel.getrandom s requested = (.failed true, s') →
      patience s' < patience s)
    {state next : FillState σ} (h : Filling stream position start size state)
    (hround : generateRound kernel size state = .running next) :
    roundsLeft patience bound size next < roundsLeft patience bound size state := by
  rw [generateRound] at hround
  split at hround
  next hchunk =>
    obtain ⟨hoffset, -⟩ := h.outside hchunk
    split at hround
    next hlt =>
      cases hround
      obtain ⟨remaining, hremaining⟩ : ∃ r, min (size - state.offset) rngChunkSize = r + 1 :=
        Nat.exists_eq_succ_of_ne_zero (by rw [rngChunkSize]; omega)
      simp only [roundsLeft, hchunk, hremaining]
      omega
    next => cases hround
  next chunkSize hchunk =>
    cases hround
    simp only [roundsLeft, hchunk]
    omega
  next chunkSize remaining hchunk =>
    obtain ⟨hlength, hsize, -⟩ := h.inside hchunk
    rw [OsRng.fillRound] at hround
    split at hround
    next interrupted after hreply =>
      cases interrupted with
      | true =>
          cases hround
          have hless := hpatience _ _ _ hreply
          simp only [roundsLeft, hchunk]
          omega
      | false => cases hround
    next bytes hle after hreply =>
      split at hround
      next => cases hround
      next hsome =>
        cases hround
        -- a byte more pays for everything that the reply can set back
        have hbytes : (size - (state.output.length + bytes.length)) * (bound + 4) + (bound + 4) ≤
            (size - state.output.length) * (bound + 4) := by
          rw [← Nat.succ_mul]
          exact Nat.mul_le_mul_right _ (by omega)
        have hpatient := hbound after
        simp only [roundsLeft, hchunk, List.length_append]
        split <;> omega

/-- What a request ends with. -/
lemma generate_outcome (hkernel : kernel.Reads stream position) {rounds : ℕ}
    {result : Result ByteBuffer × σ} (h : generate kernel start size rounds = .ended result) :
    ReadOutcome kernel stream position start size result :=
  (keeps_generateRound hkernel start size).ended (filling_start stream position start size) h

/-- Every request ends, if the kernel interrupts at most a bounded number of calls in a row. -/
lemma exists_generate_ended (hkernel : kernel.Reads stream position) {patience : σ → ℕ}
    {bound : ℕ} (hbound : ∀ s, patience s ≤ bound)
    (hpatience : ∀ s s' requested, kernel.getrandom s requested = (.failed true, s') →
      patience s' < patience s) (start : σ) (size : ℕ) :
    ∃ rounds ≤ size * (bound + 4) + bound + 2, ∃ result,
      generate kernel start size rounds = .ended result := by
  obtain ⟨result, hresult⟩ := Progress.exists_ended (roundsLeft patience bound size)
    (fun state h next hround => ⟨((keeps_generateRound hkernel start size) state h).1 next hround,
      roundsLeft_lt hbound hpatience h hround⟩) (filling_start stream position start size)
  refine ⟨roundsLeft patience bound size { kernel := start } + 1, ?_, result, hresult⟩
  have hpatient := hbound start
  simp only [roundsLeft, List.length_nil, Nat.sub_zero]
  omega

end OsRng

open OsRng

/-- A kernel that gives out a stream. Where there is room for the bytes, what the one-shot function
returns is the next bytes of the stream, as many as were asked for, and the stream stands behind
them; it fails only on a call that failed for good or returned nothing. Where there is no room, and
there is none above `maxVectorSize`, it says so and draws nothing. It ends within a number of rounds
that is known beforehand when the kernel interrupts at most a bounded number of calls in a row. -/
theorem randomBytes_reads (storage : Storage) (kernel : Kernel σ) (stream : ℕ → UInt8)
    (position : σ → ℕ) (hkernel : kernel.Reads stream position) (start : σ) (size : ℕ) :
    (∀ rounds result, randomBytes storage kernel start size rounds = .ended result →
      if size = 0 ∨ storage.hasRoom size = true then
        ReadOutcome kernel stream position start size result
      else result = (.error allocationError, start)) ∧
    (maxVectorSize < size → ∀ rounds, randomBytes storage kernel start size rounds =
      .ended (.error allocationError, start)) ∧
    ∀ (patience : σ → ℕ) (bound : ℕ), (∀ s, patience s ≤ bound) →
      (∀ s s' requested, kernel.getrandom s requested = (.failed true, s') →
        patience s' < patience s) →
      ∃ rounds ≤ size * (bound + 4) + bound + 2, ∃ result,
        randomBytes storage kernel start size rounds = .ended result := by
  refine ⟨?_, ?_, ?_⟩
  · intro rounds result hrun
    rw [randomBytes] at hrun
    split at hrun
    next hzero =>
      cases hrun
      rw [if_pos (.inl hzero), hzero]
      exact ⟨rfl, rfl⟩
    next hsome =>
      split at hrun
      next hroom =>
        rw [if_pos (.inr hroom)]
        exact generate_outcome hkernel hrun
      next hroom =>
        cases hrun
        rw [if_neg (not_or.mpr ⟨hsome, hroom⟩)]
  · intro hlarge rounds
    have hroom : ¬ storage.hasRoom size = true := fun hroom =>
      absurd (storage.size_le hroom) (Nat.not_le.mpr hlarge)
    rw [randomBytes, if_neg (Nat.ne_of_gt (Nat.zero_lt_of_lt hlarge)), if_neg hroom]
  · intro patience bound hbound hpatience
    obtain ⟨rounds, hrounds, result, hresult⟩ :=
      exists_generate_ended hkernel hbound hpatience start size
    refine ⟨rounds, hrounds, ?_⟩
    rw [randomBytes]
    split
    · exact ⟨_, rfl⟩
    split
    · exact ⟨result, hresult⟩
    · exact ⟨_, rfl⟩

/-- Room for a page and no more. -/
def pageStorage : Storage where
  hasRoom size := decide (size ≤ 4096)
  size_le := fun hroom => (of_decide_eq_true hroom).trans (by decide)

/-- A kernel that counts, returns one byte at a time and interrupts every other call. -/
def countingKernel : Kernel (ℕ × Bool) where
  getrandom
    | (position, true), _ => (.failed true, (position, false))
    | (position, false), 0 => (.generated [] (Nat.zero_le 0), (position, false))
    | (position, false), size + 1 =>
        (.generated [UInt8.ofNat position] (Nat.succ_le_succ (Nat.zero_le size)),
          (position + 1, true))

lemma countingKernel_reads : countingKernel.Reads UInt8.ofNat Prod.fst where
  generated := by
    rintro ⟨position, interrupts⟩ s' size bytes h hreply
    cases interrupts with
    | true => cases hreply
    | false =>
        cases size with
        | zero =>
            cases hreply
            exact ⟨rfl, rfl⟩
        | succ size =>
            cases hreply
            exact ⟨rfl, rfl⟩
  failed := by
    rintro ⟨position, interrupts⟩ s' size interrupted hreply
    cases interrupts with
    | true =>
        cases hreply
        rfl
    | false => cases size <;> cases hreply

/-- Three bytes of the kernel that counts. -/
theorem randomBytes_reads_countingKernel :
    (∀ rounds result, randomBytes pageStorage countingKernel (7, true) 3 rounds = .ended result →
      if 3 = 0 ∨ pageStorage.hasRoom 3 = true then
        ReadOutcome countingKernel UInt8.ofNat Prod.fst (7, true) 3 result
      else result = (.error allocationError, (7, true))) ∧
    (maxVectorSize < 3 → ∀ rounds, randomBytes pageStorage countingKernel (7, true) 3 rounds =
      .ended (.error allocationError, (7, true))) ∧
    ∀ (patience : ℕ × Bool → ℕ) (bound : ℕ), (∀ s, patience s ≤ bound) →
      (∀ s s' requested, countingKernel.getrandom s requested = (.failed true, s') →
        patience s' < patience s) →
      ∃ rounds ≤ 3 * (bound + 4) + bound + 2, ∃ result,
        randomBytes pageStorage countingKernel (7, true) 3 rounds = .ended result :=
  randomBytes_reads pageStorage countingKernel UInt8.ofNat Prod.fst countingKernel_reads (7, true) 3

example : (match randomBytes pageStorage countingKernel (7, true) 3 20 with
    | .ended (.ok bytes, _) => bytes
    | _ => []) = [7, 8, 9] := rfl

end CryptoCore
