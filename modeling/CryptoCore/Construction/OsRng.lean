import CryptoCore.Construction.Result
import CryptoCore.Framework.Runs

/-!
# The random generator of the operating system

The output is filled in chunks, a chunk by calls of `getrandom` that may return less than they were
asked for or be interrupted. The kernel is a parameter: a state, and what a call returns in it. No
property of the kernel is assumed beyond its interface, that a call writes at most what it was asked
for.

The two nested loops of the source are one state machine: `FillState` holds what has been written
and, inside the inner loop, what remains of the chunk. An interruption repeats the call, so that the
loops need not end; `generate` is therefore a run with a number of rounds (`Framework/Runs.lean`),
and `Properties/OsRng.lean` says when it ends and that the bytes come from consecutive calls.

The one-shot function first makes room for the output. Whether there is room depends on the storage
that the process may still get, which is a parameter too, `Storage`: the failure is caught and
reported, and no byte is drawn. `Properties/SystemRng.lean` connects this generator to the requests
of the provider.
-/

namespace CryptoCore

open Runs

/-! ## The kernel -/

/-- What a call of `getrandom` returns: how much it wrote, at most what it was asked for, or an
error, which may be an interruption. -/
inductive GetrandomReply (size : ℕ)
  | generated (bytes : List UInt8) (h : bytes.length ≤ size)
  | failed (interrupted : Bool)

/-- A call of `getrandom` in a state of the kernel, which other programs may have left. -/
structure Kernel (σ : Type) where
  getrandom : σ → (size : ℕ) → GetrandomReply size × σ

/-! ## The generator -/

namespace OsRng

variable {σ : Type}

/-- The largest chunk that is asked for at once, in bytes. -/
def rngChunkSize : ℕ := 1024 * 1024

/-- The error of the generator, under its category. -/
def rngError (message : String) : Error :=
  makeError .providerError "rng" message

/-- The state of the two loops: the bytes written so far, the chunks filled up to `offset`, and,
inside the inner loop, the size of the chunk and what remains of it. -/
structure FillState (σ : Type) where
  kernel : σ
  output : List UInt8 := []
  offset : ℕ := 0
  chunk : Option (ℕ × ℕ) := none

/-- A round of the loop of `fill_os_random_chunk` with `remaining` bytes to go. -/
def fillRound (kernel : Kernel σ) (state : FillState σ) (chunkSize remaining : ℕ) :
    Progress (FillState σ) (Result ByteBuffer × σ) :=
  match kernel.getrandom state.kernel remaining with
  | (.failed interrupted, after) =>
      if interrupted then .running { state with kernel := after }
      else .ended (.error (rngError "getrandom failed"), after)
  | (.generated bytes _, after) =>
      if bytes.length = 0 then .ended (.error (rngError "getrandom returned no data"), after)
      else .running { state with
        kernel := after
        output := state.output ++ bytes
        chunk := some (chunkSize, remaining - bytes.length) }

/-- A round of the loop of `generate`, or of the loop inside it. -/
def generateRound (kernel : Kernel σ) (size : ℕ) (state : FillState σ) :
    Progress (FillState σ) (Result ByteBuffer × σ) :=
  match state.chunk with
  | none =>
      if state.offset < size then
        let remaining := size - state.offset
        let chunkSize := min remaining rngChunkSize
        .running { state with chunk := some (chunkSize, chunkSize) }
      else .ended (.ok state.output, state.kernel)
  | some (chunkSize, 0) =>
      .running { state with offset := state.offset + chunkSize, chunk := none }
  | some (chunkSize, remaining + 1) => fillRound kernel state chunkSize (remaining + 1)

/-- The run of `generate` with a number of rounds of its loops. -/
def generate (kernel : Kernel σ) (start : σ) (size rounds : ℕ) :
    Progress (FillState σ) (Result ByteBuffer × σ) :=
  .after (generateRound kernel size) (.running { kernel := start }) rounds

end OsRng

/-! ## The one-shot function -/

/-- The storage that the process may still get: the sizes at which a byte vector is given room.
There is none above `maxVectorSize`. -/
structure Storage where
  hasRoom : ℕ → Bool
  size_le : ∀ {size : ℕ}, hasRoom size = true → size ≤ maxVectorSize

/-- What the one-shot function reports when there is no room for the output. -/
def allocationError : Error :=
  makeError .internalError "rng" "random byte allocation failed"

/-- The one-shot function. It asks the generator for nothing when no byte is wanted, and catches
the failure to make room for the bytes before the generator is asked. -/
def randomBytes {σ : Type} (storage : Storage) (kernel : Kernel σ) (start : σ)
    (size rounds : ℕ) : Progress (OsRng.FillState σ) (Result ByteBuffer × σ) :=
  if size = 0 then .ended (.ok [], start)
  else if storage.hasRoom size then OsRng.generate kernel start size rounds
  else .ended (.error allocationError, start)

end CryptoCore
