import CryptoCore.Construction.Result
import Mathlib.Logic.Function.Basic

/-!
# Secure buffers

A secure buffer owns the allocation of a byte vector. It hands the allocation on when it is moved
from, and writes zeros over its bytes before it lets go of them. The heap here checks every access:
a released allocation, or a cell beyond the end of one, is a fault and not a value.

The module has three levels. A `Heap` is a list of allocations, of which none is ever given out
again; `ByteVector` is a pointer and a size, with the operations of the standard library that the
source uses; `SecureBuffer` is the code of `secure_buffer.hpp` on a vector. Around them
`SecureMemory` keeps named buffers on one heap, and `SecureBufferCall` lists what a client can do:
construct, copy, clone, move, write, read, reset and destroy, in any order.

A vector that is adopted may have capacity above its size, which its last owner left behind with
whatever is in there. No vector of this library counts these cells, so that neither `reset` nor the
destructor reaches them; an allocation keeps them apart as `spare`. `Properties/SecureBuffer.lean`
proves that no call makes a bad access and says what released allocations hold, with the spare cells
accounted for.
-/

namespace CryptoCore

/-! ## The heap -/

/-- `misuse` is a call that names no buffer, or an index outside of one; `badAccess` is an access
to memory that is not there. -/
inductive Fault
  | misuse
  | badAccess
  deriving DecidableEq, Repr

/-- `spare` is what a vector was given behind its bytes: capacity above its size. No vector here
counts these cells again, and an access to them is a fault too. -/
structure Allocation where
  cells : List UInt8
  spare : List UInt8 := []
  released : Bool := false
  deriving DecidableEq, Repr

/-- Allocations by address. An address is not given out again. -/
abbrev Heap := List Allocation

namespace Heap

/-- An allocation that was not released; anything else is an access to memory that is not there. -/
def access (heap : Heap) (address : ℕ) : Except Fault Allocation :=
  match heap[address]? with
  | some allocation => if allocation.released then .error .badAccess else .ok allocation
  | none => .error .badAccess

/-- The first `size` cells of an allocation that was not released. -/
def load (heap : Heap) (address size : ℕ) : Except Fault (List UInt8) := do
  let allocation ← heap.access address
  if size ≤ allocation.cells.length then .ok (allocation.cells.take size) else .error .badAccess

/-- A write to one cell, which must be one that a vector may count. -/
def store (heap : Heap) (address index : ℕ) (byte : UInt8) : Except Fault Heap := do
  let allocation ← heap.access address
  if index < allocation.cells.length then
    .ok (heap.set address { allocation with cells := allocation.cells.set index byte })
  else .error .badAccess

/-- An allocation is given back; its cells stay as they are, for whoever looks at them later. -/
def release (heap : Heap) (address : ℕ) : Except Fault Heap := do
  let allocation ← heap.access address
  return heap.set address { allocation with released := true }

end Heap

/-- The loop of `secure_zero_memory`: one store at the cursor for each byte. -/
def zeroCells (address : ℕ) : (cursor size : ℕ) → Heap → Except Fault Heap
  | _, 0, heap => .ok heap
  | cursor, size + 1, heap => do
      let heap ← heap.store address cursor 0
      zeroCells address (cursor + 1) size heap

/-- Zeros over as many bytes as the caller counts, and none without an allocation. -/
def secureZeroMemory (data : Option ℕ) (size : ℕ) (heap : Heap) : Except Fault Heap :=
  match data with
  | none => .ok heap
  | some address => zeroCells address 0 size heap

/-! ## Byte vectors -/

/-- A vector of bytes: where its cells are and how many it counts. Without an allocation it has a
null pointer. -/
structure ByteVector where
  data : Option ℕ := none
  size : ℕ := 0

namespace ByteVector

/-- A vector of some bytes, with spare capacity behind them. Only one without capacity has no
allocation. -/
def ofBytes (bytes spare : List UInt8) (heap : Heap) : ByteVector × Heap :=
  if bytes = [] ∧ spare = [] then ({}, heap)
  else (⟨some heap.length, bytes.length⟩, heap ++ [{ cells := bytes, spare }])

/-- The bytes of a vector, read from its allocation; there are none without one. -/
def bytes (vector : ByteVector) (heap : Heap) : Except Fault (List UInt8) :=
  match vector.data with
  | none => .ok []
  | some address => heap.load address vector.size

/-- A write through the span of the bytes, into the allocation. -/
def setByte (vector : ByteVector) (index : ℕ) (byte : UInt8) (heap : Heap) : Except Fault Heap :=
  match vector.data with
  | none => .error .badAccess
  | some address => heap.store address index byte

/-- The vector counts nothing any more. The allocation is kept, with what is in it. -/
def clear (vector : ByteVector) : ByteVector :=
  { vector with size := 0 }

/-- The destructor: the allocation is given back, if there is one. -/
def free (vector : ByteVector) (heap : Heap) : Except Fault Heap :=
  match vector.data with
  | none => .ok heap
  | some address => heap.release address

/-- A move leaves an empty vector behind: what was moved, and what is left. -/
def move (vector : ByteVector) : ByteVector × ByteVector := (vector, {})

end ByteVector

/-! ## Secure buffers

A buffer is its vector `bytes_`. -/

namespace SecureBuffer

/-- `reset` writes zeros over the bytes that the vector counts and empties it. The allocation stays
with the vector, whatever its capacity. -/
def reset (bytes : ByteVector) (heap : Heap) : Except Fault (ByteVector × Heap) := do
  let heap ← secureZeroMemory bytes.data bytes.size heap
  return (bytes.clear, heap)

/-- The destructor: `reset`, and then the destructor of the vector. -/
def destroy (bytes : ByteVector) (heap : Heap) : Except Fault Heap := do
  let (bytes, heap) ← reset bytes heap
  bytes.free heap

/-- The move constructor: the new buffer, and the other one. -/
def moveConstruct (other : ByteVector) : ByteVector × ByteVector :=
  let (bytes, other) := other.move
  (bytes, other.clear)

/-- The move assignment to another buffer. The assignment of the vectors frees what the target
had. -/
def moveAssign (bytes other : ByteVector) (heap : Heap) :
    Except Fault (ByteVector × ByteVector × Heap) := do
  let (bytes, heap) ← reset bytes heap
  let heap ← bytes.free heap
  let (bytes, other) := other.move
  return (bytes, other.clear, heap)

end SecureBuffer

/-! ## Calls -/

/-- The buffers that exist, by name, and the heap that they share. -/
structure SecureMemory where
  heap : Heap := []
  buffers : ℕ → Option ByteVector := fun _ => none

/-- The calls of a client. Constructors give a buffer a name; the others name one. The vector that
`ofVector` adopts has the capacity that its last owner left it, with whatever is in there. -/
inductive SecureBufferCall
  | ofSize (name size : ℕ)
  | ofVector (name : ℕ) (bytes spare : List UInt8)
  | copyFrom (name : ℕ) (bytes : List UInt8)
  | clone (source name : ℕ)
  | moveConstruct (source name : ℕ)
  | moveAssign (source target : ℕ)
  | setByte (name index : ℕ) (byte : UInt8)
  | bytes (name : ℕ)
  | reset (name : ℕ)
  | destroy (name : ℕ)

namespace SecureMemory

open Function

/-- The vector of a named buffer. A name that is not in use is the client's mistake. -/
def buffer (memory : SecureMemory) (name : ℕ) : Except Fault ByteVector :=
  match memory.buffers name with
  | some vector => .ok vector
  | none => .error .misuse

/-- The name of a new buffer is not in use. -/
def unused (memory : SecureMemory) (name : ℕ) : Except Fault Unit :=
  if (memory.buffers name).isSome then .error .misuse else .ok ()

/-- A new buffer from bytes, under a name of its own. -/
def create (memory : SecureMemory) (name : ℕ) (bytes spare : List UInt8) :
    Except Fault SecureMemory := do
  memory.unused name
  let (vector, heap) := ByteVector.ofBytes bytes spare memory.heap
  return ⟨heap, update memory.buffers name (some vector)⟩

/-- `clone` is `copy_from` of the bytes, into an allocation of its own. -/
def clone (memory : SecureMemory) (source name : ℕ) : Except Fault SecureMemory := do
  let vector ← memory.buffer source
  let bytes ← vector.bytes memory.heap
  memory.create name bytes []

/-- A new buffer from another one, which is left empty. -/
def moveConstruct (memory : SecureMemory) (source name : ℕ) : Except Fault SecureMemory := do
  let other ← memory.buffer source
  memory.unused name
  let (bytes, other) := SecureBuffer.moveConstruct other
  return ⟨memory.heap, update (update memory.buffers name (some bytes)) source (some other)⟩

/-- A buffer that is assigned to itself is left alone. -/
def moveAssign (memory : SecureMemory) (source target : ℕ) : Except Fault SecureMemory := do
  let other ← memory.buffer source
  let bytes ← memory.buffer target
  if target = source then return memory
  let (bytes, other, heap) ← SecureBuffer.moveAssign bytes other memory.heap
  return ⟨heap, update (update memory.buffers target (some bytes)) source (some other)⟩

/-- A write through the span of a named buffer, at an index that the client has to keep inside. -/
def setByte (memory : SecureMemory) (name index : ℕ) (byte : UInt8) :
    Except Fault SecureMemory := do
  let vector ← memory.buffer name
  if vector.size ≤ index then .error .misuse
  let heap ← vector.setByte index byte memory.heap
  return { memory with heap }

/-- The bytes of a buffer, as a client reads them. -/
def bytes (memory : SecureMemory) (name : ℕ) : Except Fault (List UInt8) := do
  let vector ← memory.buffer name
  vector.bytes memory.heap

/-- `reset` of a named buffer, which stays in use and is empty. -/
def reset (memory : SecureMemory) (name : ℕ) : Except Fault SecureMemory := do
  let vector ← memory.buffer name
  let (vector, heap) ← SecureBuffer.reset vector memory.heap
  return ⟨heap, update memory.buffers name (some vector)⟩

/-- The end of a buffer; its name may be used again. -/
def destroy (memory : SecureMemory) (name : ℕ) : Except Fault SecureMemory := do
  let vector ← memory.buffer name
  let heap ← SecureBuffer.destroy vector memory.heap
  return ⟨heap, update memory.buffers name none⟩

/-- What a call that changes the memory leaves. A faulty one changes nothing. -/
def after (memory : SecureMemory) (changed : Except Fault SecureMemory) :
    Except Fault (List UInt8) × SecureMemory :=
  match changed with
  | .ok next => (.ok [], next)
  | .error fault => (.error fault, memory)

/-- One call: its answer, and the memory after it. A faulty call leaves the memory as it is. -/
def call (memory : SecureMemory) : SecureBufferCall → Except Fault (List UInt8) × SecureMemory
  | .ofSize name size => memory.after (memory.create name (List.replicate size 0) [])
  | .ofVector name bytes spare => memory.after (memory.create name bytes spare)
  | .copyFrom name bytes => memory.after (memory.create name bytes [])
  | .clone source name => memory.after (memory.clone source name)
  | .moveConstruct source name => memory.after (memory.moveConstruct source name)
  | .moveAssign source target => memory.after (memory.moveAssign source target)
  | .setByte name index byte => memory.after (memory.setByte name index byte)
  | .bytes name => (memory.bytes name, memory)
  | .reset name => memory.after (memory.reset name)
  | .destroy name => memory.after (memory.destroy name)

end SecureMemory

end CryptoCore
