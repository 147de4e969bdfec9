import CryptoCore.Construction.SecureBuffer
import CryptoCore.Framework.Ownership
import CryptoCore.Framework.Simulations

/-!
# What secure buffers are for

A client sees byte strings that move between names, and never a copy that was not asked for. The
heap below holds them in allocations with one owner each. What the vector of a buffer counted holds
zeros when its allocation is released, whatever the buffer held, and no run of calls reaches memory
that is not there.

The one exception is capacity. A vector that a client hands over may have been larger, and what it
held behind its size comes along: the cells are part of the allocation, no operation of the buffer
touches them, and they are given back as they are. `secureBuffers_wiped` says so for every
allocation of every run, and that nothing but an adopted vector brings such cells in.

`LinearBuffers` is what the buffers are for: byte strings under names, where a move leaves the empty
string behind. `SecureMemory.Represents` relates it to the heap: each buffer holds its byte string
(`Holds`), each live allocation has one owner, and the released ones are wiped. Every operation is
shown once to follow its meaning (`Follows`); the calls simulate each other, and the two theorems
are about runs. A call that makes no sense, such as a move from a buffer that does not exist, is the
client's fault on both sides and changes nothing.
-/

namespace CryptoCore

open Streaming Function Ownership

/-! ## Byte strings that move -/

/-- The byte strings of the buffers that exist, each under its name. -/
abbrev LinearBuffers := ℕ → Option (List UInt8)

namespace LinearBuffers

def create (store : LinearBuffers) (name : ℕ) (bytes : List UInt8) : Option LinearBuffers :=
  if (store name).isSome then none else some (update store name (some bytes))

def clone (store : LinearBuffers) (source name : ℕ) : Option LinearBuffers := do
  let bytes ← store source
  store.create name bytes

/-- What the source held is the target's, and the source is empty. -/
def move (store : LinearBuffers) (source target : ℕ) (bytes : List UInt8) : LinearBuffers :=
  update (update store target (some bytes)) source (some [])

def moveConstruct (store : LinearBuffers) (source name : ℕ) : Option LinearBuffers := do
  let bytes ← store source
  if (store name).isSome then none else some (store.move source name bytes)

def moveAssign (store : LinearBuffers) (source target : ℕ) : Option LinearBuffers := do
  let bytes ← store source
  let _ ← store target
  if target = source then some store else some (store.move source target bytes)

def setByte (store : LinearBuffers) (name index : ℕ) (byte : UInt8) : Option LinearBuffers := do
  let bytes ← store name
  if bytes.length ≤ index then none else some (update store name (some (bytes.set index byte)))

def reset (store : LinearBuffers) (name : ℕ) : Option LinearBuffers := do
  let _ ← store name
  return update store name (some [])

def destroy (store : LinearBuffers) (name : ℕ) : Option LinearBuffers := do
  let _ ← store name
  return update store name none

/-- A call without a meaning is answered by the fault that is the client's. -/
def after (store : LinearBuffers) (changed : Option LinearBuffers) :
    Except Fault (List UInt8) × LinearBuffers :=
  match changed with
  | some next => (.ok [], next)
  | none => (.error .misuse, store)

def bytes (store : LinearBuffers) (name : ℕ) : Except Fault (List UInt8) :=
  match store name with
  | some bytes => .ok bytes
  | none => .error .misuse

def call (store : LinearBuffers) : SecureBufferCall → Except Fault (List UInt8) × LinearBuffers
  | .ofSize name size => store.after (store.create name (List.replicate size 0))
  | .ofVector name bytes _ => store.after (store.create name bytes)
  | .copyFrom name bytes => store.after (store.create name bytes)
  | .clone source name => store.after (store.clone source name)
  | .moveConstruct source name => store.after (store.moveConstruct source name)
  | .moveAssign source target => store.after (store.moveAssign source target)
  | .setByte name index byte => store.after (store.setByte name index byte)
  | .bytes name => (store.bytes name, store)
  | .reset name => store.after (store.reset name)
  | .destroy name => store.after (store.destroy name)

lemma after_ne_badAccess (store : LinearBuffers) (changed : Option LinearBuffers) :
    (store.after changed).1 ≠ .error .badAccess := by
  cases changed with
  | some _ => exact nofun
  | none => exact nofun

/-- Byte strings that move have no memory to miss. -/
lemma call_ne_badAccess (store : LinearBuffers) (c : SecureBufferCall) :
    (store.call c).1 ≠ .error .badAccess := by
  cases c with
  | bytes name =>
      change store.bytes name ≠ _
      rw [bytes]
      cases store name with
      | some _ => exact nofun
      | none => exact nofun
  | _ => exact store.after_ne_badAccess _

end LinearBuffers

/-! ## The heap -/

namespace Heap

variable {heap : Heap} {address : ℕ} {content spare : List UInt8}

/-- The allocations that were not released, which may be accessed. -/
def Live (heap : Heap) (address : ℕ) : Prop :=
  ∃ content spare : List UInt8, heap[address]? = some ⟨content, spare, false⟩

/-- What was released holds zeros, apart from its spare capacity, which no vector counted. -/
def Wiped (heap : Heap) : Prop :=
  ∀ (address : ℕ) (content spare : List UInt8), heap[address]? = some ⟨content, spare, true⟩ →
    ∀ byte ∈ content, byte = 0

lemma access_eq (h : heap[address]? = some ⟨content, spare, false⟩) :
    heap.access address = .ok ⟨content, spare, false⟩ := by
  rw [access, h]
  rfl

lemma load_eq (h : heap[address]? = some ⟨content, spare, false⟩) {size : ℕ}
    (hsize : size ≤ content.length) :
    heap.load address size = .ok (content.take size) := by
  rw [load, access_eq h]
  exact if_pos hsize

lemma store_eq (h : heap[address]? = some ⟨content, spare, false⟩) {index : ℕ}
    (hindex : index < content.length) (byte : UInt8) :
    heap.store address index byte =
      .ok (heap.set address ⟨content.set index byte, spare, false⟩) := by
  rw [store, access_eq h]
  exact if_pos hindex

lemma release_eq (h : heap[address]? = some ⟨content, spare, false⟩) :
    heap.release address = .ok (heap.set address ⟨content, spare, true⟩) := by
  rw [release, access_eq h]
  rfl

lemma getElem?_set_self (h : heap[address]? = some ⟨content, spare, false⟩)
    (allocation : Allocation) : (heap.set address allocation)[address]? = some allocation := by
  rw [List.getElem?_set_self (List.getElem?_eq_some_iff.mp h).1]

lemma getElem?_set_ne {other : ℕ} (hne : other ≠ address) (allocation : Allocation) :
    (heap.set address allocation)[other]? = heap[other]? :=
  List.getElem?_set_ne hne.symm

/-- A live allocation that stays so: the same ones are live. -/
lemma live_set (h : heap[address]? = some ⟨content, spare, false⟩) (new : List UInt8) (other : ℕ) :
    Live (heap.set address ⟨new, spare, false⟩) other ↔ heap.Live other := by
  by_cases hother : other = address
  · subst hother
    exact iff_of_true ⟨new, spare, getElem?_set_self h _⟩ ⟨content, spare, h⟩
  · rw [Live, Live, getElem?_set_ne hother]

lemma live_release (h : heap[address]? = some ⟨content, spare, false⟩) (other : ℕ) :
    Live (heap.set address ⟨content, spare, true⟩) other ↔ heap.Live other ∧ other ≠ address := by
  by_cases hother : other = address
  · subst hother
    refine iff_of_false ?_ fun hlive => hlive.2 rfl
    rintro ⟨_, _, hcontent⟩
    rw [getElem?_set_self h] at hcontent
    cases hcontent
  · rw [Live, Live, getElem?_set_ne hother]
    exact (and_iff_left hother).symm

lemma live_append (heap : Heap) (bytes spare : List UInt8) (other : ℕ) :
    Live (heap ++ [⟨bytes, spare, false⟩]) other ↔ heap.Live other ∨ other = heap.length := by
  rcases Nat.lt_trichotomy other heap.length with hlt | heq | hgt
  · rw [Live, Live, List.getElem?_append_left hlt]
    exact (or_iff_left (Nat.ne_of_lt hlt)).symm
  · subst heq
    refine iff_of_true ⟨bytes, spare, ?_⟩ (.inr rfl)
    rw [List.getElem?_concat_length]
  · refine iff_of_false ?_ ?_
    · rintro ⟨content, spare, hcontent⟩
      have hlt := (List.getElem?_eq_some_iff.mp hcontent).1
      rw [List.length_append, List.length_singleton] at hlt
      exact absurd hlt (Nat.not_lt.mpr hgt)
    · rintro (⟨content, spare, hcontent⟩ | heq)
      · exact absurd (List.getElem?_eq_some_iff.mp hcontent).1 (Nat.not_lt.mpr hgt.le)
      · exact absurd heq (Nat.ne_of_gt hgt)

lemma not_live_length (heap : Heap) : ¬ heap.Live heap.length := by
  rintro ⟨content, spare, hcontent⟩
  exact absurd (List.getElem?_eq_some_iff.mp hcontent).1 (lt_irrefl _)

lemma Wiped.set_live (hwiped : heap.Wiped) (h : heap[address]? = some ⟨content, spare, false⟩)
    (new : List UInt8) : Wiped (heap.set address ⟨new, spare, false⟩) := by
  intro other released rest hreleased
  by_cases hother : other = address
  · subst hother
    rw [getElem?_set_self h] at hreleased
    cases hreleased
  · rw [getElem?_set_ne hother] at hreleased
    exact hwiped other released rest hreleased

/-- Zeros may be released. -/
lemma Wiped.release (hwiped : heap.Wiped) {size : ℕ}
    (h : heap[address]? = some ⟨List.replicate size 0, spare, false⟩) :
    Wiped (heap.set address ⟨List.replicate size 0, spare, true⟩) := by
  intro other released rest hreleased
  by_cases hother : other = address
  · subst hother
    rw [getElem?_set_self h] at hreleased
    cases hreleased
    exact fun byte hbyte => List.eq_of_mem_replicate hbyte
  · rw [getElem?_set_ne hother] at hreleased
    exact hwiped other released rest hreleased

lemma Wiped.append (hwiped : heap.Wiped) (bytes spare : List UInt8) :
    Wiped (heap ++ [⟨bytes, spare, false⟩]) := by
  intro other released rest hreleased
  rcases List.mem_append.mp (List.mem_of_getElem? hreleased) with hold | hnew
  · obtain ⟨i, hi⟩ := List.mem_iff_getElem?.mp hold
    exact hwiped i released rest hi
  · cases List.mem_singleton.mp hnew

end Heap

/-- The loop wipes what is left behind the cursor. The cells in front of it are zeros already. -/
lemma zeroCells_eq {address : ℕ} {spare : List UInt8} (rest : List UInt8) :
    ∀ (cursor : ℕ) {heap : Heap},
      heap[address]? = some ⟨List.replicate cursor 0 ++ rest, spare, false⟩ →
      zeroCells address cursor rest.length heap =
        .ok (heap.set address ⟨List.replicate (cursor + rest.length) 0, spare, false⟩) := by
  induction rest with
  | nil =>
      intro cursor heap h
      rw [List.append_nil] at h
      rw [List.length_nil, zeroCells, Nat.add_zero]
      refine congrArg Except.ok (List.ext_getElem? fun i => ?_)
      by_cases hi : i = address
      · subst hi
        rw [h, Heap.getElem?_set_self h]
      · rw [Heap.getElem?_set_ne hi]
  | cons byte rest ih =>
      intro cursor heap h
      -- The cells below the cursor are already zero, and this store adds one to them.
      have hset : (List.replicate cursor 0 ++ byte :: rest).set cursor 0 =
          List.replicate (cursor + 1) 0 ++ rest := by
        rw [List.set_append_right _ _ (by rw [List.length_replicate]), List.length_replicate,
          Nat.sub_self, List.set_cons_zero, List.replicate_succ', List.append_assoc,
          List.singleton_append]
      have hcursor : cursor < (List.replicate cursor 0 ++ byte :: rest).length := by simp
      have hstore := Heap.store_eq h hcursor 0
      rw [hset] at hstore
      have hnext := ih (cursor + 1)
        (Heap.getElem?_set_self h ⟨List.replicate (cursor + 1) 0 ++ rest, spare, false⟩)
      rw [List.length_cons, zeroCells, hstore]
      change zeroCells address (cursor + 1) rest.length _ = _
      rw [hnext, List.set_set, Nat.add_right_comm, Nat.add_assoc]

/-! ## What a vector holds -/

/-- A vector holds all cells of its allocation, or none of them once they are zeros. -/
inductive Holds (heap : Heap) : ByteVector → List UInt8 → Prop
  | null : Holds heap {} []
  | full {address : ℕ} {bytes spare : List UInt8}
      (h : heap[address]? = some ⟨bytes, spare, false⟩) :
      Holds heap ⟨some address, bytes.length⟩ bytes
  | cleared {address size : ℕ} {spare : List UInt8}
      (h : heap[address]? = some ⟨List.replicate size 0, spare, false⟩) :
      Holds heap ⟨some address, 0⟩ []

namespace Holds

variable {heap heap' : Heap} {vector : ByteVector} {bytes : List UInt8}

lemma size_eq (h : Holds heap vector bytes) : vector.size = bytes.length := by
  cases h with
  | null => rfl
  | full _ => rfl
  | cleared _ => rfl

lemma congr (h : Holds heap vector bytes)
    (hsame : ∀ address, vector.data = some address → heap'[address]? = heap[address]?) :
    Holds heap' vector bytes := by
  cases h with
  | null => exact .null
  | full h => exact .full ((hsame _ rfl).trans h)
  | cleared h => exact .cleared ((hsame _ rfl).trans h)

/-- The bytes are read where they are. -/
lemma bytes_eq (h : Holds heap vector bytes) : vector.bytes heap = .ok bytes := by
  cases h with
  | null => rfl
  | full h =>
      rw [ByteVector.bytes]
      exact (Heap.load_eq h (le_refl _)).trans (congrArg Except.ok (List.take_length ..))
  | cleared h => exact Heap.load_eq h (Nat.zero_le _)

/-- A vector that holds nothing holds zeros. -/
lemma exists_zeros {address size : ℕ} (h : Holds heap ⟨some address, size⟩ []) :
    ∃ size spare, heap[address]? = some ⟨List.replicate size 0, spare, false⟩ := by
  generalize hvector : (⟨some address, size⟩ : ByteVector) = vector at h
  generalize hbytes : ([] : List UInt8) = bytes at h
  cases h with
  | null => cases hvector
  | full h =>
      cases hvector
      subst hbytes
      exact ⟨0, _, h⟩
  | cleared h =>
      cases hvector
      exact ⟨_, _, h⟩

end Holds

/-- A step inside the allocation of one vector, which stays live; all others are as they were. -/
structure Heap.Stays (data : Option ℕ) (heap heap' : Heap) : Prop where
  same : ∀ other, data ≠ some other → heap'[other]? = heap[other]?
  live : ∀ other, heap'.Live other ↔ heap.Live other
  wiped : heap.Wiped → heap'.Wiped

lemma Heap.stays_set {heap : Heap} {address : ℕ} {content spare : List UInt8}
    (h : heap[address]? = some ⟨content, spare, false⟩) (new : List UInt8) :
    Heap.Stays (some address) heap (heap.set address ⟨new, spare, false⟩) where
  same := by
    intro other hne
    apply Heap.getElem?_set_ne
    rintro rfl
    exact hne rfl
  live := Heap.live_set h new
  wiped := fun hwiped => hwiped.set_live h new

lemma Heap.Stays.refl (data : Option ℕ) (heap : Heap) : Heap.Stays data heap heap where
  same := fun _ _ => rfl
  live := fun _ => Iff.rfl
  wiped := id

namespace Holds

variable {heap : Heap} {vector : ByteVector} {bytes : List UInt8}

/-- `reset` leaves nothing in the vector and zeros in its allocation, which the vector keeps. -/
lemma reset (h : Holds heap vector bytes) : ∃ heap',
    SecureBuffer.reset vector heap = .ok (vector.clear, heap') ∧ Holds heap' vector.clear [] ∧
      Heap.Stays vector.data heap heap' := by
  cases h with
  | null => exact ⟨heap, rfl, .null, .refl _ _⟩
  | full h =>
      have hzero := zeroCells_eq bytes 0 h
      rw [Nat.zero_add] at hzero
      refine ⟨_, ?_, .cleared (Heap.getElem?_set_self h ⟨List.replicate bytes.length 0, _, false⟩),
        Heap.stays_set h _⟩
      rw [SecureBuffer.reset, secureZeroMemory, hzero]
      rfl
  | cleared h => exact ⟨heap, rfl, .cleared h, .refl _ _⟩

/-- The destructor of an emptied vector gives its allocation back. -/
lemma free (h : Holds heap vector []) : ∃ heap', vector.free heap = .ok heap' ∧
    (∀ other, vector.data ≠ some other → heap'[other]? = heap[other]?) ∧
    (∀ other, heap'.Live other ↔ heap.Live other ∧ vector.data ≠ some other) ∧
    (heap.Wiped → heap'.Wiped) := by
  obtain ⟨data, size⟩ := vector
  cases data with
  | none => exact ⟨heap, rfl, fun _ _ => rfl, fun _ => (and_iff_left nofun).symm, id⟩
  | some address =>
      obtain ⟨zeros, spare, hzeros⟩ := h.exists_zeros
      refine ⟨_, Heap.release_eq hzeros, ?_, ?_, fun hwiped => hwiped.release hzeros⟩
      · intro other hne
        apply Heap.getElem?_set_ne
        rintro rfl
        exact hne rfl
      · intro other
        rw [Heap.live_release hzeros, ne_eq, ne_eq, Option.some.injEq, eq_comm (a := other)]

lemma setByte (h : Holds heap vector bytes) {index : ℕ} (hindex : index < bytes.length)
    (byte : UInt8) : ∃ heap', vector.setByte index byte heap = .ok heap' ∧
      Holds heap' vector (bytes.set index byte) ∧ Heap.Stays vector.data heap heap' := by
  cases h with
  | null => exact absurd hindex (Nat.not_lt_zero _)
  | @full address bytes spare h =>
      refine ⟨_, Heap.store_eq h hindex byte, ?_, Heap.stays_set h _⟩
      have hheld := Holds.full (Heap.getElem?_set_self h ⟨bytes.set index byte, spare, false⟩)
      rwa [List.length_set] at hheld
  | cleared h => exact absurd hindex (Nat.not_lt_zero _)

end Holds

/-- A new vector holds its bytes. Its allocation is at an address that was never live. -/
lemma ByteVector.ofBytes_holds (bytes spare : List UInt8) (heap : Heap) :
    ∃ vector heap', ByteVector.ofBytes bytes spare heap = (vector, heap') ∧
      Holds heap' vector bytes ∧
      (∀ other, heap.Live other → heap'[other]? = heap[other]?) ∧
      (∀ other, heap'.Live other ↔ heap.Live other ∨ vector.data = some other) ∧
      (∀ address, vector.data = some address → ¬ heap.Live address) ∧
      (heap.Wiped → heap'.Wiped) := by
  by_cases hempty : bytes = [] ∧ spare = []
  · obtain ⟨rfl, rfl⟩ := hempty
    exact ⟨{}, heap, rfl, .null, fun _ _ => rfl, fun _ => (or_iff_left nofun).symm, nofun, id⟩
  · refine ⟨⟨some heap.length, bytes.length⟩, heap ++ [⟨bytes, spare, false⟩],
      by rw [ofBytes, if_neg hempty], .full List.getElem?_concat_length, ?_, ?_, ?_,
      fun hwiped => hwiped.append bytes spare⟩
    · rintro other ⟨content, _, hcontent⟩
      exact List.getElem?_append_left (List.getElem?_eq_some_iff.mp hcontent).1
    · intro other
      rw [Heap.live_append, Option.some.injEq, eq_comm (a := other)]
    · rintro address ⟨⟩
      exact Heap.not_live_length heap

/-! ## What the memory stands for -/

namespace SecureMemory

variable {memory : SecureMemory} {store : LinearBuffers}

/-- The allocation of a buffer, if it has one. A buffer that was moved from has none. -/
def owner (buffers : ℕ → Option ByteVector) (name : ℕ) : Option ℕ :=
  (buffers name).bind ByteVector.data

lemma owner_update (buffers : ℕ → Option ByteVector) (name : ℕ) (vector : Option ByteVector) :
    owner (update buffers name vector) =
      update (owner buffers) name (vector.bind ByteVector.data) := by
  funext other
  by_cases hother : other = name
  · subst hother
    rw [owner, update_self, update_self]
  · rw [owner, update_of_ne hother, update_of_ne hother, owner]

lemma owner_of_buffer {buffers : ℕ → Option ByteVector} {name : ℕ} {vector : ByteVector}
    (h : buffers name = some vector) : owner buffers name = vector.data := by
  rw [owner, h, Option.bind_some]

/-- Each buffer holds its byte string in an allocation of its own, and what was released is wiped.
-/
structure Represents (memory : SecureMemory) (store : LinearBuffers) : Prop where
  holds : ∀ name, Option.Rel (Holds memory.heap) (memory.buffers name) (store name)
  exclusive : Exclusive (owner memory.buffers) memory.heap.Live
  wiped : memory.heap.Wiped

namespace Represents

lemma empty : Represents {} (fun _ => none) where
  holds := fun _ => .none
  exclusive := by
    refine Exclusive.none.congr_live fun address => iff_of_false ?_ id
    rintro ⟨content, spare, hcontent⟩
    cases hcontent
  wiped := by
    intro address content spare hcontent
    cases hcontent

/-- The step rule: one buffer changes, and the allocations of the others are left alone. -/
lemma update (h : Represents memory store) {name : ℕ} {heap : Heap} {vector : Option ByteVector}
    {bytes : Option (List UInt8)}
    (hsame : ∀ other ≠ name, ∀ address, owner memory.buffers other = some address →
      heap[address]? = memory.heap[address]?)
    (hholds : Option.Rel (Holds heap) vector bytes)
    (hexclusive : Exclusive
      (Function.update (owner memory.buffers) name (vector.bind ByteVector.data)) heap.Live)
    (hwiped : heap.Wiped) :
    Represents ⟨heap, Function.update memory.buffers name vector⟩
      (Function.update store name bytes) where
  holds := by
    intro other
    by_cases hother : other = name
    · subst hother
      dsimp only
      rwa [update_self, update_self]
    · dsimp only
      rw [update_of_ne hother, update_of_ne hother]
      have hold := h.holds other
      -- The other buffers keep their vectors, and their allocations are not written to.
      have howner : ∀ v, memory.buffers other = some v → ∀ address, v.data = some address →
          heap[address]? = memory.heap[address]? := by
        intro v hv address haddress
        exact hsame other hother address ((owner_of_buffer hv).trans haddress)
      generalize memory.buffers other = held at hold howner
      generalize store other = bytes at hold
      cases hold with
      | some hold => exact .some (hold.congr (howner _ rfl))
      | none => exact .none
  exclusive := by
    rw [owner_update]
    exact hexclusive
  wiped := hwiped

/-- A move: the allocation changes its owner, and the bytes go with it. -/
lemma move (h : Represents memory store) {source target : ℕ} {vector : ByteVector}
    {bytes : List UInt8} (hvector : memory.buffers source = some vector)
    (hbytes : store source = some bytes)
    (htarget : owner memory.buffers target = none) :
    Represents ⟨memory.heap, Function.update (Function.update memory.buffers target (some vector))
      source (some {})⟩ (store.move source target bytes) where
  holds := by
    intro other
    rw [LinearBuffers.move]
    by_cases hsource : other = source
    · subst hsource
      dsimp only
      rw [update_self, update_self]
      exact .some .null
    · dsimp only
      rw [update_of_ne hsource, update_of_ne hsource]
      by_cases hother : other = target
      · subst hother
        have hold := h.holds source
        rw [hvector, hbytes] at hold
        rwa [update_self, update_self]
      · rw [update_of_ne hother, update_of_ne hother]
        exact h.holds other
  exclusive := by
    have htransfer := h.exclusive.transfer source htarget
    rw [owner_of_buffer hvector] at htransfer
    rw [owner_update, owner_update]
    exact htransfer
  wiped := h.wiped

end Represents

/-! ## The calls -/

/-- Both machines fail alike, or go on to states that belong together. -/
inductive Follows : Except Fault SecureMemory → Option LinearBuffers → Prop
  | ok {memory : SecureMemory} {store : LinearBuffers} (h : Represents memory store) :
      Follows (.ok memory) (some store)
  | misuse : Follows (.error .misuse) none

namespace Represents

/-- A name is in use for both machines, or for none. -/
lemma buffer_cases (h : Represents memory store) (name : ℕ) :
    (memory.buffers name = none ∧ store name = none) ∨
      ∃ vector bytes, memory.buffers name = some vector ∧ store name = some bytes ∧
        Holds memory.heap vector bytes := by
  have hholds := h.holds name
  cases hvector : memory.buffers name with
  | none =>
      rw [hvector] at hholds
      cases hbytes : store name with
      | none => exact .inl ⟨rfl, rfl⟩
      | some bytes =>
          rw [hbytes] at hholds
          cases hholds
  | some vector =>
      rw [hvector] at hholds
      cases hbytes : store name with
      | none =>
          rw [hbytes] at hholds
          cases hholds
      | some bytes =>
          rw [hbytes] at hholds
          cases hholds with
          | some hold => exact .inr ⟨vector, bytes, rfl, rfl, hold⟩

/-- Two buffers do not share an allocation. -/
lemma data_ne_of_owner (h : Represents memory store) {name other : ℕ} {vector : ByteVector}
    (hvector : memory.buffers name = some vector) (hne : other ≠ name) {address : ℕ}
    (hother : owner memory.buffers other = some address) : vector.data ≠ some address := by
  intro hdata
  exact hne (h.exclusive.unique hother ((owner_of_buffer hvector).trans hdata))

/-- A step inside the allocation of one buffer. -/
lemma update_of_stays (h : Represents memory store) {name : ℕ} {vector vector' : ByteVector}
    {bytes : List UInt8} {heap : Heap} (hvector : memory.buffers name = some vector)
    (hdata : vector'.data = vector.data) (hstays : Heap.Stays vector.data memory.heap heap)
    (hholds : Holds heap vector' bytes) :
    Represents ⟨heap, Function.update memory.buffers name (some vector')⟩
      (Function.update store name (some bytes)) := by
  refine h.update ?_ (.some hholds) ?_ (hstays.wiped h.wiped)
  · exact fun other hne address hother =>
      hstays.same address (h.data_ne_of_owner hvector hne hother)
  · rw [Option.bind_some, hdata, ← owner_of_buffer hvector, update_eq_self]
    exact h.exclusive.congr_live hstays.live

lemma create (h : Represents memory store) (name : ℕ) (bytes spare : List UInt8) :
    Follows (memory.create name bytes spare) (store.create name bytes) := by
  rw [SecureMemory.create, LinearBuffers.create, unused]
  rcases h.buffer_cases name with ⟨hvector, hbytes⟩ | ⟨vector, held, hvector, hbytes, -⟩
  · obtain ⟨vector, heap, hnew, hholds, hsame, hlive, hfresh, hwiped⟩ :=
      ByteVector.ofBytes_holds bytes spare memory.heap
    rw [hvector, hbytes, hnew]
    refine .ok (h.update ?_ (.some hholds) ?_ (hwiped h.wiped))
    · exact fun other _ address hother => hsame address (h.exclusive.live hother)
    · have howner : owner memory.buffers name = none := by rw [owner, hvector, Option.bind_none]
      rw [Option.bind_some]
      cases hdata : vector.data with
      | none =>
          rw [← howner, update_eq_self]
          exact h.exclusive.congr_live fun address => by simp [hlive, hdata]
      | some address =>
          refine (h.exclusive.allocate howner (hfresh address hdata)).congr_live fun other => ?_
          rw [hlive, hdata, Option.some.injEq, eq_comm (a := other)]
  · rw [hvector, hbytes]
    exact .misuse

lemma bytes_eq (h : Represents memory store) (name : ℕ) :
    memory.bytes name = store.bytes name := by
  rw [SecureMemory.bytes, buffer, LinearBuffers.bytes]
  rcases h.buffer_cases name with ⟨hvector, hbytes⟩ | ⟨vector, held, hvector, hbytes, hholds⟩
  · rw [hvector, hbytes]
    rfl
  · rw [hvector, hbytes]
    exact hholds.bytes_eq

lemma clone (h : Represents memory store) (source name : ℕ) :
    Follows (memory.clone source name) (store.clone source name) := by
  rw [SecureMemory.clone, LinearBuffers.clone, buffer]
  rcases h.buffer_cases source with ⟨hvector, hbytes⟩ | ⟨vector, held, hvector, hbytes, hholds⟩
  · rw [hvector, hbytes]
    exact .misuse
  · rw [hvector, hbytes]
    change Follows (vector.bytes memory.heap >>= fun bytes => memory.create name bytes []) _
    rw [hholds.bytes_eq]
    exact h.create name held []

lemma reset (h : Represents memory store) (name : ℕ) :
    Follows (memory.reset name) (store.reset name) := by
  rw [SecureMemory.reset, LinearBuffers.reset, buffer]
  rcases h.buffer_cases name with ⟨hvector, hbytes⟩ | ⟨vector, held, hvector, hbytes, hholds⟩
  · rw [hvector, hbytes]
    exact .misuse
  · obtain ⟨heap, hreset, hcleared, hstays⟩ := hholds.reset
    rw [hvector, hbytes]
    change Follows (SecureBuffer.reset vector memory.heap >>= _) _
    rw [hreset]
    exact .ok (h.update_of_stays hvector rfl hstays hcleared)

lemma setByte (h : Represents memory store) (name index : ℕ) (byte : UInt8) :
    Follows (memory.setByte name index byte) (store.setByte name index byte) := by
  rw [SecureMemory.setByte, LinearBuffers.setByte, buffer]
  rcases h.buffer_cases name with ⟨hvector, hbytes⟩ | ⟨vector, held, hvector, hbytes, hholds⟩
  · rw [hvector, hbytes]
    exact .misuse
  · rw [hvector, hbytes]
    by_cases hindex : held.length ≤ index
    · change Follows (if vector.size ≤ index then _ else _) (if held.length ≤ index then _ else _)
      rw [hholds.size_eq, if_pos hindex, if_pos hindex]
      exact .misuse
    · obtain ⟨heap, hset, hheld, hstays⟩ := hholds.setByte (not_le.mp hindex) byte
      change Follows (if vector.size ≤ index then _ else _) (if held.length ≤ index then _ else _)
      rw [hholds.size_eq, if_neg hindex, if_neg hindex]
      rw [hset]
      have hnext := h.update_of_stays hvector rfl hstays hheld
      rw [← hvector, update_eq_self] at hnext
      exact .ok hnext

/-- What the target of an assignment had is wiped and given back. A destruction does the same. -/
lemma emptied (h : Represents memory store) {name : ℕ} {vector : ByteVector}
    {bytes : List UInt8} (hvector : memory.buffers name = some vector)
    (hholds : Holds memory.heap vector bytes) : ∃ wiped freed,
      SecureBuffer.reset vector memory.heap = .ok (vector.clear, wiped) ∧
      vector.clear.free wiped = .ok freed ∧
      ∀ next held, Option.Rel (Holds freed) next held → next.bind ByteVector.data = none →
        Represents ⟨freed, Function.update memory.buffers name next⟩
          (Function.update store name held) := by
  obtain ⟨wiped, hreset, hcleared, hstays⟩ := hholds.reset
  obtain ⟨freed, hfree, hsame, hlive, hwiped⟩ := hcleared.free
  refine ⟨wiped, freed, hreset, hfree, fun next held hnext hdata => ?_⟩
  refine h.update ?_ hnext ?_ (hwiped (hstays.wiped h.wiped))
  · intro other hne address hother
    have hother' := h.data_ne_of_owner hvector hne hother
    exact (hsame address hother').trans (hstays.same address hother')
  · have hdata' : vector.clear.data = owner memory.buffers name := (owner_of_buffer hvector).symm
    rw [hdata]
    cases howner : owner memory.buffers name with
    | none =>
        rw [← howner, update_eq_self]
        refine h.exclusive.congr_live fun address => ?_
        rw [hlive, hstays.live, hdata', howner]
        exact and_iff_left nofun
    | some address =>
        refine (h.exclusive.release howner).congr_live fun other => ?_
        rw [hlive, hstays.live, hdata', howner, ne_eq, ne_eq, Option.some.injEq,
          eq_comm (a := other)]

lemma destroy (h : Represents memory store) (name : ℕ) :
    Follows (memory.destroy name) (store.destroy name) := by
  rw [SecureMemory.destroy, LinearBuffers.destroy, buffer]
  rcases h.buffer_cases name with ⟨hvector, hbytes⟩ | ⟨vector, held, hvector, hbytes, hholds⟩
  · rw [hvector, hbytes]
    exact .misuse
  · obtain ⟨wiped, freed, hreset, hfree, hnext⟩ := h.emptied hvector hholds
    have hdestroy : SecureBuffer.destroy vector memory.heap = .ok freed := by
      rw [SecureBuffer.destroy, hreset]
      exact hfree
    rw [hvector, hbytes]
    change Follows (SecureBuffer.destroy vector memory.heap >>= _) _
    rw [hdestroy]
    exact .ok (hnext none none .none rfl)

lemma moveConstruct (h : Represents memory store) (source name : ℕ) :
    Follows (memory.moveConstruct source name) (store.moveConstruct source name) := by
  rw [SecureMemory.moveConstruct, LinearBuffers.moveConstruct, buffer, unused]
  rcases h.buffer_cases source with ⟨hvector, hbytes⟩ | ⟨vector, held, hvector, hbytes, -⟩
  · rw [hvector, hbytes]
    exact .misuse
  · rw [hvector, hbytes]
    rcases h.buffer_cases name with ⟨hname, hbytes'⟩ | ⟨_, _, hname, hbytes', -⟩
    · rw [hname]
      change Follows _ (if (store name).isSome then _ else _)
      rw [hbytes']
      exact .ok (h.move hvector hbytes (by rw [owner, hname, Option.bind_none]))
    · rw [hname]
      change Follows _ (if (store name).isSome then _ else _)
      rw [hbytes']
      exact .misuse

lemma moveAssign (h : Represents memory store) (source target : ℕ) :
    Follows (memory.moveAssign source target) (store.moveAssign source target) := by
  rw [SecureMemory.moveAssign, LinearBuffers.moveAssign, buffer, buffer]
  rcases h.buffer_cases source with ⟨hvector, hbytes⟩ | ⟨other, held, hvector, hbytes, -⟩
  · rw [hvector, hbytes]
    exact .misuse
  rcases h.buffer_cases target with ⟨htarget, hbytes'⟩ | ⟨vector, lost, htarget, hbytes', hholds⟩
  · rw [hvector, hbytes, htarget, hbytes']
    exact .misuse
  rw [hvector, hbytes, htarget, hbytes']
  change Follows (if target = source then _ else _) (if target = source then _ else _)
  by_cases hself : target = source
  · rw [if_pos hself, if_pos hself]
    exact .ok h
  · rw [if_neg hself, if_neg hself]
    obtain ⟨wiped, freed, hreset, hfree, hnext⟩ := h.emptied htarget hholds
    have hassign : SecureBuffer.moveAssign vector other memory.heap = .ok (other, {}, freed) := by
      rw [SecureBuffer.moveAssign, hreset]
      change (vector.clear.free wiped >>= _) = _
      rw [hfree]
      rfl
    change Follows (SecureBuffer.moveAssign vector other memory.heap >>= _) _
    rw [hassign]
    -- the target is empty in between, and then takes over what the source had
    have hempty : owner (Function.update memory.buffers target (some {})) target = none := by
      rw [owner_update, update_self]
      rfl
    have hmoved := (hnext (some {}) (some []) (.some .null) rfl).move
      ((update_of_ne (Ne.symm hself) ..).trans hvector)
      ((update_of_ne (Ne.symm hself) ..).trans hbytes) hempty
    rw [LinearBuffers.move, update_idem] at hmoved
    dsimp only at hmoved
    rw [update_idem] at hmoved
    exact .ok hmoved

end Represents

/-- The answers agree, and the states that are left belong together. -/
lemma Follows.after {changed : Except Fault SecureMemory} {changed' : Option LinearBuffers}
    (h : Follows changed changed') (hstart : Represents memory store) :
    (memory.after changed).1 = (store.after changed').1 ∧
      Represents (memory.after changed).2 (store.after changed').2 := by
  cases h with
  | ok hnext => exact ⟨rfl, hnext⟩
  | misuse => exact ⟨rfl, hstart⟩

lemma Represents.step (h : Represents memory store) (c : SecureBufferCall) :
    (memory.call c).1 = (store.call c).1 ∧
      Represents (memory.call c).2 (store.call c).2 := by
  cases c with
  | ofSize name size => exact (h.create name _ []).after h
  | ofVector name bytes spare => exact (h.create name bytes spare).after h
  | copyFrom name bytes => exact (h.create name bytes []).after h
  | clone source name => exact (h.clone source name).after h
  | moveConstruct source name => exact (h.moveConstruct source name).after h
  | moveAssign source target => exact (h.moveAssign source target).after h
  | setByte name index byte => exact (h.setByte name index byte).after h
  | bytes name => exact ⟨h.bytes_eq name, h⟩
  | reset name => exact (h.reset name).after h
  | destroy name => exact (h.destroy name).after h

lemma Represents.simulates : Simulates SecureMemory.call LinearBuffers.call Represents where
  answer := fun h c => (h.step c).1
  next := fun h c => (h.step c).2

end SecureMemory

/-! ## Capacity -/

namespace Heap

variable {heap heap' : Heap} {address : ℕ}

/-- The room of every allocation: how many cells its vector counted, and the cells behind them. No
call changes the room of an allocation that is there. -/
def rooms (heap : Heap) : List (ℕ × List UInt8) :=
  heap.map fun allocation => (allocation.cells.length, allocation.spare)

lemma getElem?_of_access {allocation : Allocation} (h : heap.access address = .ok allocation) :
    heap[address]? = some allocation := by
  rw [access] at h
  cases hfound : heap[address]? with
  | none =>
      rw [hfound] at h
      cases h
  | some found =>
      rw [hfound] at h
      dsimp only at h
      split at h
      · cases h
      · cases h
        rfl

lemma rooms_set {old new : Allocation} (h : heap[address]? = some old)
    (hlength : new.cells.length = old.cells.length) (hspare : new.spare = old.spare) :
    rooms (heap.set address new) = heap.rooms := by
  rw [rooms, rooms, List.map_set, hlength, hspare]
  refine List.ext_getElem? fun i => ?_
  by_cases hi : address = i
  · subst hi
    rw [List.getElem?_map, h, Option.map_some, List.getElem?_set_self]
    rw [List.length_map]
    exact (List.getElem?_eq_some_iff.mp h).1
  · rw [List.getElem?_set_ne hi]

lemma rooms_store {index : ℕ} {byte : UInt8} (h : heap.store address index byte = .ok heap') :
    heap'.rooms = heap.rooms := by
  obtain ⟨allocation, haccess, h⟩ := Loops.bind_eq_ok.mp h
  split at h
  · cases h
    exact rooms_set (getElem?_of_access haccess) List.length_set rfl
  · cases h

lemma rooms_release (h : heap.release address = .ok heap') : heap'.rooms = heap.rooms := by
  obtain ⟨allocation, haccess, h⟩ := Loops.bind_eq_ok.mp h
  cases h
  exact rooms_set (getElem?_of_access haccess) rfl rfl

lemma rooms_zeroCells {cursor size : ℕ} (h : zeroCells address cursor size heap = .ok heap') :
    heap'.rooms = heap.rooms := by
  induction size generalizing cursor heap with
  | zero =>
      cases h
      rfl
  | succ size ih =>
      obtain ⟨next, hstore, h⟩ := Loops.bind_eq_ok.mp h
      exact (ih h).trans (rooms_store hstore)

lemma rooms_free {vector : ByteVector} (h : vector.free heap = .ok heap') :
    heap'.rooms = heap.rooms := by
  obtain ⟨_ | address, size⟩ := vector
  · cases h
    rfl
  · exact rooms_release h

lemma rooms_reset {vector vector' : ByteVector}
    (h : SecureBuffer.reset vector heap = .ok (vector', heap')) : heap'.rooms = heap.rooms := by
  obtain ⟨next, hzero, h⟩ := Loops.bind_eq_ok.mp h
  cases h
  obtain ⟨_ | address, size⟩ := vector
  · cases hzero
    rfl
  · exact rooms_zeroCells hzero

end Heap

namespace SecureMemory

variable {memory next : SecureMemory}

/-- The room that a call makes, if it makes any. Only an adopted vector has cells behind its bytes.
-/
def MakesRoom (c : SecureBufferCall) (room : ℕ × List UInt8) : Prop :=
  room.2 = [] ∨ ∃ name bytes, c = .ofVector name bytes room.2 ∧ bytes.length = room.1

lemma mem_rooms_create {name : ℕ} {bytes spare : List UInt8}
    (h : memory.create name bytes spare = .ok next) {room : ℕ × List UInt8}
    (hroom : room ∈ next.heap.rooms) : room ∈ memory.heap.rooms ∨ room = (bytes.length, spare) := by
  obtain ⟨-, -, h⟩ := Loops.bind_eq_ok.mp h
  cases h
  change room ∈ (ByteVector.ofBytes bytes spare memory.heap).2.rooms at hroom
  rw [ByteVector.ofBytes] at hroom
  split at hroom
  · exact .inl hroom
  · rw [Heap.rooms, List.map_append, List.mem_append] at hroom
    exact hroom.imp id List.mem_singleton.mp

/-- Every other call works in the room there is. -/
lemma rooms_setByte {name index : ℕ} {byte : UInt8}
    (h : memory.setByte name index byte = .ok next) :
    next.heap.rooms = memory.heap.rooms := by
  obtain ⟨vector, -, h⟩ := Loops.bind_eq_ok.mp h
  split at h
  · cases h
  obtain ⟨heap, hset, h⟩ := Loops.bind_eq_ok.mp h
  cases h
  obtain ⟨_ | address, size⟩ := vector
  · cases hset
  · exact Heap.rooms_store hset

lemma rooms_moveConstruct {source name : ℕ} (h : memory.moveConstruct source name = .ok next) :
    next.heap.rooms = memory.heap.rooms := by
  obtain ⟨other, -, h⟩ := Loops.bind_eq_ok.mp h
  obtain ⟨-, -, h⟩ := Loops.bind_eq_ok.mp h
  cases h
  rfl

lemma rooms_moveAssign {source target : ℕ} (h : memory.moveAssign source target = .ok next) :
    next.heap.rooms = memory.heap.rooms := by
  obtain ⟨other, -, h⟩ := Loops.bind_eq_ok.mp h
  obtain ⟨vector, -, h⟩ := Loops.bind_eq_ok.mp h
  split at h
  · cases h
    rfl
  obtain ⟨⟨moved, left, heap⟩, hassign, h⟩ := Loops.bind_eq_ok.mp h
  cases h
  obtain ⟨⟨emptied, wiped⟩, hreset, hassign⟩ := Loops.bind_eq_ok.mp hassign
  obtain ⟨freed, hfree, hassign⟩ := Loops.bind_eq_ok.mp hassign
  cases hassign
  exact (Heap.rooms_free hfree).trans (Heap.rooms_reset hreset)

lemma rooms_reset {name : ℕ} (h : memory.reset name = .ok next) :
    next.heap.rooms = memory.heap.rooms := by
  obtain ⟨vector, -, h⟩ := Loops.bind_eq_ok.mp h
  obtain ⟨⟨emptied, wiped⟩, hreset, h⟩ := Loops.bind_eq_ok.mp h
  cases h
  exact Heap.rooms_reset hreset

lemma rooms_destroy {name : ℕ} (h : memory.destroy name = .ok next) :
    next.heap.rooms = memory.heap.rooms := by
  obtain ⟨vector, -, h⟩ := Loops.bind_eq_ok.mp h
  obtain ⟨heap, hdestroy, h⟩ := Loops.bind_eq_ok.mp h
  cases h
  obtain ⟨⟨emptied, wiped⟩, hreset, hfree⟩ := Loops.bind_eq_ok.mp hdestroy
  exact (Heap.rooms_free hfree).trans (Heap.rooms_reset hreset)

/-- A faulty call makes no room. -/
lemma mem_rooms_after {changed : Except Fault SecureMemory} {P : ℕ × List UInt8 → Prop}
    (h : ∀ next, changed = .ok next →
      ∀ room ∈ next.heap.rooms, room ∈ memory.heap.rooms ∨ P room)
    {room : ℕ × List UInt8} (hroom : room ∈ (memory.after changed).2.heap.rooms) :
    room ∈ memory.heap.rooms ∨ P room := by
  cases changed with
  | ok next => exact h next rfl room hroom
  | error fault => exact .inl hroom

lemma mem_rooms_call {c : SecureBufferCall} {room : ℕ × List UInt8}
    (hroom : room ∈ (memory.call c).2.heap.rooms) :
    room ∈ memory.heap.rooms ∨ MakesRoom c room := by
  -- what makes no vector of another owner makes no spare room
  have hexact : ∀ {name : ℕ} {bytes : List UInt8} (next : SecureMemory),
      memory.create name bytes [] = .ok next →
      ∀ room ∈ next.heap.rooms, room ∈ memory.heap.rooms ∨ MakesRoom c room :=
    fun next h room hroom => (mem_rooms_create h hroom).imp id fun heq => .inl (by rw [heq])
  have hkept : ∀ {changed : Except Fault SecureMemory},
      (∀ {next}, changed = .ok next → next.heap.rooms = memory.heap.rooms) →
      ∀ next, changed = .ok next →
      ∀ room ∈ next.heap.rooms, room ∈ memory.heap.rooms ∨ MakesRoom c room :=
    fun hrooms next h room hroom => .inl (hrooms h ▸ hroom)
  cases c with
  | ofSize name size => exact mem_rooms_after hexact hroom
  | ofVector name bytes spare =>
      refine mem_rooms_after (fun next h room hroom => ?_) hroom
      refine (mem_rooms_create h hroom).imp id ?_
      rintro rfl
      exact .inr ⟨name, bytes, rfl, rfl⟩
  | copyFrom name bytes => exact mem_rooms_after hexact hroom
  | clone source name =>
      refine mem_rooms_after (fun next h => ?_) hroom
      obtain ⟨vector, -, h⟩ := Loops.bind_eq_ok.mp h
      obtain ⟨bytes, -, h⟩ := Loops.bind_eq_ok.mp h
      exact hexact next h
  | moveConstruct source name => exact mem_rooms_after (hkept rooms_moveConstruct) hroom
  | moveAssign source target => exact mem_rooms_after (hkept rooms_moveAssign) hroom
  | setByte name index byte => exact mem_rooms_after (hkept rooms_setByte) hroom
  | bytes name => exact .inl hroom
  | reset name => exact mem_rooms_after (hkept rooms_reset) hroom
  | destroy name => exact mem_rooms_after (hkept rooms_destroy) hroom

lemma mem_rooms_stateAfter (calls : List SecureBufferCall) {room : ℕ × List UInt8}
    (hroom : room ∈ (stateAfter SecureMemory.call memory calls).heap.rooms) :
    room ∈ memory.heap.rooms ∨ ∃ c ∈ calls, MakesRoom c room := by
  induction calls generalizing memory with
  | nil => exact .inl hroom
  | cons first calls ih =>
      obtain hafter | ⟨c, hc, hmakes⟩ := ih hroom
      · exact (mem_rooms_call hafter).imp id fun hmakes => ⟨first, List.mem_cons_self, hmakes⟩
      · exact .inr ⟨c, List.mem_cons_of_mem first hc, hmakes⟩

end SecureMemory

/-! ## Runs -/

/-- Whatever the calls, the buffers answer like byte strings that move between names. No call
reaches memory that was released or that was never there. -/
theorem secureBuffers_answer (calls : List SecureBufferCall) :
    (answers SecureMemory.call {} calls).1 =
        (answers LinearBuffers.call (fun _ => none) calls).1 ∧
      .error .badAccess ∉ (answers SecureMemory.call {} calls).1 := by
  have hagree := SecureMemory.Represents.simulates.answers_eq .empty calls
  refine ⟨hagree, fun hbad => ?_⟩
  rw [hagree] at hbad
  exact forall_mem_answers (P := (· ≠ .error .badAccess)) LinearBuffers.call_ne_badAccess _ calls _
    hbad rfl

/-- Whatever the calls, an allocation that was released holds zeros where its vector counted bytes,
and one that was not has one owner. The cells that no vector counted are what an adopted vector
brought along behind its bytes, in either case: nothing wipes them. -/
theorem secureBuffers_wiped (calls : List SecureBufferCall) (address : ℕ) (allocation : Allocation)
    (h : (stateAfter SecureMemory.call {} calls).heap[address]? = some allocation) :
    (if allocation.released then ∀ byte ∈ allocation.cells, byte = 0
    else ∃! name, ∃ vector, (stateAfter SecureMemory.call {} calls).buffers name = some vector ∧
      vector.data = some address) ∧
    (allocation.spare ≠ [] → ∃ name bytes, bytes.length = allocation.cells.length ∧
      SecureBufferCall.ofVector name bytes allocation.spare ∈ calls) := by
  constructor
  · have hstate := SecureMemory.Represents.simulates.stateAfter .empty calls
    obtain ⟨content, spare, released⟩ := allocation
    cases released with
    | true => exact hstate.wiped address content spare h
    | false =>
        obtain ⟨name, howner, hunique⟩ := hstate.exclusive.existsUnique ⟨content, spare, h⟩
        exact ⟨name, Option.bind_eq_some_iff.mp howner,
          fun other hother => hunique other (Option.bind_eq_some_iff.mpr hother)⟩
  · intro hspare
    have hroom : (allocation.cells.length, allocation.spare) ∈
        (stateAfter SecureMemory.call {} calls).heap.rooms :=
      List.mem_map_of_mem (List.mem_of_getElem? h)
    obtain hold | ⟨c, hc, hempty | ⟨name, bytes, rfl, hlength⟩⟩ :=
      SecureMemory.mem_rooms_stateAfter calls hroom
    · cases hold
    · exact absurd hempty hspare
    · exact ⟨name, bytes, hlength, hc⟩

/-- A secret that is moved and then destroyed under its second name. The vector it came in had been
larger. -/
theorem secureBuffers_wiped_moved :
    (if (Allocation.mk [0, 0] [3, 4] true).released then ∀ byte ∈ [(0 : UInt8), 0], byte = 0
    else ∃! name, ∃ vector, (stateAfter SecureMemory.call {}
      [.ofVector 0 [7, 9] [3, 4], .moveConstruct 0 1, .destroy 1]).buffers name = some vector ∧
        vector.data = some 0) ∧
    ([(3 : UInt8), 4] ≠ [] → ∃ name, ∃ bytes : List UInt8, bytes.length = 2 ∧
      SecureBufferCall.ofVector name bytes [3, 4] ∈
        [.ofVector 0 [7, 9] [3, 4], .moveConstruct 0 1, .destroy 1]) :=
  secureBuffers_wiped [.ofVector 0 [7, 9] [3, 4], .moveConstruct 0 1, .destroy 1] 0
    ⟨[0, 0], [3, 4], true⟩ rfl

end CryptoCore
