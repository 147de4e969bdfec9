import CryptoCore.Framework.Blocks

/-!
# Streaming block hashes

A context holds a chaining state and a buffer of less than a block. `absorb` fills the buffer from
its input and compresses it whenever it is full; `finish` pads what is left and compresses it.
However a message is cut into inputs, the result is the chain over the blocks of the padded message.

The compression function, the elements and the size of a block are parameters, and so are the
marker, the zero and the length field of the padding; a field that is shorter than a block is all
that is assumed of them. `Absorbed` is the invariant: it relates a context to the whole message that
it has taken in. `Absorbed.absorb` says that an input extends the message, `Absorbed.finish_eq` that
the result of a context is determined by the message, and the two together that the inputs do not
matter.

`Buffered` does the same on an array of one block and a count of the elements in use: the elements
behind the count are left over from earlier blocks, and none of them reaches the result. It refines
the context without an array (`absorb_refines`, `finish_refines`), so that the invariant carries
over.
-/

namespace MerkleDamgard

open Blocks

universe u v

variable {σ : Type u} {α : Type v} (compress : σ → List α → σ) (size : ℕ)

/-! ## The two operations -/

/-- The loop of `absorb`. Every round takes at least one element of the input. -/
def absorbLoop : ℕ → σ → List α → List α → σ × List α
  | 0, state, buffer, _ => (state, buffer)
  | rounds + 1, state, buffer, input =>
      if input.isEmpty then (state, buffer)
      else
        let take := min (size - buffer.length) input.length
        let filled := buffer ++ input.take take
        if filled.length = size then
          absorbLoop rounds (compress state filled) [] (input.drop take)
        else absorbLoop rounds state filled (input.drop take)

/-- Takes an input in. The loop has as many rounds as the input has elements, which is more than
enough. -/
def absorb (context : σ × List α) (input : List α) : σ × List α :=
  absorbLoop compress size input.length context.1 context.2 input

/-- Appends the marker, fills up with zeros and ends the last block with the length field. The
marker and the length field share the last block when both fit. -/
def finish (marker zero : α) (lengthField : List α) (context : σ × List α) : σ :=
  let buffer := context.2 ++ [marker]
  let limit := size - lengthField.length
  -- Without room for the length field the marker closes a block of its own.
  let overflow := decide (buffer.length > limit)
  let state :=
    if overflow then
      compress context.1 (buffer ++ List.replicate (size - buffer.length) zero)
    else context.1
  let rest := if overflow then [] else buffer
  compress state (rest ++ List.replicate (limit - rest.length) zero ++ lengthField)

/-! ## What they compute -/

/-- The chain over the blocks of a message: the compression function folded over them from an
initial state. -/
def chain (init : σ) (message : List α) : σ :=
  (blocks size message).foldl compress init

/-- The message, the marker, as few zeros as make whole blocks, and the length field at the end of
the last block. -/
def pad (marker zero : α) (lengthField message : List α) : List α :=
  let used := message.length + 1 + lengthField.length
  message ++ marker :: List.replicate ((size - used % size) % size) zero ++ lengthField

/-- The context reached after a message: its full blocks are in the chain, the rest is in the
buffer. -/
structure Absorbed (init : σ) (message : List α) (context : σ × List α) : Prop where
  exists_full : ∃ full, message = full ++ context.2 ∧ size ∣ full.length ∧
    context.1 = chain compress size init full
  buffer_lt : context.2.length < size

variable {compress size}

lemma Absorbed.nil (hsize : 0 < size) (init : σ) : Absorbed compress size init [] (init, []) where
  exists_full := ⟨[], rfl, dvd_zero _, rfl⟩
  buffer_lt := hsize

/-- One more full block, behind a message of full blocks, is one more compression. -/
lemma chain_append (hsize : 0 < size) (init : σ) {full block : List α}
    (hfull : size ∣ full.length) (hblock : block.length = size) :
    chain compress size init (full ++ block) = compress (chain compress size init full) block := by
  rw [chain, blocks_append_of_dvd hsize full block hfull, blocks_of_length_eq hsize hblock,
    List.foldl_append]
  rfl

/-- A round of the loop moves a piece of the input into the context, and the context stays one of
the message so far. -/
lemma Absorbed.absorbLoop {init : σ} {rounds : ℕ} :
    ∀ {message input : List α} {state : σ} {buffer : List α},
      Absorbed compress size init message (state, buffer) → input.length ≤ rounds →
      Absorbed compress size init (message ++ input)
        (absorbLoop compress size rounds state buffer input) := by
  induction rounds with
  | zero =>
      intro message input state buffer h hrounds
      rw [List.length_eq_zero_iff.mp (Nat.le_zero.mp hrounds), List.append_nil]
      exact h
  | succ rounds ih =>
      intro message input state buffer h hrounds
      rw [MerkleDamgard.absorbLoop]
      by_cases hinput : input = []
      · simpa [hinput] using h
      · rw [if_neg (by simpa using hinput)]
        obtain ⟨full, hmessage, hdvd, hstate⟩ := h.exists_full
        have hlt : buffer.length < size := h.buffer_lt
        have hpos : 0 < input.length := List.length_pos_iff.mpr hinput
        generalize htake : min (size - buffer.length) input.length = take
        have hfilled : (buffer ++ input.take take).length = buffer.length + take := by
          rw [List.length_append, List.length_take]
          omega
        have hrest : (input.drop take).length ≤ rounds := by
          rw [List.length_drop]
          omega
        have hsplit : message ++ input = message ++ input.take take ++ input.drop take := by
          rw [List.append_assoc, List.take_append_drop]
        rw [hsplit]
        dsimp only
        split
        · -- the buffer is full and becomes a block of the chain
          rename_i hblock
          refine ih ⟨⟨full ++ (buffer ++ input.take take), ?_, ?_, ?_⟩, ?_⟩ hrest
          · rw [hmessage, List.append_nil, List.append_assoc]
          · rw [List.length_append, hblock]
            exact Nat.dvd_add hdvd dvd_rfl
          · rw [chain_append (by omega) init hdvd hblock, ← hstate]
          · show 0 < size
            omega
        · rename_i hblock
          refine ih ⟨⟨full, ?_, hdvd, hstate⟩, ?_⟩ hrest
          · rw [hmessage, List.append_assoc]
          · show (buffer ++ input.take take).length < size
            omega

/-- Absorbing an input extends the message. -/
theorem Absorbed.absorb {init : σ} {message : List α} {context : σ × List α}
    (h : Absorbed compress size init message context) (input : List α) :
    Absorbed compress size init (message ++ input) (absorb compress size context input) :=
  Absorbed.absorbLoop h le_rfl

/-- Finishing a context is the chain over the padded message. The marker and the field share the
last block when both fit, and otherwise the marker ends a block of its own. -/
theorem Absorbed.finish_eq {init : σ} {message : List α} {context : σ × List α}
    (h : Absorbed compress size init message context) (marker zero : α) {lengthField : List α}
    (hfield : lengthField.length < size) :
    finish compress size marker zero lengthField context =
      chain compress size init (pad size marker zero lengthField message) := by
  obtain ⟨full, hmessage, hdvd, hstate⟩ := h.exists_full
  obtain ⟨state, buffer⟩ := context
  have hlt : buffer.length < size := h.buffer_lt
  have hsize : 0 < size := Nat.zero_lt_of_lt hlt
  dsimp only at hmessage hstate
  obtain ⟨k, hk⟩ := hdvd
  have hused : (message.length + 1 + lengthField.length) % size =
      (buffer.length + 1 + lengthField.length) % size := by
    have hlength : message.length + 1 + lengthField.length =
        buffer.length + 1 + lengthField.length + size * k := by
      rw [hmessage, List.length_append, hk]
      omega
    rw [hlength, Nat.add_mul_mod_self_left]
  by_cases hfits : buffer.length + 1 + lengthField.length ≤ size
  · -- one block takes the marker and the length field
    have hzeros : (size - (buffer.length + 1 + lengthField.length) % size) % size =
        size - lengthField.length - (buffer.length + 1) := by
      rcases Nat.eq_or_lt_of_le hfits with heq | hlt'
      · rw [heq, Nat.mod_self, Nat.sub_zero, Nat.mod_self]
        omega
      · rw [Nat.mod_eq_of_lt hlt', Nat.mod_eq_of_lt (by omega)]
        omega
    have hover : ¬ (buffer ++ [marker]).length > size - lengthField.length := by
      rw [List.length_append, List.length_singleton]
      omega
    have hpad : pad size marker zero lengthField message = full ++ (buffer ++ [marker] ++
        List.replicate (size - lengthField.length - (buffer ++ [marker]).length) zero ++
        lengthField) := by
      rw [pad, hused, hzeros, hmessage]
      simp only [List.length_append, List.length_singleton, List.append_assoc, List.cons_append,
        List.nil_append]
    rw [hpad, chain_append hsize init ⟨k, hk⟩, ← hstate]
    · simp only [finish, hover, decide_false, Bool.false_eq_true, if_false]
    · simp only [List.length_append, List.length_replicate, List.length_singleton]
      omega
  · -- the marker ends a block of its own and the length field the one after it
    have hzeros : (size - (buffer.length + 1 + lengthField.length) % size) % size =
        size - (buffer.length + 1) + (size - lengthField.length) := by
      have hwrap : (buffer.length + 1 + lengthField.length) % size =
          buffer.length + 1 + lengthField.length - size := by
        rw [Nat.mod_eq_sub_mod (by omega), Nat.mod_eq_of_lt (by omega)]
      rw [hwrap, Nat.mod_eq_of_lt (by omega)]
      omega
    have hover : (buffer ++ [marker]).length > size - lengthField.length := by
      rw [List.length_append, List.length_singleton]
      omega
    have hpad : pad size marker zero lengthField message =
        full ++ (buffer ++ [marker] ++
          List.replicate (size - (buffer ++ [marker]).length) zero) ++
        (List.replicate (size - lengthField.length) zero ++ lengthField) := by
      rw [pad, hused, hzeros, hmessage, List.replicate_add]
      simp only [List.length_append, List.length_singleton, List.append_assoc, List.cons_append,
        List.nil_append]
    have hblock : (buffer ++ [marker] ++
        List.replicate (size - (buffer ++ [marker]).length) zero).length = size := by
      simp only [List.length_append, List.length_replicate, List.length_singleton]
      omega
    rw [hpad, chain_append hsize init, chain_append hsize init ⟨k, hk⟩ hblock, ← hstate]
    · simp only [finish, hover, decide_true, if_true, List.nil_append, List.length_nil,
        Nat.sub_zero]
    · rw [List.length_append, hblock, hk]
      exact ⟨k + 1, by ring⟩
    · simp only [List.length_append, List.length_replicate]
      omega

/-! ## Contexts on an array -/

/-- `memcpy` to an offset of an array. What the piece does not reach keeps its elements. -/
def overwrite {size : ℕ} (buffer : Vector α size) (offset : ℕ) (piece : List α) :
    Vector α size :=
  Vector.ofFn fun i =>
    if offset ≤ i.val then piece[i.val - offset]?.getD buffer[i] else buffer[i]

/-- The elements in front of the offset stay, and the piece follows them. -/
lemma take_overwrite {size : ℕ} (buffer : Vector α size) (offset : ℕ) (piece : List α)
    (hfits : offset + piece.length ≤ size) :
    (overwrite buffer offset piece).toList.take (offset + piece.length) =
      buffer.toList.take offset ++ piece := by
  have hfront : (buffer.toList.take offset).length = offset := by
    rw [List.length_take, Vector.length_toList]
    omega
  apply List.ext_getElem
  · rw [List.length_take, Vector.length_toList, List.length_append, hfront]
    omega
  · intro i hi _
    rw [List.length_take, Vector.length_toList] at hi
    simp only [List.getElem_take, Vector.getElem_toList, overwrite, Vector.getElem_ofFn]
    by_cases hbehind : offset ≤ i
    · rw [if_pos hbehind, List.getElem?_eq_getElem (by omega), Option.getD_some,
        List.getElem_append_right (by omega)]
      simp only [hfront]
    · rw [if_neg hbehind, List.getElem_append_left (by omega), List.getElem_take,
        Vector.getElem_toList]
      rfl

/-- A piece that ends at the end of the array leaves the elements in front of the offset and itself.
-/
lemma toList_overwrite {size : ℕ} (buffer : Vector α size) {offset : ℕ} {piece : List α}
    (hend : offset + piece.length = size) :
    (overwrite buffer offset piece).toList = buffer.toList.take offset ++ piece := by
  rw [← take_overwrite buffer offset piece hend.le, hend, List.take_of_length_le]
  rw [Vector.length_toList]

/-- A context whose buffer is an array with a count of the elements in use. -/
structure Buffered (σ : Type u) (α : Type v) (size : ℕ) where
  state : σ
  buffer : Vector α size
  bufferSize : ℕ

namespace Buffered

variable (compress)

/-- The loop of `absorb`. A full array is compressed and stays as it is, with none of its elements
in use. -/
def absorbLoop : ℕ → Buffered σ α size → List α → Buffered σ α size
  | 0, context, _ => context
  | rounds + 1, context, input =>
      if input.isEmpty then context
      else
        let take := min (size - context.bufferSize) input.length
        let buffer := overwrite context.buffer context.bufferSize (input.take take)
        let bufferSize := context.bufferSize + take
        if bufferSize = size then
          absorbLoop rounds ⟨compress context.state buffer.toList, buffer, 0⟩ (input.drop take)
        else absorbLoop rounds ⟨context.state, buffer, bufferSize⟩ (input.drop take)

def absorb (context : Buffered σ α size) (input : List α) : Buffered σ α size :=
  absorbLoop compress input.length context input

/-- Writes the marker, then zeros up to the length field, which may need a block of its own. -/
def finish (marker zero : α) (lengthField : List α) (context : Buffered σ α size) :
    Buffered σ α size :=
  let buffer := overwrite context.buffer context.bufferSize [marker]
  let bufferSize := context.bufferSize + 1
  let limit := size - lengthField.length
  let context : Buffered σ α size :=
    if bufferSize > limit then
      let buffer := overwrite buffer bufferSize (List.replicate (size - bufferSize) zero)
      ⟨compress context.state buffer.toList, buffer, 0⟩
    else ⟨context.state, buffer, bufferSize⟩
  let buffer := overwrite context.buffer context.bufferSize
    (List.replicate (limit - context.bufferSize) zero)
  let buffer := overwrite buffer limit lengthField
  ⟨compress context.state buffer.toList, buffer, context.bufferSize⟩

/-- The elements in use, those in front of the count. -/
def filled (context : Buffered σ α size) : List α :=
  context.buffer.toList.take context.bufferSize

lemma length_filled {context : Buffered σ α size} (h : context.bufferSize ≤ size) :
    context.filled.length = context.bufferSize := by
  rw [filled, List.length_take, Vector.length_toList, Nat.min_eq_left h]

variable {compress}

/-- Absorbing into the array is absorbing into the elements in use, round by round. -/
lemma absorbLoop_refines {rounds : ℕ} :
    ∀ {context : Buffered σ α size} {input : List α}, context.bufferSize < size →
      (absorbLoop compress rounds context input).bufferSize < size ∧
      ((absorbLoop compress rounds context input).state,
        (absorbLoop compress rounds context input).filled) =
          MerkleDamgard.absorbLoop compress size rounds context.state context.filled input := by
  induction rounds with
  | zero =>
      intro context input hlt
      exact ⟨hlt, rfl⟩
  | succ rounds ih =>
      intro context input hlt
      rw [absorbLoop, MerkleDamgard.absorbLoop]
      by_cases hinput : input.isEmpty = true
      · rw [if_pos hinput, if_pos hinput]
        exact ⟨hlt, rfl⟩
      · have hlength := length_filled hlt.le
        have hpiece : (input.take (min (size - context.bufferSize) input.length)).length =
            min (size - context.bufferSize) input.length := by
          rw [List.length_take]
          omega
        have htake := take_overwrite context.buffer context.bufferSize
          (input.take (min (size - context.bufferSize) input.length)) (by omega)
        rw [hpiece] at htake
        rw [if_neg hinput, if_neg hinput]
        simp only [hlength, List.length_append, hpiece]
        by_cases hfull : context.bufferSize + min (size - context.bufferSize) input.length = size
        · -- the whole array is in use and goes into the state
          have hblock : (overwrite context.buffer context.bufferSize
              (input.take (min (size - context.bufferSize) input.length))).toList =
              context.filled ++ input.take (min (size - context.bufferSize) input.length) :=
            toList_overwrite context.buffer (by rw [hpiece, hfull])
          rw [if_pos hfull, if_pos hfull, hblock]
          exact ih (Nat.zero_lt_of_lt hlt)
        · have hfilled : context.filled ++
              input.take (min (size - context.bufferSize) input.length) =
              Buffered.filled ⟨context.state, overwrite context.buffer context.bufferSize
                (input.take (min (size - context.bufferSize) input.length)),
                context.bufferSize + min (size - context.bufferSize) input.length⟩ := htake.symm
          rw [if_neg hfull, if_neg hfull, hfilled]
          apply ih
          dsimp only
          omega

/-- Absorbing an input keeps the count below the size of the array, and gives the state and the
elements of the context without an array. -/
theorem absorb_refines (compress : σ → List α → σ) (context : Buffered σ α size)
    (input : List α) (hlt : context.bufferSize < size) :
    (absorb compress context input).bufferSize < size ∧
      ((absorb compress context input).state, (absorb compress context input).filled) =
        MerkleDamgard.absorb compress size (context.state, context.filled) input :=
  absorbLoop_refines hlt

/-- Finishing the array is finishing the elements in use: every element behind them is written
before the array is compressed. -/
theorem finish_refines (compress : σ → List α → σ) (context : Buffered σ α size)
    (hlt : context.bufferSize < size) (marker zero : α) {lengthField : List α}
    (hfield : lengthField.length < size) :
    (finish compress marker zero lengthField context).state =
      MerkleDamgard.finish compress size marker zero lengthField
        (context.state, context.filled) := by
  have hlength := length_filled hlt.le
  have hmarker : (overwrite context.buffer context.bufferSize [marker]).toList.take
      (context.bufferSize + 1) = context.filled ++ [marker] :=
    take_overwrite context.buffer context.bufferSize [marker] (Nat.succ_le_of_lt hlt)
  -- the last block: what is in use, zeros and the length field
  have hlast : ∀ (buffer : Vector α size) {used : ℕ}, used ≤ size - lengthField.length →
      (overwrite (overwrite buffer used
        (List.replicate (size - lengthField.length - used) zero))
          (size - lengthField.length) lengthField).toList =
        buffer.toList.take used ++
          List.replicate (size - lengthField.length - used) zero ++ lengthField := by
    intro buffer used hused
    have hzeros := take_overwrite buffer used
      (List.replicate (size - lengthField.length - used) zero)
      (by rw [List.length_replicate]; omega)
    rw [List.length_replicate, Nat.add_sub_cancel' hused] at hzeros
    rw [toList_overwrite _ (by omega), hzeros]
  simp only [finish, MerkleDamgard.finish, List.length_append, List.length_singleton, hlength]
  by_cases hover : context.bufferSize + 1 > size - lengthField.length
  · have hblock : (overwrite (overwrite context.buffer context.bufferSize [marker])
        (context.bufferSize + 1)
          (List.replicate (size - (context.bufferSize + 1)) zero)).toList =
        context.filled ++ [marker] ++ List.replicate (size - (context.bufferSize + 1)) zero := by
      rw [toList_overwrite _ (by rw [List.length_replicate]; omega), hmarker]
    simp only [hover, decide_true, if_true, hblock, hlast _ (Nat.zero_le _), List.take_zero,
      List.length_nil]
  · simp only [hover, decide_false, Bool.false_eq_true, if_false, hlast _ (not_lt.mp hover),
      hmarker, List.length_append, List.length_singleton, hlength]

variable {init : σ} {message : List α}

/-- Absorbing an input extends the message that the array has taken in. -/
theorem absorbed_absorb (context : Buffered σ α size)
    (h : Absorbed compress size init message (context.state, context.filled))
    (hlt : context.bufferSize < size) (input : List α) :
    (absorb compress context input).bufferSize < size ∧
      Absorbed compress size init (message ++ input)
        ((absorb compress context input).state, (absorb compress context input).filled) := by
  obtain ⟨hnext, hrefines⟩ := absorb_refines compress context input hlt
  refine ⟨hnext, ?_⟩
  rw [hrefines]
  exact h.absorb input

/-- Finishing the array gives the chain over the padded message. -/
theorem state_finish (context : Buffered σ α size)
    (h : Absorbed compress size init message (context.state, context.filled))
    (hlt : context.bufferSize < size) (marker zero : α) {lengthField : List α}
    (hfield : lengthField.length < size) :
    (finish compress marker zero lengthField context).state =
      chain compress size init (pad size marker zero lengthField message) := by
  rw [finish_refines compress context hlt marker zero hfield]
  exact h.finish_eq marker zero hfield

end Buffered

end MerkleDamgard
