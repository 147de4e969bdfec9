import Mathlib.Data.List.Basic
import Mathlib.Data.List.Iterate
import Mathlib.Dynamics.PeriodicPts.Defs
import Mathlib.Tactic

/-!
# Block processing

`blocks size input` is the loop that takes `min size |input|` elements off the front of its input
until none are left. Two things are built over it: `counterMode`, a key stream of blocks combined
with the input; and the sealed codec, a stream cipher whose ciphertext is authenticated.

`blocks_of_ne_nil` is the equation by which the loop is evaluated and `blocks_induction` the
induction that goes with it; `blocks_append` and `blocks_append_of_dvd` cut lists at block
boundaries.

Counter mode undoes itself when the combination does, for inputs of any length
(`counterMode_counterMode`). Which counters it meets is a list of iterates (`counters_eq`), and they
are different exactly as long as the period of the counter lasts (`nodup_iterate_iff`), a statement
about any function on any type.

The sealed codec needs of its parts only that they are inverse to each other: what opens is exactly
what was sealed (`openWith_eq_ok`), and everything else fails in one way (`openWith_eq_error`).
-/

namespace Blocks

universe u v

variable {α : Type u} {σ : Type v}

/-! ## The blocks of a list -/

/-- The loop over the blocks. Every round takes at least one element, so that as many rounds as
there are elements are enough. -/
def blocksLoop (size : ℕ) : ℕ → List α → List (List α)
  | 0, _ => []
  | rounds + 1, input =>
      if input.isEmpty then []
      else input.take size :: blocksLoop size rounds (input.drop size)

/-- `while (!input.empty()) { take min(size, |input|) }`. The last block may be shorter than the
others. -/
def blocks (size : ℕ) (input : List α) : List (List α) :=
  blocksLoop size input.length input

/-- More rounds than elements change nothing. -/
lemma blocksLoop_eq_blocks {size : ℕ} (hsize : 0 < size) :
    ∀ (rounds : ℕ) (input : List α), input.length ≤ rounds →
      blocksLoop size rounds input = blocks size input := by
  -- The loop ignores rounds it does not need: both sides run in step until the input is empty.
  have hstep : ∀ (a b : ℕ) (input : List α), input.length ≤ a → input.length ≤ b →
      blocksLoop size a input = blocksLoop size b input := by
    intro a
    induction a with
    | zero =>
        intro b input ha _
        have hnil : input = [] := List.length_eq_zero_iff.mp (Nat.le_zero.mp ha)
        cases b <;> simp [blocksLoop, hnil]
    | succ a ih =>
        intro b input ha hb
        cases b with
        | zero =>
            have hnil : input = [] := List.length_eq_zero_iff.mp (Nat.le_zero.mp hb)
            simp [blocksLoop, hnil]
        | succ b =>
            by_cases hinput : input.isEmpty
            · simp [blocksLoop, hinput]
            · rw [blocksLoop, blocksLoop, ih b (input.drop size)]
              · rw [List.length_drop]
                omega
              · rw [List.length_drop]
                omega
  intro rounds input hrounds
  exact hstep rounds input.length input hrounds le_rfl

@[simp] lemma blocks_nil (size : ℕ) : blocks size ([] : List α) = [] := rfl

/-- The first block and the blocks of the rest: one round of the loop. -/
lemma blocks_of_ne_nil {size : ℕ} (hsize : 0 < size) {input : List α} (hinput : input ≠ []) :
    blocks size input = input.take size :: blocks size (input.drop size) := by
  obtain ⟨n, hn⟩ : ∃ n, input.length = n + 1 :=
    Nat.exists_eq_succ_of_ne_zero fun h => hinput (List.length_eq_zero_iff.mp h)
  rw [blocks, hn, blocksLoop, if_neg (by simpa using hinput),
    blocksLoop_eq_blocks hsize n (input.drop size) (by rw [List.length_drop]; omega)]

/-- Induction over the blocks of a list: a property of the rest passes to the whole. -/
theorem blocks_induction {size : ℕ} (hsize : 0 < size) (P : List α → Prop) (hnil : P [])
    (hstep : ∀ input, input ≠ [] → P (input.drop size) → P input) (input : List α) : P input := by
  induction hn : input.length using Nat.strong_induction_on generalizing input with
  | _ n ih =>
      by_cases hinput : input = []
      · exact hinput ▸ hnil
      · have hpos : 0 < input.length := List.length_pos_iff.mpr hinput
        exact hstep input hinput (ih (input.drop size).length
          (by rw [List.length_drop]; omega) _ rfl)

/-- A first block that is full, or is all there is, stands in front of the blocks of the rest. -/
lemma blocks_append {size : ℕ} (hsize : 0 < size) {block rest : List α} (hblock : block ≠ [])
    (hle : block.length ≤ size) (hfull : block.length = size ∨ rest = []) :
    blocks size (block ++ rest) = block :: blocks size rest := by
  rw [blocks_of_ne_nil hsize (by simp [hblock])]
  rcases hfull with hfull | rfl
  · rw [List.take_left' hfull, List.drop_left' hfull]
  · rw [List.append_nil, List.take_of_length_le hle, List.drop_of_length_le hle]

/-- A list that fills its last block can be cut off in front, since no block crosses its end. -/
lemma blocks_append_of_dvd {size : ℕ} (hsize : 0 < size) (full rest : List α)
    (hdvd : size ∣ full.length) :
    blocks size (full ++ rest) = blocks size full ++ blocks size rest := by
  induction full using blocks_induction hsize with
  | hnil => simp
  | hstep full hfull ih =>
      have hle : size ≤ full.length := Nat.le_of_dvd (List.length_pos_iff.mpr hfull) hdvd
      have htake : (full.take size).length = size := by
        rw [List.length_take, Nat.min_eq_left hle]
      have hdrop : size ∣ (full.drop size).length := by
        rw [List.length_drop]
        exact Nat.dvd_sub hdvd dvd_rfl
      have hblock : full.take size ≠ [] := List.ne_nil_of_length_pos (by omega)
      calc blocks size (full ++ rest)
          = blocks size (full.take size ++ (full.drop size ++ rest)) := by
            rw [← List.append_assoc, List.take_append_drop]
        _ = full.take size :: blocks size (full.drop size ++ rest) :=
            blocks_append hsize hblock htake.le (Or.inl htake)
        _ = blocks size full ++ blocks size rest := by
            rw [ih hdrop, blocks_of_ne_nil hsize hfull, List.cons_append]

lemma blocks_of_length_eq {size : ℕ} (hsize : 0 < size) {block : List α}
    (hblock : block.length = size) : blocks size block = [block] := by
  have hne : block ≠ [] := List.ne_nil_of_length_pos (by omega)
  have h : blocks size (block ++ []) = block :: blocks size [] :=
    blocks_append hsize hne hblock.le (Or.inl hblock)
  rwa [List.append_nil, blocks_nil] at h

/-- The blocks are the list, cut into pieces and in order. -/
lemma flatten_blocks {size : ℕ} (hsize : 0 < size) (input : List α) :
    (blocks size input).flatten = input := by
  induction input using blocks_induction hsize with
  | hnil => rfl
  | hstep input hinput ih =>
      rw [blocks_of_ne_nil hsize hinput, List.flatten_cons, ih, List.take_append_drop]

lemma length_le_of_mem_blocks {size : ℕ} (hsize : 0 < size) (input : List α) :
    ∀ block ∈ blocks size input, block.length ≤ size := by
  induction input using blocks_induction hsize with
  | hnil => simp
  | hstep input hinput ih =>
      rw [blocks_of_ne_nil hsize hinput]
      intro block hmem
      rcases List.mem_cons.mp hmem with rfl | hmem
      · exact List.length_take_le _ _
      · exact ih block hmem

/-- The number of blocks, rounded up. -/
lemma length_blocks {size : ℕ} (hsize : 0 < size) (input : List α) :
    (blocks size input).length = (input.length + size - 1) / size := by
  induction input using blocks_induction hsize with
  | hnil =>
      rw [blocks_nil, List.length_nil, List.length_nil, Nat.div_eq_of_lt (by omega)]
  | hstep input hinput ih =>
      have hpos : 0 < input.length := List.length_pos_iff.mpr hinput
      rw [blocks_of_ne_nil hsize hinput, List.length_cons, ih, List.length_drop]
      by_cases hle : size ≤ input.length
      · rw [show input.length + size - 1 = input.length - size + size - 1 + size by omega,
          Nat.add_div_right _ hsize]
      · rw [Nat.div_eq_of_lt (by omega), show input.length + size - 1 = input.length - 1 + size
          by omega, Nat.add_div_right _ hsize, Nat.div_eq_of_lt (by omega)]

/-! ## Counter mode -/

section CounterMode

variable (next : σ → σ) (pad : σ → List α) (combine : α → α → α)

/-- Every block is combined with the pad of its counter; the counter steps after each block. A short
last block uses the front of its pad. -/
def counterMode : σ → List (List α) → List α
  | _, [] => []
  | counter, block :: rest =>
      List.zipWith combine block (pad counter) ++ counterMode (next counter) rest

variable {next pad combine} {size : ℕ}

/-- A combination that undoes itself makes counter mode undo itself: the second pass meets blocks
of the same lengths, hence the same pads. -/
theorem counterMode_counterMode (hsize : 0 < size) (hpad : ∀ s, (pad s).length = size)
    (hcombine : ∀ a b, combine (combine a b) b = a) (input : List α) :
    ∀ s, counterMode next pad combine s
      (blocks size (counterMode next pad combine s (blocks size input))) = input := by
  have hzip : ∀ block stream : List α, block.length ≤ stream.length →
      List.zipWith combine (List.zipWith combine block stream) stream = block := by
    intro block
    induction block with
    | nil => intro stream _; simp
    | cons a block ih =>
        intro stream hle
        cases stream with
        | nil => simp at hle
        | cons b stream =>
            simp only [List.zipWith_cons_cons, hcombine]
            rw [ih stream (by simpa using hle)]
  induction input using blocks_induction hsize with
  | hnil => intro s; rfl
  | hstep input hinput ih =>
      intro s
      have hpos : 0 < input.length := List.length_pos_iff.mpr hinput
      have hlength : (List.zipWith combine (input.take size) (pad s)).length =
          min size input.length := by
        rw [List.length_zipWith, List.length_take, hpad]
        omega
      rw [blocks_of_ne_nil hsize hinput, counterMode, blocks_append hsize, counterMode,
        hzip _ _ (by rw [hpad]; exact List.length_take_le _ _), ih, List.take_append_drop]
      · exact List.ne_nil_of_length_pos (by omega)
      · omega
      -- Only the last block may be short, and behind it there is nothing left to split.
      · by_cases hfull : size ≤ input.length
        · exact Or.inl (by omega)
        · right
          rw [List.drop_of_length_le (by omega), blocks_nil, counterMode]

/-- The counters of counter mode, one to a block, in the order in which they are used. -/
def counters (next : σ → σ) : σ → List (List α) → List σ
  | _, [] => []
  | counter, _ :: rest => counter :: counters next (next counter) rest

/-- They are the iterates of the step, whatever the blocks hold. -/
lemma counters_eq (input : List (List α)) (counter : σ) :
    counters next counter input = List.iterate next counter input.length := by
  induction input generalizing counter with
  | nil => rfl
  | cons block rest ih =>
      rw [counters, ih]
      rfl

/-- A counter that comes back to itself runs through different values exactly as long as its period
lasts. -/
theorem nodup_iterate_iff {counter : σ} (hperiod : counter ∈ Function.periodicPts next) (n : ℕ) :
    (List.iterate next counter n).Nodup ↔ n ≤ Function.minimalPeriod next counter := by
  rw [← List.range_map_iterate]
  constructor
  · intro hnodup
    by_contra hlt
    have hpos := Function.minimalPeriod_pos_of_mem_periodicPts hperiod
    have hinj := List.inj_on_of_nodup_map hnodup
    have hzero : Function.minimalPeriod next counter = 0 :=
      hinj (List.mem_range.mpr (by omega)) (List.mem_range.mpr (by omega))
        (Function.iterate_minimalPeriod (f := next) (x := counter))
    omega
  · intro hle
    apply List.Nodup.map_on _ List.nodup_range
    intro i hi j hj h
    exact Function.iterate_injOn_Iio_minimalPeriod (by simp at hi ⊢; omega)
      (by simp at hj ⊢; omega) h

end CounterMode

/-! ## The sealed codec -/

section Sealed

variable {P C T E : Type*} [DecidableEq T]

/-- The ciphertext and the tag of the ciphertext. -/
def sealWith (crypt : P → C) (tag : C → T) (plaintext : P) : C × T :=
  (crypt plaintext, tag (crypt plaintext))

/-- The plaintext of a ciphertext that carries its own tag, and nothing of any other. -/
def openWith (decrypt : C → P) (tag : C → T) (failure : E) (ciphertext : C) (t : T) :
    Except E P :=
  if tag ciphertext = t then .ok (decrypt ciphertext) else .error failure

variable {crypt : P → C} {decrypt : C → P} {tag : C → T} {failure : E}

/-- What opens is exactly what was sealed: a ciphertext with any tag but its own is refused. -/
theorem openWith_eq_ok (hleft : Function.LeftInverse decrypt crypt)
    (hright : Function.RightInverse decrypt crypt) (ciphertext : C) (t : T) (plaintext : P) :
    openWith decrypt tag failure ciphertext t = .ok plaintext ↔
      sealWith crypt tag plaintext = (ciphertext, t) := by
  constructor
  · intro h
    by_cases htag : tag ciphertext = t
    · rw [openWith, if_pos htag] at h
      cases h
      rw [sealWith, hright ciphertext, htag]
    · rw [openWith, if_neg htag] at h
      cases h
  · intro h
    obtain ⟨rfl, rfl⟩ := Prod.mk.inj h
    rw [openWith, if_pos rfl, hleft plaintext]

/-- What does not open fails, and always in the same way, so that a refusal tells nothing. -/
theorem openWith_eq_error (decrypt : C → P) (tag : C → T) (failure : E) (ciphertext : C) (t : T) :
    (∃ plaintext, openWith decrypt tag failure ciphertext t = .ok plaintext) ∨
      openWith decrypt tag failure ciphertext t = .error failure := by
  by_cases htag : tag ciphertext = t
  · exact Or.inl ⟨decrypt ciphertext, if_pos htag⟩
  · exact Or.inr (if_neg htag)

end Sealed

end Blocks
