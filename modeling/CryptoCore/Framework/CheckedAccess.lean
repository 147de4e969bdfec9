import Mathlib.Data.List.Basic
import Mathlib.Tactic
import CryptoCore.Framework.Loops

/-!
# Buffers with checked accesses

Reads, writes and slices of a buffer that fail outside its bounds, and the arithmetic of 64-bit
sizes that fails when it wraps around. A program written with them that never fails accesses its
buffers inside their bounds only, and its sizes are exact.

The module is for a second version of code that has been modelled with total accesses, where a read
outside of a list gives a default. The checked version of such code stops at its first fault; a
theorem that it returns what the total version returns says that no default was ever used.
`read_eq`, `write_eq` and `slice_eq` replace an access whose bound is known by its total form, and
`loopUpM_eq` does the same for a loop whose rounds keep the bounds: it gives the result of the
unchecked loop and the invariant at its end. `fill_eq` is the most common such loop.
-/

namespace CheckedAccess

variable {α β : Type}

/-- Why an access is refused. -/
inductive Fault
  | outOfBounds
  | wrapAround
  deriving DecidableEq, Repr

/-- A computation that stops at its first fault. -/
abbrev Checked := Except Fault

/-- The element at an index, which must be inside of the buffer. -/
def read (xs : List α) (index : ℕ) : Checked α :=
  match xs[index]? with
  | some x => .ok x
  | none => .error .outOfBounds

/-- The buffer with one element replaced, at an index that must be inside of it. -/
def write (xs : List α) (index : ℕ) (x : α) : Checked (List α) :=
  if index < xs.length then .ok (xs.set index x) else .error .outOfBounds

/-- The `count` elements from `offset` on, all of which must be there. -/
def slice (xs : List α) (offset count : ℕ) : Checked (List α) :=
  if offset + count ≤ xs.length then .ok ((xs.drop offset).take count) else .error .outOfBounds

/-- The sum of two sizes, refused where a 64-bit word would wrap around. -/
def addSize (m n : ℕ) : Checked ℕ :=
  if m + n < 2 ^ 64 then .ok (m + n) else .error .wrapAround

/-- The difference of two sizes, refused where it would be negative. -/
def subSize (m n : ℕ) : Checked ℕ :=
  if n ≤ m then .ok (m - n) else .error .wrapAround

@[simp] lemma checked_bind (a : α) (k : α → Checked β) : ((.ok a : Checked α) >>= k) = k a := by
  unfold bind
  rfl

/-- A read inside of the buffer is the total read, with any default. -/
lemma read_eq {xs : List α} {index : ℕ} (h : index < xs.length) (default : α) :
    read xs index = .ok (xs.getD index default) := by
  rw [read, List.getElem?_eq_getElem h, List.getD_eq_getElem _ _ h]

lemma write_eq {xs : List α} {index : ℕ} (h : index < xs.length) (x : α) :
    write xs index x = .ok (xs.set index x) :=
  if_pos h

/-- Accesses behind a front of known length, as in a loop that moves through a buffer. -/
lemma read_middle (front : List α) (x : α) (rest : List α) :
    read (front ++ x :: rest) front.length = .ok x := by
  rw [read, List.getElem?_append_right le_rfl, Nat.sub_self]
  rfl

lemma write_middle (front : List α) (x : α) (rest : List α) (y : α) :
    write (front ++ x :: rest) front.length y = .ok (front ++ [y] ++ rest) := by
  rw [write_eq (by simp), List.set_append_right _ _ le_rfl, Nat.sub_self, List.set_cons_zero,
    List.append_assoc]
  rfl

lemma slice_eq {xs : List α} {offset count : ℕ} (h : offset + count ≤ xs.length) :
    slice xs offset count = .ok ((xs.drop offset).take count) :=
  if_pos h

lemma addSize_eq {m n : ℕ} (h : m + n < 2 ^ 64) : addSize m n = .ok (m + n) :=
  if_pos h

lemma subSize_eq {m n : ℕ} (h : n ≤ m) : subSize m n = .ok (m - n) :=
  if_pos h

/-- A loop whose rounds do not fault computes what the unchecked loop does. `rep` is the buffer that
stands for a state, and `P` the invariant that keeps the accesses inside. -/
theorem loopUpM_eq {σ τ : Type} (rep : τ → σ) (body : ℕ → σ → Checked σ) (step : ℕ → τ → τ)
    (n : ℕ) (P : ℕ → τ → Prop) {t : τ} (hinit : P 0 t)
    (hstep : ∀ i < n, ∀ t, P i t →
      body i (rep t) = .ok (rep (step i t)) ∧ P (i + 1) (step i t)) :
    Loops.loopUpM body n (rep t) = .ok (rep (Loops.loopUp step n t)) ∧
      P n (Loops.loopUp step n t) := by
  induction n with
  | zero => exact ⟨rfl, hinit⟩
  | succ n ih =>
      obtain ⟨hrun, hP⟩ := ih fun i hi => hstep i (Nat.lt_succ_of_lt hi)
      obtain ⟨hbody, hnext⟩ := hstep n (Nat.lt_succ_self n) _ hP
      exact ⟨by rw [Loops.loopUpM, hrun, checked_bind, hbody, Loops.loopUp], hnext⟩

/-- Filling a buffer, element after element, writes inside of it and leaves the values in order. -/
theorem fill_eq (f : ℕ → Checked α) (value : ℕ → α) {n : ℕ} (h : ∀ i < n, f i = .ok (value i))
    (default : α) :
    Loops.loopUpM (fun i xs => f i >>= fun x => write xs i x) n (List.replicate n default) =
      .ok ((List.range n).map value) := by
  have hrun : ∀ rounds ≤ n,
      Loops.loopUpM (fun i xs => f i >>= fun x => write xs i x) rounds
        (List.replicate n default) =
          .ok ((List.range rounds).map value ++ List.replicate (n - rounds) default) := by
    intro rounds
    induction rounds with
    | zero => exact fun _ => rfl
    | succ rounds ih =>
        intro hle
        have hlength : ((List.range rounds).map value).length = rounds := by simp
        have hrest : List.replicate (n - rounds) default =
            default :: List.replicate (n - (rounds + 1)) default := by
          rw [← List.replicate_succ]
          congr 1
          omega
        rw [Loops.loopUpM, ih (Nat.le_of_succ_le hle), checked_bind, h rounds hle, checked_bind,
          write_eq (by rw [List.length_append, hlength, List.length_replicate]; omega), hrest,
          List.set_append_right _ _ hlength.le, hlength, Nat.sub_self, List.set_cons_zero,
          List.range_succ, List.map_append, List.append_assoc]
        rfl
  have hall := hrun n le_rfl
  rwa [Nat.sub_self, List.replicate_zero, List.append_nil] at hall

/-- Folding over the front of a buffer. -/
theorem fold_eq {σ : Type} (f : σ → α → σ) (xs : List α) {n : ℕ} (h : n ≤ xs.length) (s : σ) :
    Loops.loopUpM (fun i s => read xs i >>= fun x => .ok (f s x)) n s =
      .ok ((xs.take n).foldl f s) := by
  induction n with
  | zero => rfl
  | succ n ih =>
      have hlt : n < xs.length := h
      rw [Loops.loopUpM, ih hlt.le, checked_bind, read, List.getElem?_eq_getElem hlt, checked_bind,
        List.take_succ_eq_append_getElem hlt, List.foldl_append]
      rfl

/-- Folding past the end of a buffer faults. -/
theorem fold_fault {σ : Type} (f : σ → α → σ) (xs : List α) {n : ℕ} (h : xs.length < n) (s : σ) :
    Loops.loopUpM (fun i s => read xs i >>= fun x => .ok (f s x)) n s =
      .error .outOfBounds := by
  obtain ⟨k, rfl⟩ := Nat.exists_eq_add_of_lt h
  clear h
  induction k with
  | zero =>
      rw [Nat.add_zero, Loops.loopUpM, fold_eq f xs le_rfl, checked_bind, read,
        List.getElem?_eq_none le_rfl]
      rfl
  | succ k ih =>
      rw [Loops.loopUpM, ← Nat.add_assoc, ih]
      rfl

lemma read_fault {xs : List α} {index : ℕ} (h : xs.length ≤ index) :
    read xs index = .error .outOfBounds := by
  rw [read, List.getElem?_eq_none h]

lemma slice_fault {xs : List α} {offset count : ℕ} (h : xs.length < offset + count) :
    slice xs offset count = .error .outOfBounds :=
  if_neg (Nat.not_le.mpr h)

@[simp] lemma fault_bind (fault : Fault) (k : α → Checked β) :
    ((.error fault : Checked α) >>= k) = .error fault := rfl

end CheckedAccess
