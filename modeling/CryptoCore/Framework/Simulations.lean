import CryptoCore.Framework.Streaming

/-!
# Machines that answer alike

Two machines take the same calls. When a relation between their states makes every call get one
answer from both and is kept by every call, no run tells them apart. The second machine is the one
that says what the first is for.

A machine is a function from a state and a call to an answer and the next state, so that every call
is possible in every state and refusals are answers like others. `Simulates` is a condition on one
call, `Simulates.answers_eq` its consequence for runs, by induction over the calls; the states
behind a run stay related too, so that a run can be cut anywhere.

A write-once table is such a second machine: a log to which every write is appended, read at the
first entry of a key. A program that keeps a table and ignores writes to a key that it has
(`WriteOnce.emplace`) answers lookups in the same way, although table and log list their entries in
different orders; `lookup_emplace_self`, `lookup_emplace_of_ne` and `lookup_append_write` are what a
simulation needs to know of the two.
-/

namespace Streaming

variable {S T I O : Type*}

/-! ## Runs -/

/-- The state behind the calls of a list, made one after the other. -/
def stateAfter (call : S → I → O × S) (s : S) (calls : List I) : S :=
  (answers call s calls).2

@[simp] lemma stateAfter_nil (call : S → I → O × S) (s : S) : stateAfter call s [] = s := rfl

@[simp] lemma stateAfter_cons (call : S → I → O × S) (s : S) (first : I) (rest : List I) :
    stateAfter call s (first :: rest) = stateAfter call (call s first).2 rest := rfl

/-- What every call answers, whatever the state, every run does. -/
lemma forall_mem_answers {call : S → I → O × S} {P : O → Prop} (hcall : ∀ s c, P (call s c).1)
    (s : S) (calls : List I) : ∀ answer ∈ (answers call s calls).1, P answer := by
  induction calls generalizing s with
  | nil => exact nofun
  | cons first calls ih =>
      rw [answers, List.forall_mem_cons]
      exact ⟨hcall s first, ih (call s first).2⟩

/-! ## Simulations -/

/-- Related states give one answer to a call and stay related, whatever the call is. -/
structure Simulates (call : S → I → O × S) (spec : T → I → O × T) (R : S → T → Prop) : Prop where
  answer : ∀ {s t}, R s t → ∀ c, (call s c).1 = (spec t c).1
  next : ∀ {s t}, R s t → ∀ c, R (call s c).2 (spec t c).2

namespace Simulates

variable {call : S → I → O × S} {spec : T → I → O × T} {R : S → T → Prop}

lemma stateAfter (h : Simulates call spec R) {s : S} {t : T} (hst : R s t) (calls : List I) :
    R (Streaming.stateAfter call s calls) (Streaming.stateAfter spec t calls) := by
  induction calls generalizing s t with
  | nil => exact hst
  | cons first calls ih => exact ih (h.next hst first)

/-- No run tells related states apart. -/
theorem answers_eq (h : Simulates call spec R) {s : S} {t : T} (hst : R s t) (calls : List I) :
    (answers call s calls).1 = (answers spec t calls).1 := by
  induction calls generalizing s t with
  | nil => rfl
  | cons first calls ih =>
      rw [answers, answers]
      exact congrArg₂ List.cons (h.answer hst first) (ih (h.next hst first))

end Simulates

end Streaming

/-! ## Write-once tables -/

namespace WriteOnce

variable {κ ν : Type*} [BEq κ] [LawfulBEq κ]

/-- A write that leaves a key alone that has a value, and otherwise puts the entry in front. -/
def emplace (table : List (κ × ν)) (key : κ) (value : ν) : List (κ × ν) :=
  if (table.lookup key).isSome then table else (key, value) :: table

lemma lookup_emplace_self (table : List (κ × ν)) (key : κ) (value : ν) :
    (emplace table key value).lookup key = (table.lookup key).or (some value) := by
  rw [emplace]
  cases h : table.lookup key with
  | none => simp
  | some v => simp [h]

lemma lookup_emplace_of_ne (table : List (κ × ν)) {key other : κ} (value : ν) (hne : other ≠ key) :
    (emplace table key value).lookup other = table.lookup other := by
  rw [emplace]
  split
  · rfl
  · rw [List.lookup_cons, beq_false_of_ne hne]

omit [LawfulBEq κ] in
/-- A write at the end of a log is read where nothing was written before. -/
lemma lookup_append_write (log : List (κ × ν)) (key other : κ) (value : ν) :
    (log ++ [(key, value)]).lookup other =
      (log.lookup other).or (if other == key then some value else none) := by
  rw [List.lookup_append, List.lookup_cons, List.lookup_nil]
  cases other == key <;> rfl

end WriteOnce
