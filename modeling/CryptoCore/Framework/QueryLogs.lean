import Mathlib.Logic.Basic

/-!
# Computations that log their calls

To say which arguments a computation passes to a function, the computation is written a second time
with a log: a `call` does what the function does and writes an entry down.

`Erases` says that nothing else has changed, that the logged computation without its log is the
plain one. Without it a log would be a list beside the computation, and nothing would tie its
entries to the calls that are really made. It is kept by everything a computation is built from
(`erases_pure`, `erases_call`, `erases_silent`, `Erases.bind`), so that the proof for a program
follows the program.

What the log holds is then read off `run_call`, `run_silent` and `run_bind`, from the first call to
the last. A computation that fails has no log: its entries are of interest only when there is a
result, and `Erases.exists_ok_iff` says that the logged computation has one exactly when the plain
one does.

The log is a state, and it only grows. That it does is not stated on its own: the lemmas about runs
give the log of every part in full.
-/

namespace QueryLogs

variable {ι ε α β : Type}

/-- A computation that may fail, and that writes down the entries of its calls one behind the other.
-/
abbrev Logged (ι ε α : Type) := StateT (List ι) (Except ε) α

/-- A call with its entry. One that fails ends the computation, and its entry is lost with the
others. -/
def call (entry : ι) (result : Except ε α) : Logged ι ε α := fun log =>
  result.map fun a => (a, log ++ [entry])

/-- A part of the computation that makes no calls, and leaves the log as it is. -/
def silent (result : Except ε α) : Logged ι ε α := fun log => result.map fun a => (a, log)

/-- Without its log, and from any log, the computation is the plain one. -/
def Erases (logged : Logged ι ε α) (plain : Except ε α) : Prop :=
  ∀ log, (logged log).map Prod.fst = plain

lemma erases_pure (a : α) : Erases (pure a : Logged ι ε α) (.ok a) := fun _ => rfl

lemma erases_call (entry : ι) (result : Except ε α) : Erases (call entry result) result := by
  intro log
  cases result <;> rfl

lemma erases_silent (result : Except ε α) : Erases (silent result : Logged ι ε α) result := by
  intro log
  cases result <;> rfl

/-- Erasing goes through sequencing: the rest of the computation is erased for every result. -/
lemma Erases.bind {logged : Logged ι ε α} {plain : Except ε α} {k : α → Logged ι ε β}
    {k' : α → Except ε β} (h : Erases logged plain) (hk : ∀ a, Erases (k a) (k' a)) :
    Erases (logged >>= k) (plain >>= k') := by
  intro log
  have hfirst := h log
  change Except.map Prod.fst (Except.bind (logged log) fun s => k s.1 s.2) = _
  cases hrun : logged log with
  | error e =>
      rw [hrun] at hfirst
      subst hfirst
      rfl
  | ok s =>
      rw [hrun] at hfirst
      subst hfirst
      exact hk s.1 s.2

/-- The logged computation returns what the plain one returns. -/
lemma Erases.exists_ok_iff {logged : Logged ι ε α} {plain : Except ε α} (h : Erases logged plain)
    (log : List ι) (a : α) : (∃ log', logged log = .ok (a, log')) ↔ plain = .ok a := by
  rw [← h log]
  cases logged log with
  | error e =>
      constructor
      · rintro ⟨log', hrun⟩
        cases hrun
      · intro hrun
        cases hrun
  | ok s =>
      constructor
      · rintro ⟨log', hrun⟩
        cases hrun
        rfl
      · intro hrun
        cases hrun
        exact ⟨s.2, rfl⟩

lemma run_bind {logged : Logged ι ε α} {k : α → Logged ι ε β} {log log' : List ι} {a : α}
    (h : logged log = .ok (a, log')) : (logged >>= k) log = k a log' := by
  change Except.bind (logged log) (fun s => k s.1 s.2) = _
  rw [h]
  rfl

lemma run_call {entry : ι} {result : Except ε α} {a : α} (h : result = .ok a) (log : List ι) :
    call entry result log = .ok (a, log ++ [entry]) := by
  rw [h]
  rfl

lemma run_silent {result : Except ε α} {a : α} (h : result = .ok a) (log : List ι) :
    silent result log = .ok (a, log) := by
  rw [h]
  rfl

end QueryLogs
