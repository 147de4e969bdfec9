import Mathlib.Order.Basic

/-!
# Loops without a bound

A loop is a round that ends with a result or goes on with another state. Its run is cut off after a
number of rounds; a result that it reaches stays, so that it is the same for every number of rounds
behind it.

So a loop that need not terminate is a function of the number of rounds, and whether it ends is a
statement and not a part of its definition. `ended_unique` says that there is one result at most,
and `exists_ended` that there is one when a measure falls in every round.

What holds of a run is shown in one of two ways. `after_invariant` is for loops that count their
rounds: the invariant has the number of the round as an argument, and says at the same time that the
loop does not end before. `Keeps` is for all others: what every round keeps holds of all states that
are reached (`Keeps.running`), and the result has what the last round gives it (`Keeps.ended`).

`IsRun` forgets round and start, for a run that is put together from several cases.
-/

namespace Runs

/-- A run that goes on from a state, or has ended with a result. -/
inductive Progress (σ ρ : Type*)
  | running (s : σ)
  | ended (r : ρ)

variable {σ ρ : Type*}

namespace Progress

/-- One more round, unless the run has ended; then it stays at its end. -/
def next (round : σ → Progress σ ρ) : Progress σ ρ → Progress σ ρ
  | .running s => round s
  | .ended r => .ended r

/-- The run after a number of rounds, from a start that may have ended already. -/
def after (round : σ → Progress σ ρ) (start : Progress σ ρ) : ℕ → Progress σ ρ
  | 0 => start
  | n + 1 => next round (after round start n)

lemma after_ended_add {round : σ → Progress σ ρ} {start : Progress σ ρ} {m : ℕ} {r : ρ}
    (h : after round start m = .ended r) (n : ℕ) : after round start (m + n) = .ended r := by
  induction n with
  | zero => exact h
  | succ n ih => rw [← Nat.add_assoc, after, ih, next]

@[simp] lemma after_ended (round : σ → Progress σ ρ) (r : ρ) (n : ℕ) :
    after round (.ended r) n = .ended r := by
  induction n with
  | zero => rfl
  | succ n ih => rw [after, ih, next]

/-- A run has one result, whatever number of rounds it is read off after. -/
theorem ended_unique {round : σ → Progress σ ρ} {start : Progress σ ρ} {m n : ℕ} {r t : ρ}
    (hm : after round start m = .ended r) (hn : after round start n = .ended t) : r = t := by
  have hleft := after_ended_add hm n
  rw [Nat.add_comm, after_ended_add hn m] at hleft
  exact (Progress.ended.inj hleft).symm

/-- The invariant rule: `P i` holds before round `i`, and a state with `P i` goes on. -/
theorem after_invariant {round : σ → Progress σ ρ} {n : ℕ} (P : ℕ → σ → Prop) {s : σ}
    (hinit : P 0 s) (hstep : ∀ i < n, ∀ s, P i s → ∃ s', round s = .running s' ∧ P (i + 1) s') :
    ∃ s', after round (.running s) n = .running s' ∧ P n s' := by
  induction n with
  | zero => exact ⟨s, rfl, hinit⟩
  | succ n ih =>
      obtain ⟨t, ht, hP⟩ := ih fun i hi => hstep i (Nat.lt_succ_of_lt hi)
      obtain ⟨t', ht', hP'⟩ := hstep n (Nat.lt_succ_self n) t hP
      exact ⟨t', by rw [after, ht, next, ht'], hP'⟩

/-- A run that reaches a state whose round ends has ended. -/
lemma after_succ_ended {round : σ → Progress σ ρ} {start : Progress σ ρ} {n : ℕ} {s : σ} {r : ρ}
    (hrun : after round start n = .running s) (hround : round s = .ended r) :
    after round start (n + 1) = .ended r := by
  rw [after, hrun, next, hround]

/-- What every round keeps as long as the run goes on, and what holds when it ends. -/
def Keeps (round : σ → Progress σ ρ) (P : σ → Prop) (Q : ρ → Prop) : Prop :=
  ∀ s, P s → (∀ s', round s = .running s' → P s') ∧ ∀ r, round s = .ended r → Q r

lemma Keeps.running {round : σ → Progress σ ρ} {P : σ → Prop} {Q : ρ → Prop}
    (h : Keeps round P Q) {s : σ} (hs : P s) {n : ℕ} {s' : σ}
    (hrun : after round (.running s) n = .running s') : P s' := by
  induction n generalizing s' with
  | zero =>
      cases hrun
      exact hs
  | succ n ih =>
      rw [after] at hrun
      cases hbefore : after round (.running s) n with
      | running t =>
          rw [hbefore] at hrun
          exact (h t (ih hbefore)).1 s' hrun
      | ended r =>
          rw [hbefore] at hrun
          cases hrun

/-- The rule for results: an end is reached from a state that the rounds kept. -/
theorem Keeps.ended {round : σ → Progress σ ρ} {P : σ → Prop} {Q : ρ → Prop}
    (h : Keeps round P Q) {s : σ} (hs : P s) {n : ℕ} {r : ρ}
    (hrun : after round (.running s) n = .ended r) : Q r := by
  induction n with
  | zero => cases hrun
  | succ n ih =>
      rw [after] at hrun
      cases hbefore : after round (.running s) n with
      | running t =>
          rw [hbefore] at hrun
          exact (h t (h.running hs hbefore)).2 r hrun
      | ended t =>
          rw [hbefore] at hrun
          cases hrun
          exact ih hbefore

/-- The rule for termination: a measure that falls in every round bounds the number of rounds. -/
theorem exists_ended {round : σ → Progress σ ρ} {P : σ → Prop} (measure : σ → ℕ)
    (hround : ∀ s, P s → ∀ s', round s = .running s' → P s' ∧ measure s' < measure s) {s : σ}
    (hs : P s) : ∃ r, after round (.running s) (measure s + 1) = .ended r := by
  by_contra hnever
  -- as long as the run goes on, the rounds and the measure together do not exceed the first one
  have hbound : ∀ n ≤ measure s + 1, ∃ t, after round (.running s) n = .running t ∧ P t ∧
      measure t + n ≤ measure s := by
    intro n hn
    induction n with
    | zero => exact ⟨s, rfl, hs, Nat.le_refl _⟩
    | succ n ih =>
        obtain ⟨t, ht, hP, hle⟩ := ih (Nat.le_of_succ_le hn)
        cases hnext : round t with
        | running t' =>
            obtain ⟨hP', hlt⟩ := hround t hP t' hnext
            exact ⟨t', by rw [after, ht, next, hnext], hP', by omega⟩
        | ended r =>
            obtain ⟨k, hk⟩ := Nat.exists_eq_add_of_le hn
            rw [hk, after_ended_add (after_succ_ended ht hnext)] at hnever
            exact absurd ⟨r, rfl⟩ hnever
  obtain ⟨t, -, -, hle⟩ := hbound (measure s + 1) (Nat.le_refl _)
  omega

/-- A running state comes before the end: a run that has ended does not go on. -/
lemma lt_of_running {round : σ → Progress σ ρ} {start : Progress σ ρ} {m n : ℕ} {s : σ} {r : ρ}
    (hrun : after round start m = .running s) (hend : after round start n = .ended r) : m < n := by
  by_contra hle
  obtain ⟨k, rfl⟩ := Nat.exists_eq_add_of_le (Nat.not_lt.mp hle)
  rw [after_ended_add hend] at hrun
  cases hrun

/-- A family that is a run of some round from some start, without saying which. -/
def IsRun (run : ℕ → Progress σ ρ) : Prop :=
  ∃ round start, ∀ n, run n = after round start n

lemma isRun_after (round : σ → Progress σ ρ) (start : Progress σ ρ) :
    IsRun (after round start) := ⟨round, start, fun _ => rfl⟩

lemma isRun_ended (r : ρ) : IsRun fun _ => (.ended r : Progress σ ρ) :=
  ⟨fun _ => .ended r, .ended r, fun n => (after_ended _ r n).symm⟩

lemma IsRun.unique {run : ℕ → Progress σ ρ} (h : IsRun run) {m n : ℕ} {r t : ρ}
    (hm : run m = .ended r) (hn : run n = .ended t) : r = t := by
  obtain ⟨round, start, hrun⟩ := h
  exact ended_unique (hrun m ▸ hm) (hrun n ▸ hn)

lemma IsRun.lt_of_running {run : ℕ → Progress σ ρ} (h : IsRun run) {m n : ℕ} {s : σ} {r : ρ}
    (hm : run m = .running s) (hn : run n = .ended r) : m < n := by
  obtain ⟨round, start, hrun⟩ := h
  exact Progress.lt_of_running (hrun m ▸ hm) (hrun n ▸ hn)

end Progress

end Runs
