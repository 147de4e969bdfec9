import Mathlib.Logic.ExistsUnique
import Mathlib.Logic.Function.Basic

/-!
# Exclusive ownership

Names own resources, at most one each. Ownership is exclusive when the live resources are those that
have an owner, and none has two. Handing a resource out, passing it on and taking it back keep it
so.

A name is a variable of a program here, and a resource an allocation or a handle that has to be
given back once. Both are arbitrary types; which resources are live is a predicate, so that a user
can say it in terms of its own heap.

The three operations are updates of the function from names to resources. `allocate` and `transfer`
ask that the target owned nothing: a program that overwrites an owner has to release first what it
owned, or it would stay live without an owner. The source of a transfer may own nothing, and then
the target owns nothing either. In a run that keeps to this, no resource is lost and none is given
back twice, since a resource that was released has no owner left to release it again.
-/

namespace Ownership

variable {κ α : Type*} [DecidableEq κ]

open Function

/-- The live resources are those that have an owner, and no resource has two owners. -/
structure Exclusive (owner : κ → Option α) (Live : α → Prop) : Prop where
  live_iff : ∀ a, Live a ↔ ∃ k, owner k = some a
  unique : ∀ {k l a}, owner k = some a → owner l = some a → k = l

namespace Exclusive

variable {owner : κ → Option α} {Live Live' : α → Prop}

omit [DecidableEq κ] in
lemma none : Exclusive (fun _ : κ => (Option.none : Option α)) (fun _ => False) where
  live_iff := fun _ => ⟨False.elim, fun ⟨_, h⟩ => nomatch h⟩
  unique := nofun

omit [DecidableEq κ] in
lemma live (h : Exclusive owner Live) {k : κ} {a : α} (hk : owner k = some a) : Live a :=
  (h.live_iff a).mpr ⟨k, hk⟩

omit [DecidableEq κ] in
lemma congr_live (h : Exclusive owner Live) (hlive : ∀ a, Live' a ↔ Live a) :
    Exclusive owner Live' where
  live_iff := fun a => (hlive a).trans (h.live_iff a)
  unique := h.unique

omit [DecidableEq κ] in
/-- A live resource has exactly one owner. -/
lemma existsUnique (h : Exclusive owner Live) {a : α} (ha : Live a) : ∃! k, owner k = some a := by
  obtain ⟨k, hk⟩ := (h.live_iff a).mp ha
  exact ⟨k, hk, fun l hl => h.unique hl hk⟩

/-- A name that owned nothing is given a resource that was not live, which makes it live. -/
lemma allocate (h : Exclusive owner Live) {k : κ} {a : α} (hk : owner k = Option.none)
    (ha : ¬ Live a) : Exclusive (update owner k (some a)) (fun b => Live b ∨ b = a) where
  live_iff := by
    intro b
    constructor
    · rintro (hb | rfl)
      · obtain ⟨l, hl⟩ := (h.live_iff b).mp hb
        have hne : l ≠ k := by
          rintro rfl
          rw [hk] at hl
          cases hl
        exact ⟨l, by rw [update_of_ne hne, hl]⟩
      · exact ⟨k, update_self ..⟩
    · rintro ⟨l, hl⟩
      by_cases hlk : l = k
      · subst hlk
        rw [update_self] at hl
        exact .inr (Option.some.inj hl).symm
      · rw [update_of_ne hlk] at hl
        exact .inl (h.live hl)
  unique := by
    intro l m b hl hm
    by_cases hlk : l = k <;> by_cases hmk : m = k
    · rw [hlk, hmk]
    · subst hlk
      rw [update_self] at hl
      rw [update_of_ne hmk] at hm
      cases hl
      exact absurd (h.live hm) ha
    · subst hmk
      rw [update_self] at hm
      rw [update_of_ne hlk] at hl
      cases hm
      exact absurd (h.live hl) ha
    · rw [update_of_ne hlk] at hl
      rw [update_of_ne hmk] at hm
      exact h.unique hl hm

/-- The owner gives a resource back, and nobody owns it afterwards. -/
lemma release (h : Exclusive owner Live) {k : κ} {a : α} (hk : owner k = some a) :
    Exclusive (update owner k Option.none) (fun b => Live b ∧ b ≠ a) where
  live_iff := by
    intro b
    constructor
    · rintro ⟨hb, hne⟩
      obtain ⟨l, hl⟩ := (h.live_iff b).mp hb
      have hlk : l ≠ k := by
        rintro rfl
        exact hne (Option.some.inj (hl.symm.trans hk))
      exact ⟨l, by rw [update_of_ne hlk, hl]⟩
    · rintro ⟨l, hl⟩
      have hlk : l ≠ k := by
        rintro rfl
        rw [update_self] at hl
        cases hl
      rw [update_of_ne hlk] at hl
      refine ⟨h.live hl, ?_⟩
      rintro rfl
      exact hlk (h.unique hl hk)
  unique := by
    intro l m b hl hm
    have hne : ∀ {j c}, update owner k Option.none j = some c → j ≠ k := by
      rintro j c hj rfl
      rw [update_self] at hj
      cases hj
    have hlk := hne hl
    have hmk := hne hm
    rw [update_of_ne hlk] at hl
    rw [update_of_ne hmk] at hm
    exact h.unique hl hm

/-- A resource is passed on to a name that owned nothing. What is live does not change. -/
lemma transfer (h : Exclusive owner Live) (source : κ) {target : κ}
    (htarget : owner target = Option.none) :
    Exclusive (update (update owner target (owner source)) source Option.none) Live := by
  by_cases hst : source = target
  · -- what is passed on is nothing
    subst hst
    rw [update_idem, ← htarget, update_eq_self]
    exact h
  · cases hsource : owner source with
    | none =>
        rw [← htarget, update_eq_self, htarget, ← hsource, update_eq_self]
        exact h
    | some a =>
        rw [update_comm (Ne.symm hst)]
        have hreleased := h.release hsource
        refine (hreleased.allocate (k := target) (a := a) ?_ fun ha => ha.2 rfl).congr_live ?_
        · rw [update_of_ne (Ne.symm hst), htarget]
        · intro b
          by_cases hb : b = a
          · subst hb
            exact iff_of_true (h.live hsource) (.inr rfl)
          · simp [hb]

end Exclusive

end Ownership
