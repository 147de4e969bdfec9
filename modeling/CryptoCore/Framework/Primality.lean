import Mathlib.NumberTheory.LucasPrimality
import Mathlib.Tactic

/-!
# Primality certificates

A prime is certified by a generator of its multiplicative group and the factors of the order of that
group. The powers are computed by squaring, so that the kernel can check a certificate of a few
hundred bits.

`Certifies` is decidable, and `prime_of_certifies` is Lucas's test: an element whose power with the
exponent `p - 1` is one, but with no maximal proper divisor of `p - 1` as its exponent, has the
order `p - 1`, and that many units there are only modulo a prime.

The factors have to be known as primes first. `ChainCertifies` arranges the certificates of a large
prime in a list: each entry uses small primes and primes of entries before it, and `prime_of_chain`
goes through the list from its front. Nothing has to be computed but the powers.

`powMod` runs for 512 rounds at most and stops when the exponent is used up, so that the bound costs
nothing for shorter exponents; a certificate contains that its exponents are short enough.
-/

namespace Primality

/-- The loop of `powMod`: one bit of the exponent a round, from the bottom, with the base squared
each time. -/
def powModLoop (m : ℕ) : ℕ → ℕ → ℕ → ℕ → ℕ
  | 0, _, _, acc => acc
  | rounds + 1, b, e, acc =>
      if e = 0 then acc
      else powModLoop m rounds (b * b % m) (e / 2) (if e % 2 = 1 then acc * b % m else acc)

/-- The power `b ^ e` modulo `m`, for exponents of at most 512 bits. -/
def powMod (b e m : ℕ) : ℕ := powModLoop m 512 b e 1

lemma powModLoop_modEq (m : ℕ) :
    ∀ (rounds b e acc : ℕ), e < 2 ^ rounds →
      powModLoop m rounds b e acc ≡ acc * b ^ e [MOD m] := by
  intro rounds
  induction rounds with
  | zero =>
      intro b e acc he
      have hzero : e = 0 := by simpa using he
      rw [powModLoop, hzero, pow_zero, mul_one]
  | succ rounds ih =>
      intro b e acc he
      rw [powModLoop]
      by_cases hdone : e = 0
      · rw [if_pos hdone, hdone, pow_zero, mul_one]
      rw [if_neg hdone]
      have hhalf : e / 2 < 2 ^ rounds := by
        rw [pow_succ] at he
        omega
      have hsquare : (b * b % m) ^ (e / 2) ≡ (b ^ 2) ^ (e / 2) [MOD m] := by
        rw [pow_two]
        exact (Nat.mod_modEq _ _).pow _
      refine (ih _ _ _ hhalf).trans ?_
      -- The lowest bit of the exponent says whether the accumulator takes a factor in this round.
      rcases Nat.mod_two_eq_zero_or_one e with heven | hodd
      · have hpow : b ^ e = (b ^ 2) ^ (e / 2) := by
          rw [← pow_mul]
          congr 1
          omega
        rw [if_neg (by omega), hpow]
        exact hsquare.mul_left _
      · have hpow : acc * b ^ e = acc * b * (b ^ 2) ^ (e / 2) := by
          rw [← pow_mul, mul_assoc, ← pow_succ']
          congr 2
          omega
        rw [if_pos hodd, hpow]
        exact (Nat.mod_modEq _ _).mul hsquare

theorem powMod_modEq {e : ℕ} (b m : ℕ) (he : e < 2 ^ 512) : powMod b e m ≡ b ^ e [MOD m] := by
  have h := powModLoop_modEq m 512 b e 1 he
  rwa [one_mul] at h

/-- The powers of a residue, by the computation: an equation in `ZMod p` is a congruence between
numbers that are computed. -/
lemma pow_eq_iff {p e : ℕ} (b c : ℕ) (he : e < 2 ^ 512) :
    (b : ZMod p) ^ e = (c : ZMod p) ↔ powMod b e p ≡ c [MOD p] := by
  rw [← Nat.cast_pow, ZMod.natCast_eq_natCast_iff]
  exact ⟨(powMod_modEq b p he).trans, (powMod_modEq b p he).symm.trans⟩

/-- What a certificate of `p` by the generator `a` and the prime powers in `p - 1` has to satisfy.
That the bases of the prime powers are prime is not a part of it. -/
def Certifies (p a : ℕ) (factors : List (ℕ × ℕ)) : Prop :=
  p - 1 < 2 ^ 512 ∧ (factors.map fun f => f.1 ^ f.2).prod = p - 1 ∧
    powMod a (p - 1) p % p = 1 % p ∧ ∀ f ∈ factors, powMod a ((p - 1) / f.1) p % p ≠ 1 % p

instance (p a : ℕ) (factors : List (ℕ × ℕ)) : Decidable (Certifies p a factors) := by
  unfold Certifies
  infer_instance

/-- A number with a certificate is prime, when the factors of its certificate are. -/
theorem prime_of_certifies {p : ℕ} (a : ℕ) (factors : List (ℕ × ℕ))
    (hfactors : ∀ f ∈ factors, f.1.Prime) (h : Certifies p a factors) : p.Prime := by
  obtain ⟨hsize, hprod, hone, hne⟩ := h
  have hcast : (1 : ZMod p) = ((1 : ℕ) : ZMod p) := Nat.cast_one.symm
  apply lucas_primality p (a : ZMod p)
  · rw [hcast, pow_eq_iff a 1 hsize]
    exact hone
  · intro q hq hdvd
    rw [← hprod] at hdvd
    obtain ⟨x, hx, hqx⟩ := (Nat.prime_iff.mp hq).dvd_prod_iff.mp hdvd
    obtain ⟨f, hf, rfl⟩ := List.mem_map.mp hx
    have heq : q = f.1 :=
      (Nat.prime_dvd_prime_iff_eq hq (hfactors f hf)).mp (hq.dvd_of_dvd_pow hqx)
    rw [heq, hcast, Ne, pow_eq_iff a 1 ((Nat.div_le_self _ _).trans_lt hsize)]
    exact hne f hf

/-! ## Chains of certificates -/

/-- A number whose primality is to be certified, a generator and the prime powers of its
predecessor. -/
structure Entry where
  prime : ℕ
  generator : ℕ
  factors : List (ℕ × ℕ)

/-- Every entry certifies its prime from the known primes and the primes of the entries before. -/
def ChainCertifies : List ℕ → List Entry → Prop
  | _, [] => True
  | known, entry :: entries =>
      (∀ f ∈ entry.factors, f.1 ∈ known) ∧ Certifies entry.prime entry.generator entry.factors ∧
        ChainCertifies (entry.prime :: known) entries

instance decidableChainCertifies : (known : List ℕ) → (entries : List Entry) →
    Decidable (ChainCertifies known entries)
  | _, [] => isTrue trivial
  | known, entry :: entries =>
      have := decidableChainCertifies (entry.prime :: known) entries
      inferInstanceAs (Decidable (_ ∧ _ ∧ _))

/-- The entries of a chain over known primes are prime, one after the other. -/
theorem prime_of_chain {known : List ℕ} (entries : List Entry)
    (hknown : ∀ q ∈ known, q.Prime) (h : ChainCertifies known entries) :
    ∀ entry ∈ entries, entry.prime.Prime := by
  induction entries generalizing known with
  | nil => simp
  | cons entry entries ih =>
      obtain ⟨hfactors, hcert, hrest⟩ := h
      have hprime : entry.prime.Prime :=
        prime_of_certifies entry.generator entry.factors (fun f hf => hknown _ (hfactors f hf))
          hcert
      rw [List.forall_mem_cons]
      refine ⟨hprime, ih ?_ hrest⟩
      rw [List.forall_mem_cons]
      exact ⟨hprime, hknown⟩

/-! ## Powers modulo a prime -/

/-- Inversion modulo a prime, by a power. Zero is its own inverse on both sides. -/
lemma pow_sub_two_eq_inv {m : ℕ} [Fact m.Prime] (hm : 2 < m) (v : ZMod m) :
    v ^ (m - 2) = v⁻¹ := by
  by_cases hv : v = 0
  · rw [hv, inv_zero, zero_pow (by omega)]
  · refine eq_inv_of_mul_eq_one_left ?_
    rw [← pow_succ, show m - 2 + 1 = m - 1 by omega]
    exact ZMod.pow_card_sub_one_eq_one hv

end Primality
