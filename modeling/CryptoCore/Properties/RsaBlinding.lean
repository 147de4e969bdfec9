import CryptoCore.Construction.NativeProvider
import CryptoCore.Properties.RsaOperations

/-!
# Blinding with retries

The private operation of the provider draws a blinding factor up to eight times. Whatever the
generator returns, the bytes that come out are those of the plain private operation: the draws only
decide whether there is an output, and an error of the generator stops them.

A draw is rejected when the operation refuses its factor, which it does with one error code and
exactly when the factor is not invertible modulo one of the primes, or when the input is no
representative at all. `exists_first_draw` is the case distinction of the module: either all eight
draws are rejected, or there is a first one that is not, and then it is an error of the generator or
a usable factor. The three outcomes are `rsaPrivateCrtBlindedWithRng_exhausted`,
`rsaPrivateCrtBlindedWithRng_failed` and `rsaPrivateCrtBlindedWithRng_usable`.

How many draws there are matters to a caller that shares the generator. `countedAttempts` is the
loop of the code with a count of its requests, and erases to it.
-/

namespace CryptoCore

open ByteStrings NativeProvider

namespace NativeProvider

/-! ## Draws -/

/-- The attempts of the blinded operation, with the number of requests they make. -/
def countedAttempts (rng : Rng) (key : RsaPrivateKeyMaterial) (input : List UInt8) :
    ℕ → ℕ → Error → Result ByteBuffer × ℕ
  | 0, _, lastError => (.error lastError, 0)
  | attempts + 1, request, _ =>
      match rng.generate request key.modulus.length with
      | .error e => (.error e, 1)
      | .ok blindingFactor =>
          match rsaPrivateCrtBlindedOperation key input blindingFactor.toList with
          | .ok output => (.ok output, 1)
          | .error lastError =>
              if lastError.code ≠ .invalidArgument then (.error lastError, 1)
              else ((countedAttempts rng key input attempts (request + 1) lastError).1,
                (countedAttempts rng key input attempts (request + 1) lastError).2 + 1)

/-- Without the count they are the attempts of the code. -/
lemma countedAttempts_fst (rng : Rng) (key : RsaPrivateKeyMaterial) (input : List UInt8)
    (attempts request : ℕ) (lastError : Error) :
    (countedAttempts rng key input attempts request lastError).1 =
      blindingAttempts rng key input attempts request lastError := by
  induction attempts generalizing request lastError with
  | zero => rfl
  | succ attempts ih =>
      rw [countedAttempts, blindingAttempts]
      cases rng.generate request key.modulus.length with
      | error e => rfl
      | ok blindingFactor =>
          rw [ok_bind]
          dsimp only
          cases rsaPrivateCrtBlindedOperation key input blindingFactor.toList with
          | ok output => rfl
          | error lastError =>
              dsimp only
              split
              · rfl
              · exact ih (request + 1) lastError

/-- The requests that the attempts of the blinded operation make, the last one included. -/
def blindingDraws (rng : Rng) (key : RsaPrivateKeyMaterial) (input : List UInt8)
    (attempts request : ℕ) : ℕ :=
  (countedAttempts rng key input attempts request
    (providerError .providerError "RSA blinding failed")).2

/-- The error of the attempt before is not looked at, only passed on. -/
lemma countedAttempts_snd (rng : Rng) (key : RsaPrivateKeyMaterial) (input : List UInt8)
    (attempts request : ℕ) (lastError : Error) :
    (countedAttempts rng key input attempts request lastError).2 =
      blindingDraws rng key input attempts request := by
  cases attempts <;> rfl

/-- A factor that is invertible modulo both primes, and can therefore be taken out of the power. -/
def UsableFactor (key : RsaPrivateKeyMaterial) (factor : List UInt8) : Prop :=
  ¬ beValue key.prime1 ∣ beValue factor ∧ ¬ beValue key.prime2 ∣ beValue factor

/-- A draw that returns bytes with which there is no output, so that another draw is made. -/
def RejectedDraw (rng : Rng) (key : RsaPrivateKeyMaterial) (input : List UInt8) (request : ℕ) :
    Prop :=
  ∃ factor, rng.generate request key.modulus.length = .ok factor ∧
    (beValue key.modulus ≤ beValue input ∨ ¬ UsableFactor key factor.toList)

section Attempts

variable {rng : Rng} {key : RsaPrivateKeyMaterial} (hkey : RsaDer.ValidPrivateKey key)
  {input : List UInt8} {request : ℕ}
include hkey

/-- The operation refuses what a rejected draw returns, and another draw is made. -/
lemma blindingAttempts_rejected (hdraw : RejectedDraw rng key input request) (attempts : ℕ)
    (lastError : Error) :
    ∃ e, e.code = .invalidArgument ∧
      blindingAttempts rng key input (attempts + 1) request lastError =
        blindingAttempts rng key input attempts (request + 1) e ∧
      blindingDraws rng key input (attempts + 1) request =
        blindingDraws rng key input attempts (request + 1) + 1 := by
  obtain ⟨factor, hfactor, hrejected⟩ := hdraw
  obtain ⟨e, herror, hcode⟩ : ∃ e,
      rsaPrivateCrtBlindedOperation key input factor.toList = .error e ∧
        e.code = .invalidArgument := by
    by_cases hinput : beValue key.modulus ≤ beValue input
    · exact ⟨_, hkey.privateCrtBlindedOperation_large hinput, rfl⟩
    · have hunusable := hrejected.resolve_left hinput
      rw [UsableFactor, not_and_or, not_not, not_not] at hunusable
      exact hkey.privateCrtBlindedOperation_unusable (Nat.lt_of_not_le hinput) hunusable
  refine ⟨e, hcode, ?_, ?_⟩
  · rw [blindingAttempts, hfactor, ok_bind, herror]
    exact if_neg (not_not.mpr hcode)
  · rw [blindingDraws, countedAttempts, hfactor]
    dsimp only
    rw [herror]
    dsimp only
    rw [if_neg (not_not.mpr hcode), countedAttempts_snd]

/-- A run of rejected draws, by induction on their number: what is left are the other attempts. -/
lemma blindingAttempts_run {k : ℕ} (hdraws : ∀ i < k, RejectedDraw rng key input (request + i))
    (attempts : ℕ) (lastError : Error) :
    ∃ e, (0 < k → e.code = .invalidArgument) ∧
      blindingAttempts rng key input (attempts + k) request lastError =
        blindingAttempts rng key input attempts (request + k) e ∧
      blindingDraws rng key input (attempts + k) request =
        blindingDraws rng key input attempts (request + k) + k := by
  induction k generalizing attempts with
  | zero => exact ⟨lastError, nofun, rfl, rfl⟩
  | succ k ih =>
      obtain ⟨e, -, hrun, hcount⟩ := ih (fun i hi => hdraws i (Nat.lt_succ_of_lt hi)) (attempts + 1)
      obtain ⟨e', hcode, hrun', hcount'⟩ :=
        blindingAttempts_rejected hkey (hdraws k (Nat.lt_succ_self k)) attempts e
      refine ⟨e', fun _ => hcode, ?_, ?_⟩
      · rw [← Nat.add_assoc, Nat.add_right_comm, hrun, hrun', Nat.add_assoc]
      · rw [← Nat.add_assoc, Nat.add_right_comm, hcount, hcount', Nat.add_assoc, Nat.add_assoc,
          Nat.add_comm 1 k]

/-- Eight rejected draws are a failure, with the code of the last refusal. -/
lemma rsaPrivateCrtBlindedWithRng_exhausted
    (hdraws : ∀ i < 8, RejectedDraw rng key input (request + i)) :
    ∃ e, rsaPrivateCrtBlindedWithRng rng request key input = .error e ∧
      e.code = .invalidArgument ∧ blindingDraws rng key input 8 request = 8 := by
  obtain ⟨e, hcode, hrun, hcount⟩ := blindingAttempts_run hkey hdraws 0
    (providerError .providerError "RSA blinding failed")
  refine ⟨e, ?_, hcode (by decide), hcount⟩
  rw [rsaPrivateCrtBlindedWithRng]
  exact hrun

/-- A generator that fails behind rejected draws ends the attempts with its error. -/
lemma rsaPrivateCrtBlindedWithRng_failed {k : ℕ} (hk : k < 8)
    (hdraws : ∀ i < k, RejectedDraw rng key input (request + i)) {e : Error}
    (hfailed : rng.generate (request + k) key.modulus.length = .error e) :
    rsaPrivateCrtBlindedWithRng rng request key input = .error e := by
  obtain ⟨attempts, hattempts⟩ : ∃ attempts, 8 = attempts + 1 + k := ⟨7 - k, by omega⟩
  obtain ⟨e', -, hrun, -⟩ := blindingAttempts_run hkey hdraws (attempts + 1)
    (providerError .providerError "RSA blinding failed")
  rw [rsaPrivateCrtBlindedWithRng, hattempts, hrun, blindingAttempts, hfailed, error_bind]

end Attempts

/-- The draws are all rejected, or there is a first one that is not. -/
lemma exists_first_draw (rng : Rng) (key : RsaPrivateKeyMaterial) (input : List UInt8)
    (request : ℕ) :
    (∀ i < 8, RejectedDraw rng key input (request + i)) ∨
      ∃ k < 8, (∀ i < k, RejectedDraw rng key input (request + i)) ∧
        ¬ RejectedDraw rng key input (request + k) := by
  classical
  by_cases hall : ∀ i < 8, RejectedDraw rng key input (request + i)
  · exact .inl hall
  · have hexists : ∃ i, i < 8 ∧ ¬ RejectedDraw rng key input (request + i) := by
      simpa only [not_forall, exists_prop] using hall
    refine .inr ⟨Nat.find hexists, (Nat.find_spec hexists).1, ?_, (Nat.find_spec hexists).2⟩
    intro i hi
    have hmin := Nat.find_min hexists hi
    rw [not_and, not_not] at hmin
    exact hmin (hi.trans (Nat.find_spec hexists).1)

/-- A draw that is not rejected is an error or a usable factor for a representative. -/
lemma of_not_rejectedDraw {rng : Rng} {key : RsaPrivateKeyMaterial} {input : List UInt8}
    {request : ℕ} (h : ¬ RejectedDraw rng key input request) :
    (∃ e, rng.generate request key.modulus.length = .error e) ∨
      ∃ factor, rng.generate request key.modulus.length = .ok factor ∧
        beValue input < beValue key.modulus ∧ UsableFactor key factor.toList := by
  cases hgenerate : rng.generate request key.modulus.length with
  | error e => exact .inl ⟨e, rfl⟩
  | ok factor =>
      refine .inr ⟨factor, rfl, ?_⟩
      by_contra hnot
      rw [not_and_or, Nat.not_lt] at hnot
      exact h ⟨factor, hgenerate, hnot⟩

/-- A usable factor behind rejected draws gives the private power. -/
lemma rsaPrivateCrtBlindedWithRng_usable {rng : Rng} {key : RsaPrivateKeyMaterial}
    (hkey : Rsa.PrimeKey key) {input : List UInt8} {request k : ℕ} (hk : k < 8)
    (hdraws : ∀ i < k, RejectedDraw rng key input (request + i))
    (hinput : beValue input < beValue key.modulus) {factor : Vector UInt8 key.modulus.length}
    (hfactor : rng.generate (request + k) key.modulus.length = .ok factor)
    (husable : UsableFactor key factor.toList) :
    rsaPrivateCrtBlindedWithRng rng request key input =
      .ok (Rsa.privateOutput key (beValue input)) := by
  obtain ⟨attempts, hattempts⟩ : ∃ attempts, 8 = attempts + 1 + k := ⟨7 - k, by omega⟩
  obtain ⟨e', -, hrun, -⟩ := blindingAttempts_run hkey.toValidPrivateKey hdraws (attempts + 1)
    (providerError .providerError "RSA blinding failed")
  rw [rsaPrivateCrtBlindedWithRng, hattempts, hrun, blindingAttempts, hfactor, ok_bind,
    hkey.privateCrtBlindedOperation_eq hinput husable.1 husable.2]

/-- A usable factor in front of any error of the generator gives the private power. -/
lemma rsaPrivateCrtBlindedWithRng_eq {rng : Rng} {key : RsaPrivateKeyMaterial}
    (hkey : Rsa.PrimeKey key) {input : List UInt8} {request : ℕ}
    (hinput : beValue input < beValue key.modulus)
    (hdraw : ∃ k < 8,
      (∀ i < k, ∃ factor, rng.generate (request + i) key.modulus.length = .ok factor) ∧
        ∃ factor, rng.generate (request + k) key.modulus.length = .ok factor ∧
          UsableFactor key factor.toList) :
    rsaPrivateCrtBlindedWithRng rng request key input =
      .ok (Rsa.privateOutput key (beValue input)) := by
  obtain ⟨k, hk, hdraws, factor, hfactor, husable⟩ := hdraw
  have hnotRejected : ¬ RejectedDraw rng key input (request + k) := by
    rintro ⟨factor', hfactor', hrejected⟩
    cases hfactor.symm.trans hfactor'
    exact absurd husable (hrejected.resolve_left (Nat.not_le.mpr hinput))
  obtain hall | ⟨first, hfirstLt, hrejected, hfirst⟩ := exists_first_draw rng key input request
  · exact absurd (hall k hk) hnotRejected
  · obtain ⟨e, hfailed⟩ | ⟨factor', hfactor', -, husable'⟩ := of_not_rejectedDraw hfirst
    · -- an error would have to come behind the usable draw, which is not rejected
      rcases Nat.lt_trichotomy first k with hlt | rfl | hgt
      · obtain ⟨factor', hfactor'⟩ := hdraws first hlt
        cases hfailed.symm.trans hfactor'
      · cases hfailed.symm.trans hfactor
      · exact absurd (hrejected k hgt) hnotRejected
    · exact rsaPrivateCrtBlindedWithRng_usable hkey hfirstLt hrejected hinput hfactor' husable'

/-- A generator that never fails leaves two outcomes, whatever the primes are: bytes of the width
of the modulus, or the failure of a refused draw. -/
lemma rsaPrivateCrtBlindedWithRng_cases {rng : Rng} {key : RsaPrivateKeyMaterial}
    (hkey : RsaDer.ValidPrivateKey key) (hlength1 : key.prime1.length ≤ 256)
    (hlength2 : key.prime2.length ≤ 256)
    (hrng : ∀ request, ∃ factor, rng.generate request key.modulus.length = .ok factor)
    (request : ℕ) (input : List UInt8) :
    (∃ y, rsaPrivateCrtBlindedWithRng rng request key input =
        .ok (beBytes key.modulus.length y)) ∨
      ∃ e, rsaPrivateCrtBlindedWithRng rng request key input = .error e ∧
        e.code = .invalidArgument := by
  obtain hall | ⟨k, hk, hdraws, hfirst⟩ := exists_first_draw rng key input request
  · obtain ⟨e, herror, hcode, -⟩ := rsaPrivateCrtBlindedWithRng_exhausted hkey hall
    exact .inr ⟨e, herror, hcode⟩
  · obtain ⟨e, hfailed⟩ | ⟨factor, hfactor, hinput, husable⟩ := of_not_rejectedDraw hfirst
    · obtain ⟨factor, hfactor⟩ := hrng (request + k)
      cases hfailed.symm.trans hfactor
    · obtain ⟨y, hy⟩ := hkey.privateCrtBlindedOperation_usable hinput hlength1 hlength2
        husable.1 husable.2
      obtain ⟨attempts, hattempts⟩ : ∃ attempts, 8 = attempts + 1 + k := ⟨7 - k, by omega⟩
      obtain ⟨e', -, hrun, -⟩ := blindingAttempts_run hkey hdraws (attempts + 1)
        (providerError .providerError "RSA blinding failed")
      refine .inl ⟨y, ?_⟩
      rw [rsaPrivateCrtBlindedWithRng, hattempts, hrun, blindingAttempts, hfactor, ok_bind, hy]

end NativeProvider

/-! ## The draws decide whether there is an output, and nothing else -/

/-- For every generator and every request it starts at: a usable draw in front of any error gives
the private power, an error in front of any usable draw is returned, and eight draws without
either are a failure. Nothing else gives an output, and all outputs are the same. -/
theorem rsaPrivateCrtBlindedWithRng_transparent (der : List UInt8) (key : RsaPrivateKeyMaterial)
    (hparse : parseRsaPrivateKeyDer der = .ok key)
    (hprime1 : (beValue key.prime1).Prime) (hprime2 : (beValue key.prime2).Prime)
    (hlength1 : key.prime1.length ≤ 256) (hlength2 : key.prime2.length ≤ 256)
    (input : List UInt8) :
    (∀ (rng : Rng) (request : ℕ), beValue input < beValue key.modulus →
      (∃ k < 8, (∀ i < k, ∃ factor, rng.generate (request + i) key.modulus.length = .ok factor) ∧
        ∃ factor, rng.generate (request + k) key.modulus.length = .ok factor ∧
          UsableFactor key factor.toList) →
      rsaPrivateCrtBlindedWithRng rng request key input = .ok (beBytes key.modulus.length
        (beValue input ^ beValue key.privateExponent % beValue key.modulus))) ∧
    (∀ (rng : Rng) (request : ℕ) (e : Error),
      (∃ k < 8, (∀ i < k, RejectedDraw rng key input (request + i)) ∧
        rng.generate (request + k) key.modulus.length = .error e) →
      rsaPrivateCrtBlindedWithRng rng request key input = .error e) ∧
    (∀ (rng : Rng) (request : ℕ), (∀ i < 8, RejectedDraw rng key input (request + i)) →
      ∃ e, rsaPrivateCrtBlindedWithRng rng request key input = .error e ∧
        e.code = .invalidArgument ∧ blindingDraws rng key input 8 request = 8) ∧
    (∀ (rng : Rng) (request : ℕ) (output : List UInt8),
      rsaPrivateCrtBlindedWithRng rng request key input = .ok output →
      beValue input < beValue key.modulus ∧
        ∃ k < 8, ∃ factor, rng.generate (request + k) key.modulus.length = .ok factor ∧
          UsableFactor key factor.toList) ∧
    (∀ (rng rng' : Rng) (request request' : ℕ) (output output' : List UInt8),
      rsaPrivateCrtBlindedWithRng rng request key input = .ok output →
      rsaPrivateCrtBlindedWithRng rng' request' key input = .ok output' → output = output') := by
  have hkey := Rsa.PrimeKey.of_parse hparse hprime1 hprime2 hlength1 hlength2
  -- every output comes from the first draw that is not rejected
  have houtput : ∀ (rng : Rng) (request : ℕ) (output : List UInt8),
      rsaPrivateCrtBlindedWithRng rng request key input = .ok output →
      beValue input < beValue key.modulus ∧ output = Rsa.privateOutput key (beValue input) ∧
        ∃ k < 8, ∃ factor, rng.generate (request + k) key.modulus.length = .ok factor ∧
          UsableFactor key factor.toList := by
    intro rng request output hrun
    obtain hall | ⟨k, hk, hdraws, hfirst⟩ := exists_first_draw rng key input request
    · obtain ⟨e, herror, -⟩ := rsaPrivateCrtBlindedWithRng_exhausted hkey.toValidPrivateKey hall
      cases hrun.symm.trans herror
    · obtain ⟨e, hfailed⟩ | ⟨factor, hfactor, hinput, husable⟩ := of_not_rejectedDraw hfirst
      · cases hrun.symm.trans
          (rsaPrivateCrtBlindedWithRng_failed hkey.toValidPrivateKey hk hdraws hfailed)
      · have heq := rsaPrivateCrtBlindedWithRng_usable hkey hk hdraws hinput hfactor husable
        rw [hrun] at heq
        exact ⟨hinput, Except.ok.inj heq, k, hk, factor, hfactor, husable⟩
  refine ⟨?_, ?_, ?_, ?_, ?_⟩
  · intro rng request hinput hdraws
    exact rsaPrivateCrtBlindedWithRng_eq hkey hinput hdraws
  · rintro rng request e ⟨k, hk, hdraws, hfailed⟩
    exact rsaPrivateCrtBlindedWithRng_failed hkey.toValidPrivateKey hk hdraws hfailed
  · exact fun rng request hdraws =>
      rsaPrivateCrtBlindedWithRng_exhausted hkey.toValidPrivateKey hdraws
  · intro rng request output hrun
    obtain ⟨hinput, -, husable⟩ := houtput rng request output hrun
    exact ⟨hinput, husable⟩
  · intro rng rng' request request' output output' hrun hrun'
    rw [(houtput rng request output hrun).2.1, (houtput rng' request' output' hrun').2.1]

/-- A generator whose first draw is zero and whose second one is five. -/
def secondDrawRng : Rng where
  generate request size := .ok (Vector.ofFn fun i : Fin size =>
    if request = 1 ∧ i.val + 1 = size then 5 else 0)

/-- The representative of the native primitive test with the second draw. -/
theorem rsaPrivateCrtBlindedWithRng_transparent_smallKey :
    rsaPrivateCrtBlindedWithRng secondDrawRng 0 smallKey [0x0A, 0xE6] = .ok [0x00, 0x41] := by
  have h := (rsaPrivateCrtBlindedWithRng_transparent smallKeyDer smallKey smallKeyDer_parse
    (show Nat.Prime 61 by norm_num) (show Nat.Prime 53 by norm_num) (by decide) (by decide)
    [0x0A, 0xE6]).1 secondDrawRng 0 (by decide)
    ⟨1, by decide, fun i _ => ⟨_, rfl⟩, _, rfl, by decide, by decide⟩
  rwa [smallKey_output] at h

end CryptoCore
