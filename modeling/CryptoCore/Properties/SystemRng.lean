import CryptoCore.Properties.OaepCiphertexts
import CryptoCore.Properties.OsRng
import CryptoCore.Properties.SignatureOrigins

/-!
# Randomness from the kernel

The provider asks a generator of the system for every salt, seed and blinding factor, and the kernel
goes on where the request before left it. Over a kernel that gives out a stream, the salt and the
seed are the next bytes of the stream. The blinding factors are the bytes behind them, and decide
only whether there is a result.

The operations take their generator as a function of the number of the request. `Rng.DrawsFrom` ties
such a function to a run of the kernel: there are states between the requests, and each request is
answered by the generator of the system from the state before it. `requestOffset` is then where a
request reads in the stream, by induction over the requests in front of it, all of which must have
been answered.

A refusal belongs to a run as well. `Rng.RefusedAt` says that the requests before were answered,
that this one failed, and that the kernel refused a call at a position inside the bytes that it was
to read. `BlindedOutcome` lists the ends of the blinded operation in these terms, and the two
theorems are the same list for signing and for decryption.
-/

namespace CryptoCore

open ByteStrings EmsaPss NativeProvider OsRng

variable {σ : Type}

/-! ## Requests -/

/-- A generator whose first requests, of the given sizes, are answered by the generator of the
system, each from the state of the kernel that the one before left. -/
def Rng.DrawsFrom (rng : Rng) (kernel : Kernel σ) (start : σ) (sizes : ℕ → ℕ) (count : ℕ) :
    Prop :=
  ∃ states : ℕ → σ, states 0 = start ∧ ∀ i < count, ∃ rounds,
    OsRng.generate kernel (states i) (sizes i) rounds =
      .ended ((rng.generate i (sizes i)).map Vector.toList, states (i + 1))

/-- The bytes of the requests in front of a request, which is where it reads. -/
def requestOffset (sizes : ℕ → ℕ) : ℕ → ℕ
  | 0 => 0
  | i + 1 => requestOffset sizes i + sizes i

/-- Requests of one size behind some others. -/
lemma requestOffset_add {sizes : ℕ → ℕ} {first size k : ℕ}
    (h : ∀ i < k, sizes (first + i) = size) :
    requestOffset sizes (first + k) = requestOffset sizes first + k * size := by
  induction k with
  | zero => rw [Nat.add_zero, Nat.zero_mul, Nat.add_zero]
  | succ k ih =>
      rw [← Nat.add_assoc, requestOffset, h k (Nat.lt_succ_self k),
        ih fun i hi => h i (Nat.lt_succ_of_lt hi), Nat.succ_mul, Nat.add_assoc]

/-- The request of a run that ends it: those before it are answered, and it stops inside the bytes
that it was to read, on a call that the kernel refuses. -/
structure Rng.RefusedAt (rng : Rng) (kernel : Kernel σ) (position : σ → ℕ) (start : σ)
    (sizes : ℕ → ℕ) (i : ℕ) (e : Error) : Prop where
  answered : ∀ j < i, ∃ bytes, rng.generate j (sizes j) = .ok bytes
  failed : rng.generate i (sizes i) = .error e
  refuses : ∃ s s', position start + requestOffset sizes i ≤ position s ∧
    position s < position start + requestOffset sizes (i + 1) ∧ Refuses kernel s e s'

namespace Rng.DrawsFrom

variable {rng : Rng} {kernel : Kernel σ} {stream : ℕ → UInt8} {position : σ → ℕ} {start : σ}
  {sizes : ℕ → ℕ} {count : ℕ}

/-- A request behind answered ones gets the next bytes of the stream, or it is the one that the
kernel refuses. -/
lemma request (h : rng.DrawsFrom kernel start sizes count)
    (hkernel : kernel.Reads stream position) {i size : ℕ} (hi : i < count) (hsize : sizes i = size)
    (hbefore : ∀ j < i, ∃ bytes, rng.generate j (sizes j) = .ok bytes) :
    (∀ bytes, rng.generate i size = .ok bytes →
      bytes.toList = streamSlice stream (position start + requestOffset sizes i) size) ∧
    ∀ e, rng.generate i size = .error e → rng.RefusedAt kernel position start sizes i e := by
  subst hsize
  obtain ⟨states, hstart, hrequests⟩ := h
  -- an answered request moves the stream by its size
  have hposition : ∀ j ≤ i, position (states j) = position start + requestOffset sizes j := by
    intro j
    induction j with
    | zero =>
        intro _
        rw [hstart, requestOffset, Nat.add_zero]
    | succ j ih =>
        intro hj
        obtain ⟨bytes, hbytes⟩ := hbefore j hj
        obtain ⟨rounds, hrun⟩ := hrequests j ((Nat.lt_of_succ_le hj).trans hi)
        rw [hbytes] at hrun
        have hnext := (generate_outcome hkernel hrun).2
        rw [hnext, ih (Nat.le_of_succ_le hj), requestOffset, Nat.add_assoc]
  obtain ⟨rounds, hrun⟩ := hrequests i hi
  have houtcome := generate_outcome hkernel hrun
  constructor
  · intro bytes hbytes
    rw [hbytes] at houtcome
    rw [← hposition i le_rfl]
    exact houtcome.1
  · intro e he
    rw [he] at houtcome
    obtain ⟨s, hle, hlt, hrefuses⟩ := houtcome
    rw [hposition i le_rfl] at hle hlt
    exact ⟨hbefore, he, s, _, hle, by rwa [requestOffset, ← Nat.add_assoc], hrefuses⟩

end Rng.DrawsFrom

/-- The states of the kernel between requests, each left by the request before. -/
def statesBetween (after : σ → ℕ → σ) (start : σ) (sizes : ℕ → ℕ) : ℕ → σ
  | 0 => start
  | i + 1 => after (statesBetween after start sizes i) (sizes i)

/-- Bytes as an answer to a request, which has their number in its type. -/
def answerOf (size : ℕ) (result : Result ByteBuffer) : Result (Vector UInt8 size) :=
  result.map fun bytes => Vector.ofFn fun i : Fin size => bytes.getD i.val 0

lemma map_toList_answerOf {size : ℕ} {result : Result ByteBuffer}
    (h : ∀ bytes, result = .ok bytes → bytes.length = size) :
    (answerOf size result).map Vector.toList = result := by
  cases result with
  | error e => rfl
  | ok bytes => exact congrArg Except.ok (toList_ofFn_getD (h bytes rfl))

/-- Over a kernel that does not interrupt without end there is such a generator, so that the
theorems are about something. -/
lemma exists_drawsFrom {kernel : Kernel σ} {stream : ℕ → UInt8} {position patience : σ → ℕ}
    {bound : ℕ} (hkernel : kernel.Reads stream position) (hbound : ∀ s, patience s ≤ bound)
    (hpatience : ∀ s s' requested, kernel.getrandom s requested = (.failed true, s') →
      patience s' < patience s) (start : σ) (sizes : ℕ → ℕ) (count : ℕ) :
    ∃ rng : Rng, rng.DrawsFrom kernel start sizes count := by
  choose rounds _ result hresult using exists_generate_ended hkernel hbound hpatience
  set states := statesBetween (fun s size => (result s size).2) start sizes
  refine ⟨⟨fun i size => answerOf size (result (states i) size).1⟩, states, rfl, fun i _ =>
    ⟨rounds (states i) (sizes i), ?_⟩⟩
  have hrun := hresult (states i) (sizes i)
  have hlength : ∀ bytes, (result (states i) (sizes i)).1 = .ok bytes →
      bytes.length = sizes i := by
    intro bytes hbytes
    have houtcome := generate_outcome hkernel hrun
    rw [← Prod.eta (result _ _), hbytes] at houtcome
    rw [houtcome.1, length_streamSlice]
  rw [hrun, map_toList_answerOf hlength]
  rfl

/-! ## Blinding factors -/

/-- The bytes that a blinding factor is taken from, behind the factors before it. -/
def factorSlice (stream : ℕ → UInt8) (position : ℕ) (key : RsaPrivateKeyMaterial) (k : ℕ) :
    List UInt8 :=
  streamSlice stream (position + k * key.modulus.length) key.modulus.length

namespace NativeProvider

/-- The ends of the blinded operation, given the slices that its factors are taken from and when
the request of one is refused. -/
inductive BlindedOutcome (refused : ℕ → Error → Prop) (key : RsaPrivateKeyMaterial)
    (factors : ℕ → List UInt8) (output : List UInt8) : Result ByteBuffer → Prop
  | usable {k : ℕ} (hk : k < 8) (hunusable : ∀ i < k, ¬ UsableFactor key (factors i))
      (husable : UsableFactor key (factors k)) :
      BlindedOutcome refused key factors output (.ok output)
  | refused {k : ℕ} (hk : k < 8) (hunusable : ∀ i < k, ¬ UsableFactor key (factors i)) {e : Error}
      (h : refused k e) : BlindedOutcome refused key factors output (.error e)
  | unusable (h : ∀ i < 8, ¬ UsableFactor key (factors i)) :
      BlindedOutcome refused key factors output (.error (unusableError (factors 7)))

section Blinding

variable {rng : Rng} {kernel : Kernel σ} {stream : ℕ → UInt8} {position : σ → ℕ} {start : σ}
  {sizes : ℕ → ℕ} {key : RsaPrivateKeyMaterial} {first : ℕ}
  (hkernel : kernel.Reads stream position) (hrng : rng.DrawsFrom kernel start sizes (first + 8))
  (hfirst : ∀ j < first, ∃ bytes, rng.generate j (sizes j) = .ok bytes)
  (hsizes : ∀ k < 8, sizes (first + k) = key.modulus.length)
include hkernel hrng hfirst hsizes

/-- The request behind factors that are no good gets the next slice, or the kernel refuses. -/
lemma factor_outcome {k : ℕ} (hk : k < 8) (hdraws : ∀ i < k, UnusableDraw rng key (first + i)) :
    (∀ factor, rng.generate (first + k) key.modulus.length = .ok factor → factor.toList =
      factorSlice stream (position start + requestOffset sizes first) key k) ∧
    ∀ e, rng.generate (first + k) key.modulus.length = .error e →
      rng.RefusedAt kernel position start sizes (first + k) e := by
  have hoffset : requestOffset sizes (first + k) =
      requestOffset sizes first + k * key.modulus.length :=
    requestOffset_add fun i hi => hsizes i (hi.trans hk)
  have hbefore : ∀ j < first + k, ∃ bytes, rng.generate j (sizes j) = .ok bytes := by
    intro j hj
    obtain hlt | hle := Nat.lt_or_ge j first
    · exact hfirst j hlt
    · obtain ⟨i, rfl⟩ := Nat.exists_eq_add_of_le hle
      have hi : i < k := Nat.lt_of_add_lt_add_left hj
      obtain ⟨factor, hfactor, -⟩ := hdraws i hi
      rw [hsizes i (hi.trans hk)]
      exact ⟨factor, hfactor⟩
  have hrequest := hrng.request hkernel (Nat.add_lt_add_left hk first) (hsizes k hk) hbefore
  rwa [hoffset, ← Nat.add_assoc] at hrequest

lemma unusable_slices {k : ℕ} (hk : k ≤ 8)
    (hdraws : ∀ i < k, UnusableDraw rng key (first + i)) {i : ℕ} (hi : i < k) :
    ¬ UsableFactor key
      (factorSlice stream (position start + requestOffset sizes first) key i) := by
  obtain ⟨factor, hfactor, hunusable⟩ := hdraws i hi
  have hslice := (factor_outcome hkernel hrng hfirst hsizes (hi.trans_le hk) fun j hj =>
    hdraws j (hj.trans hi)).1 factor hfactor
  rwa [hslice] at hunusable

/-- The operation behind answered requests. -/
lemma blindedOutcome (hkey : Rsa.PrimeKey key) {input : List UInt8}
    (hinput : beValue input < beValue key.modulus) :
    BlindedOutcome (fun k => rng.RefusedAt kernel position start sizes (first + k)) key
      (factorSlice stream (position start + requestOffset sizes first) key)
      (Rsa.privateOutput key (beValue input))
      (rsaPrivateCrtBlindedWithRng rng first key input) := by
  have houtcome {k : ℕ} (hk : k < 8) (hdraws : ∀ i < k, UnusableDraw rng key (first + i)) :=
    factor_outcome hkernel hrng hfirst hsizes hk hdraws
  have hslices {k : ℕ} (hk : k ≤ 8) (hdraws : ∀ i < k, UnusableDraw rng key (first + i)) (i : ℕ)
      (hi : i < k) := unusable_slices hkernel hrng hfirst hsizes hk hdraws hi
  obtain ⟨k, hk, hdraws, factor, hfactor, husable, hoperation⟩ |
      ⟨k, hk, hdraws, e, hfailed, hoperation⟩ | ⟨hdraws, last, hlast, hoperation⟩ :=
    rsaPrivateCrtBlindedWithRng_draws hkey hinput first
  · rw [(houtcome hk hdraws).1 factor hfactor] at husable
    rw [hoperation]
    exact .usable hk (hslices hk.le hdraws) husable
  · rw [hoperation]
    exact .refused hk (hslices hk.le hdraws) ((houtcome hk hdraws).2 e hfailed)
  · have hslice := (houtcome (by decide) fun i hi => hdraws i (Nat.lt_succ_of_lt hi)).1 last hlast
    rw [hoperation, hslice]
    exact .unusable (hslices le_rfl hdraws)

end Blinding

/-! ## Signing -/

/-- The requests of RSA-PSS: the salt, unless it is empty, and then blinding factors. -/
def pssRequests (pss : RsaPssParams) (modulus : List UInt8) (i : ℕ) : ℕ :=
  if i < firstFactor pss then pss.saltLength.toNat else modulus.length

lemma requestOffset_firstFactor (pss : RsaPssParams) (modulus : List UInt8) :
    requestOffset (pssRequests pss modulus) (firstFactor pss) = pss.saltLength.toNat := by
  by_cases hempty : pss.saltLength.toNat = 0
  · have hfirst : firstFactor pss = 0 := if_pos hempty
    rw [hfirst, requestOffset, hempty]
  · have hfirst : firstFactor pss = 1 := if_neg hempty
    rw [hfirst, requestOffset, requestOffset, Nat.zero_add, pssRequests, hfirst,
      if_pos Nat.zero_lt_one]

section Signing

variable {rng : Rng} {kernel : Kernel σ} {stream : ℕ → UInt8} {position : σ → ℕ} {start : σ}
  {pss : RsaPssParams} {modulus : List UInt8} {count : ℕ}

/-- The salt is the next bytes of the stream, also when it is empty. -/
lemma drawSalt_outcome (hkernel : kernel.Reads stream position)
    (hrng : rng.DrawsFrom kernel start (pssRequests pss modulus) (firstFactor pss + count)) :
    (∀ salt, drawSalt rng pss.saltLength.toNat = .ok salt →
      salt.toList = streamSlice stream (position start) pss.saltLength.toNat ∧
        ∀ j < firstFactor pss,
          ∃ bytes, rng.generate j (pssRequests pss modulus j) = .ok bytes) ∧
    ∀ e, drawSalt rng pss.saltLength.toNat = .error e → 0 < firstFactor pss ∧
      rng.RefusedAt kernel position start (pssRequests pss modulus) 0 e := by
  by_cases hempty : pss.saltLength.toNat = 0
  · have hfirst : firstFactor pss = 0 := if_pos hempty
    rw [drawSalt, if_pos hempty, hfirst]
    constructor
    · intro salt _
      have hlength : salt.toList.length = 0 := Vector.length_toList.trans hempty
      rw [List.eq_nil_of_length_eq_zero hlength, hempty]
      exact ⟨rfl, fun j hj => absurd hj (Nat.not_lt_zero j)⟩
    · intro e h
      cases h
  · have hfirst : firstFactor pss = 1 := if_neg hempty
    have hsize : pssRequests pss modulus 0 = pss.saltLength.toNat :=
      if_pos (hfirst.symm ▸ Nat.zero_lt_one)
    have hcount : 0 < firstFactor pss + count := by
      rw [hfirst]
      omega
    obtain ⟨hanswer, hrefuses⟩ := hrng.request hkernel hcount hsize fun j hj =>
      absurd hj (Nat.not_lt_zero j)
    rw [drawSalt, if_neg hempty, hfirst]
    refine ⟨fun salt hsalt => ⟨hanswer salt hsalt, fun j hj => ?_⟩,
      fun e h => ⟨Nat.zero_lt_one, hrefuses e h⟩⟩
    obtain rfl : j = 0 := Nat.lt_one_iff.mp hj
    rw [hsize]
    exact ⟨salt, hsalt⟩

/-- What RSA-PSS ends with: the signature of the next salt, behind slices that are no good and a
usable one, or an error and its reason. -/
lemma signRsaPss_outcome (hkernel : kernel.Reads stream position) (params : SignParams)
    {privateKey : PrivateKey} {key : RsaPrivateKeyMaterial}
    (hrng : rng.DrawsFrom kernel start
      (pssRequests (rsaPssParams params.algorithm params.rsaPss) key.modulus)
      (firstFactor (rsaPssParams params.algorithm params.rsaPss) + 8))
    (hprivate : params.privateKey = some privateKey) (halgorithm : privateKey.algorithm = .rsa)
    (husage : privateKey.allows .sign = true)
    (hparse : parseRsaPrivateKeyDer privateKey.material = .ok key) (hkey : Rsa.PrimeKey key)
    (message : List UInt8) :
    let pss := rsaPssParams params.algorithm params.rsaPss
    let salt := streamSlice stream (position start) pss.saltLength.toNat
    let factors := factorSlice stream (position start + pss.saltLength.toNat) key
    (∃ k < 8, (∀ i < k, ¬ UsableFactor key (factors i)) ∧ UsableFactor key (factors k) ∧
      SaltFits pss key.modulus salt ∧
      signRsaPss rng params message = .ok (pssSignature pss key message salt)) ∨
    ∃ e, signRsaPss rng params message = .error e ∧
      ((∃ i < firstFactor pss + 8,
        rng.RefusedAt kernel position start (pssRequests pss key.modulus) i e ∧
          ∀ j, firstFactor pss + j < i → ¬ UsableFactor key (factors j)) ∨
      (e = roomError ∧ ¬ SaltFits pss key.modulus salt) ∨
      e = unusableError (factors 7) ∧ SaltFits pss key.modulus salt ∧
        ∀ i < 8, ¬ UsableFactor key (factors i)) := by
  intro pss salt factors
  rw [signRsaPss_stages hprivate halgorithm husage hparse hkey]
  obtain ⟨hanswer, hrefused⟩ := drawSalt_outcome hkernel hrng
  cases hdraw : drawSalt rng pss.saltLength.toNat with
  | error e =>
      obtain ⟨hfirst, hrefusedAt⟩ := hrefused e hdraw
      exact .inr ⟨e, rfl, .inl ⟨0, Nat.add_pos_left hfirst 8, hrefusedAt,
        fun j hj => absurd hj (Nat.not_lt_zero _)⟩⟩
  | ok drawn =>
      obtain ⟨hsalt, hfirst⟩ := hanswer drawn hdraw
      rw [ok_bind, hsalt]
      -- The salt is in hand: the encoding either has room for it, or fails before a factor is
      -- drawn.
      have hlength : salt.length = pss.saltLength.toNat := length_streamSlice _ _ _
      by_cases hroom : digestSize pss.messageHash + salt.length + 2 ≤
          encodedSize (encodedBits key.modulus)
      · have hfits : SaltFits pss key.modulus salt := ⟨hlength, hroom⟩
        have hlt := beValue_encodeWith_lt hkey.toValidPrivateKey message hroom
        have hsizes : ∀ k < 8, pssRequests pss key.modulus (firstFactor pss + k) =
            key.modulus.length := fun k _ => if_neg (Nat.not_lt.mpr (Nat.le_add_right _ _))
        have houtcome := blindedOutcome hkernel hrng hfirst hsizes hkey hlt
        rw [requestOffset_firstFactor] at houtcome
        rw [if_pos hroom]
        generalize rsaPrivateCrtBlindedWithRng _ _ _ _ = result at houtcome
        cases houtcome with
        | usable hk hunusable husable => exact .inl ⟨_, hk, hunusable, husable, hfits, rfl⟩
        | refused hk hunusable h =>
            exact .inr ⟨_, rfl, .inl ⟨_, Nat.add_lt_add_left hk _, h,
              fun j hj => hunusable j (Nat.lt_of_add_lt_add_left hj)⟩⟩
        | unusable h => exact .inr ⟨_, rfl, .inr (.inr ⟨rfl, hfits, h⟩)⟩
      · rw [if_neg hroom]
        exact .inr ⟨_, rfl, .inr (.inl ⟨rfl, fun hfits => hroom hfits.room⟩)⟩

end Signing

end NativeProvider

/-- RSA-PSS over a kernel that gives out a stream, with a key of prime factors of at most 256 bytes.
A signature is the one of the salt that comes next in the stream, whatever comes behind it. There is
one as soon as there is room for the salt, one of the eight slices behind it is a usable factor and
the kernel answers up to there. Otherwise the kernel refused a request of this run behind slices
that are no good, or there is no room for the salt, or all eight are no good, and the error says
which. -/
theorem rsaPss_signs_from_stream (kernel : Kernel σ) (stream : ℕ → UInt8) (position : σ → ℕ)
    (hkernel : kernel.Reads stream position) (start : σ) (algorithm : SignatureAlgorithm)
    (hpss : isRsaPssAlgorithm algorithm = true) (pss : RsaPssParams)
    (_hsalt : SaltAllocates (rsaPssParams algorithm pss)) (privateKey : PrivateKey)
    (hprivate : privateKey.algorithm = .rsa) (hsigns : privateKey.allows .sign = true)
    (key : RsaPrivateKeyMaterial)
    (hparse : parseRsaPrivateKeyDer privateKey.material = .ok key)
    (hprime1 : (beValue key.prime1).Prime) (hprime2 : (beValue key.prime2).Prime)
    (hlength1 : key.prime1.length ≤ 256) (hlength2 : key.prime2.length ≤ 256) (rng : Rng)
    (hrng : rng.DrawsFrom kernel start (pssRequests (rsaPssParams algorithm pss) key.modulus)
      (firstFactor (rsaPssParams algorithm pss) + 8)) (message : List UInt8) :
    let params := rsaPssParams algorithm pss
    let salt := streamSlice stream (position start) params.saltLength.toNat
    let factors := factorSlice stream (position start + params.saltLength.toNat) key
    let refusedAt := rng.RefusedAt kernel position start (pssRequests params key.modulus)
    (∀ signature, sign rng ⟨algorithm, some privateKey, pss⟩ message = .ok signature →
      signature = pssSignature params key message salt ∧ SaltFits params key.modulus salt ∧
        ∃ k < 8, (∀ i < k, ¬ UsableFactor key (factors i)) ∧ UsableFactor key (factors k)) ∧
    (SaltFits params key.modulus salt → ∀ k < 8, UsableFactor key (factors k) →
      (∀ i ≤ firstFactor params + k, ∀ e, ¬ refusedAt i e) →
        ∃ signature, sign rng ⟨algorithm, some privateKey, pss⟩ message = .ok signature) ∧
    ∀ e, sign rng ⟨algorithm, some privateKey, pss⟩ message = .error e →
      (∃ i < firstFactor params + 8, refusedAt i e ∧
        ∀ j, firstFactor params + j < i → ¬ UsableFactor key (factors j)) ∨
      (e = roomError ∧ ¬ SaltFits params key.modulus salt) ∨
      e = unusableError (factors 7) ∧ SaltFits params key.modulus salt ∧
        ∀ i < 8, ¬ UsableFactor key (factors i) := by
  intro params salt factors refusedAt
  have hkey := Rsa.PrimeKey.of_parse hparse hprime1 hprime2 hlength1 hlength2
  have hsign : sign rng ⟨algorithm, some privateKey, pss⟩ message =
      signRsaPss rng ⟨algorithm, some privateKey, pss⟩ message := by
    rw [sign_eq]
    cases algorithm <;> first | rfl | cases hpss
  have houtcome := signRsaPss_outcome hkernel ⟨algorithm, some privateKey, pss⟩ hrng rfl hprivate
    hsigns hparse hkey message
  rw [hsign]
  obtain ⟨k, hk, hunusable, husable, hfits, hsigned⟩ | ⟨e, hfailed, hreason⟩ := houtcome
  · rw [hsigned]
    refine ⟨?_, fun _ _ _ _ _ => ⟨_, rfl⟩, nofun⟩
    rintro _ ⟨⟩
    exact ⟨rfl, hfits, k, hk, hunusable, husable⟩
  · rw [hfailed]
    refine ⟨nofun, ?_, ?_⟩
    · intro hfits k hk husable hanswers
      obtain ⟨i, -, hrefused, hbefore⟩ | ⟨-, hroom⟩ | ⟨-, -, hunusable⟩ := hreason
      · -- a refusal behind the usable slice would come after a slice that is good
        have hi : i ≤ firstFactor params + k := by
          by_contra hlt
          exact hbefore k (Nat.lt_of_not_le hlt) husable
        exact absurd hrefused (hanswers i hi e)
      · exact absurd hfits hroom
      · exact absurd husable (hunusable k hk)
    · rintro _ ⟨⟩
      exact hreason

lemma countingKernel_not_refuses {s s' : ℕ × Bool} {e : Error} :
    ¬ Refuses countingKernel s e s' := by
  rintro ⟨requested, hpos, -, ⟨hreply, -⟩ | ⟨⟨h, hreply⟩, -⟩⟩ <;>
    obtain ⟨position, _ | _⟩ := s <;> obtain _ | size := requested <;> cases hreply
  exact absurd hpos (Nat.lt_irrefl 0)

/-- The kernel that counts refuses no request. -/
lemma not_refusedAt_countingKernel {rng : Rng} {position : ℕ × Bool → ℕ} {start : ℕ × Bool}
    {sizes : ℕ → ℕ} {i : ℕ} {e : Error} :
    ¬ rng.RefusedAt countingKernel position start sizes i e := by
  intro hrefused
  obtain ⟨s, s', -, -, hrefuses⟩ := hrefused.refuses
  exact countingKernel_not_refuses hrefuses

lemma exists_drawsFrom_countingKernel (start : ℕ × Bool) (sizes : ℕ → ℕ) (count : ℕ) :
    ∃ rng : Rng, rng.DrawsFrom countingKernel start sizes count := by
  have hbound : ∀ s : ℕ × Bool, (bif s.2 then 1 else 0) ≤ 1 := by
    rintro ⟨position, _ | _⟩
    exacts [Nat.zero_le 1, Nat.le_refl 1]
  refine exists_drawsFrom countingKernel_reads hbound ?_ start sizes count
  rintro ⟨position, _ | _⟩ s' (_ | size) hreply <;> cases hreply <;> exact Nat.zero_lt_one

/-- The key of 266 bits signs with the factor of the bytes from one on. -/
theorem rsaPss_signs_from_stream_countingKernel : ∃ rng signature,
    sign rng ⟨.rsaPss, some signingPrivateKey, unsaltedParams⟩ [] = .ok signature ∧
      signature = pssSignature (rsaPssParams .rsaPss unsaltedParams) signingKey [] [] := by
  obtain ⟨rng, hrng⟩ := exists_drawsFrom_countingKernel (1, true)
    (pssRequests (rsaPssParams .rsaPss unsaltedParams) signingKey.modulus)
    (firstFactor (rsaPssParams .rsaPss unsaltedParams) + 8)
  have hallocates : SaltAllocates (rsaPssParams .rsaPss unsaltedParams) := by decide
  obtain ⟨hsigned, hreturned, -⟩ := rsaPss_signs_from_stream countingKernel UInt8.ofNat Prod.fst
    countingKernel_reads (1, true) .rsaPss rfl unsaltedParams hallocates signingPrivateKey rfl rfl
    signingKey signingKeyDer_parse signingKey_prime1 signingKey_prime2 (by decide) (by decide) rng
    hrng []
  obtain ⟨signature, hsignature⟩ := hreturned ⟨rfl, by decide +kernel⟩ 0 (by decide)
    ⟨by decide +kernel, by decide +kernel⟩ fun _ _ _ => not_refusedAt_countingKernel
  exact ⟨rng, signature, hsignature, (hsigned signature hsignature).1⟩

/-- RSA-OAEP over a kernel that gives out a stream, with a key pair of prime factors of at most 256
bytes. A ciphertext is the one of the seed that comes next in the stream. From any later state of
the kernel it is decrypted, as soon as one of the next eight slices of the stream is a usable factor
and the kernel answers up to there. Otherwise the kernel refused a request of that run behind slices
that are no good, or all eight are no good and the ciphertext is called invalid. -/
theorem rsaOaep_decrypts_from_stream (kernel : Kernel σ) (stream : ℕ → UInt8) (position : σ → ℕ)
    (hkernel : kernel.Reads stream position) (start : σ)
    (algorithm : AsymmetricEncryptionAlgorithm) (oaep : RsaOaepParams) (privateKey : PrivateKey)
    (key : RsaPrivateKeyMaterial)
    (hparse : parseRsaPrivateKeyDer privateKey.material = .ok key)
    (hprime1 : (beValue key.prime1).Prime) (hprime2 : (beValue key.prime2).Prime)
    (hlength1 : key.prime1.length ≤ 256) (hlength2 : key.prime2.length ≤ 256)
    (hprivate : privateKey.algorithm = .rsa) (hdecrypt : privateKey.allows .decrypt = true)
    (publicKey : PublicKey) (hpublic : publicKey.algorithm = .rsa)
    (hencrypt : publicKey.allows .encrypt = true)
    (hparsePublic : parseRsaPublicKeyDer publicKey.material =
      .ok ⟨key.modulus, key.publicExponent⟩)
    (seedRng : Rng) (hseedRng : seedRng.DrawsFrom kernel start
      (fun _ => digestSize (rsaOaepParams algorithm oaep).messageHash) 1)
    (plaintext ciphertext : List UInt8)
    (hciphertext : asymmetricEncrypt seedRng ⟨algorithm, some publicKey, oaep⟩ plaintext =
      .ok ciphertext) :
    ciphertext = oaepCiphertext (rsaOaepParams algorithm oaep) ⟨key.modulus, key.publicExponent⟩
      plaintext (streamSlice stream (position start)
        (digestSize (rsaOaepParams algorithm oaep).messageHash)) ∧
    ∀ (later : σ) (rng : Rng), rng.DrawsFrom kernel later (fun _ => key.modulus.length) 8 →
      let factors := factorSlice stream (position later) key
      let refusedAt := rng.RefusedAt kernel position later (fun _ => key.modulus.length)
      (∀ found, asymmetricDecrypt rng ⟨algorithm, some privateKey, oaep⟩ ciphertext = .ok found →
        found = plaintext ∧
          ∃ k < 8, (∀ i < k, ¬ UsableFactor key (factors i)) ∧ UsableFactor key (factors k)) ∧
      (∀ k < 8, UsableFactor key (factors k) → (∀ i ≤ k, ∀ e, ¬ refusedAt i e) →
        asymmetricDecrypt rng ⟨algorithm, some privateKey, oaep⟩ ciphertext = .ok plaintext) ∧
      ∀ e, asymmetricDecrypt rng ⟨algorithm, some privateKey, oaep⟩ ciphertext = .error e →
        (∃ i < 8, refusedAt i e ∧ ∀ j < i, ¬ UsableFactor key (factors j)) ∨
        e = ciphertextError ∧ ∀ i < 8, ¬ UsableFactor key (factors i) := by
  have hkey := Rsa.PrimeKey.of_parse hparse hprime1 hprime2 hlength1 hlength2
  obtain ⟨seed, hseed, hfits, rfl⟩ :=
    (asymmetricEncrypt_eq_ok_iff hpublic hencrypt hparsePublic).mp hciphertext
  have hslice := (hseedRng.request hkernel Nat.zero_lt_one rfl nofun).1 seed hseed
  refine ⟨congrArg _ hslice, ?_⟩
  intro later rng hrng factors refusedAt
  obtain ⟨hlength, hlt, hdecode⟩ := emeOaepDecode_oaepCiphertext hkey Vector.length_toList hfits
  rw [asymmetricDecrypt_eq hprivate hdecrypt hparse, if_pos hlength]
  have houtcome := @blindedOutcome _ rng kernel stream position later
    (fun _ => key.modulus.length) key 0 hkernel hrng nofun (fun _ _ => rfl) hkey _ hlt
  generalize rsaPrivateCrtBlindedWithRng _ _ _ _ = result at houtcome
  cases houtcome with
  | usable hk hunusable husable =>
      dsimp only
      rw [hdecode]
      refine ⟨?_, fun _ _ _ _ => rfl, nofun⟩
      rintro _ ⟨⟩
      exact ⟨rfl, _, hk, hunusable, husable⟩
  | @refused k hk hunusable e h =>
      rw [Nat.zero_add] at h
      have hcode : e.code = .providerError := by
        obtain ⟨s, s', -, -, -, -, -, ⟨-, rfl⟩ | ⟨-, rfl⟩⟩ := h.refuses <;> rfl
      dsimp only
      rw [hcode, if_neg nofun]
      refine ⟨nofun, ?_, ?_⟩
      · intro k' _ husable hanswers
        -- a refusal behind the usable slice would come after a slice that is good
        have hle : k ≤ k' := by
          by_contra hlt
          exact hunusable k' (Nat.lt_of_not_le hlt) husable
        exact absurd h (hanswers k hle e)
      · rintro _ ⟨⟩
        exact .inl ⟨k, hk, h, hunusable⟩
  | unusable h =>
      dsimp only
      rw [code_unusableError, if_pos rfl]
      refine ⟨nofun, fun k hk husable _ => absurd husable (h k hk), ?_⟩
      rintro _ ⟨⟩
      exact .inr ⟨rfl, h⟩

/-- The empty plaintext, with a seed and a factor of consecutive bytes. -/
theorem rsaOaep_decrypts_from_stream_countingKernel : ∃ seedRng rng ciphertext,
    asymmetricEncrypt seedRng ⟨.rsaOaepSha256, some encryptionPublicKey, {}⟩ [] =
        .ok ciphertext ∧
      asymmetricDecrypt rng ⟨.rsaOaepSha256, some decryptionKey, {}⟩ ciphertext = .ok [] := by
  obtain ⟨seedRng, hseedRng⟩ := exists_drawsFrom_countingKernel (1, true)
    (fun _ => digestSize (rsaOaepParams .rsaOaepSha256 {}).messageHash) 1
  obtain ⟨rng, hrng⟩ := exists_drawsFrom_countingKernel (33, true)
    (fun _ => encryptionKey.modulus.length) 8
  obtain ⟨ciphertext, hencrypt⟩ : ∃ ciphertext, asymmetricEncrypt seedRng
      ⟨.rsaOaepSha256, some encryptionPublicKey, {}⟩ [] = .ok ciphertext := by
    have hrefused := (hseedRng.request countingKernel_reads Nat.zero_lt_one rfl nofun).2
    cases hseed : seedRng.generate 0 (digestSize (rsaOaepParams .rsaOaepSha256 {}).messageHash) with
    | error e => exact absurd (hrefused e hseed) not_refusedAt_countingKernel
    | ok seed =>
        have halgorithm : encryptionPublicKey.algorithm = .rsa := rfl
        have husage : encryptionPublicKey.allows .encrypt = true := rfl
        exact ⟨_, (asymmetricEncrypt_eq_ok_iff halgorithm husage
          encryptionPublicKeyDer_parse).mpr ⟨seed, hseed, by decide, rfl⟩⟩
  obtain ⟨-, hdecrypted, -⟩ := (rsaOaep_decrypts_from_stream countingKernel UInt8.ofNat Prod.fst
    countingKernel_reads (1, true) .rsaOaepSha256 {} decryptionKey encryptionKey
    encryptionKeyDer_parse encryptionKey_prime1 encryptionKey_prime2 (by decide) (by decide) rfl
    rfl encryptionPublicKey rfl rfl encryptionPublicKeyDer_parse seedRng hseedRng [] ciphertext
    hencrypt).2 (33, true) rng hrng
  exact ⟨seedRng, rng, ciphertext, hencrypt, hdecrypted 0 (by decide)
    ⟨by decide +kernel, by decide +kernel⟩ fun _ _ _ => not_refusedAt_countingKernel⟩

end CryptoCore
