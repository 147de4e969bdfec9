import CryptoCore.Framework.ByteStrings

/-!
# Keyed hashing and key derivation

HMAC over a hash with blocks of a fixed size, and the two constructions that derive keys with a
keyed hash: PBKDF2, which adds up iterated values of it, and HKDF, which feeds each block of the
output into the next.

Both produce a stream of numbered blocks and take its front. `firstBlocks` and `firstElements` are
this part on its own: the blocks are any function of their number, and as many of them are computed
as the size needs. `firstElements_eq` says that computing more blocks changes nothing,
`take_firstBlocks_succ` is the step of a program that appends a block and cuts the last one off, and
`firstElements_prefix` that a shorter output is a prefix of a longer one, whatever the blocks are.

The constructions take the keyed hash as a parameter, of which only the length of its values is
assumed. Block numbers are natural numbers here, written in four bytes by PBKDF2 and in one by HKDF;
where a size needs more blocks than such a number can count, the definition goes on with the low
bits, and a program has to refuse.
-/

namespace KeyDerivation

open ByteStrings

/-- Bytewise exclusive or. The result is as long as the shorter of the two. -/
def xorBytes (lhs rhs : List UInt8) : List UInt8 :=
  List.zipWith (· ^^^ ·) lhs rhs

@[simp] lemma length_xorBytes (lhs rhs : List UInt8) :
    (xorBytes lhs rhs).length = min lhs.length rhs.length :=
  List.length_zipWith

/-! ## HMAC -/

section Hmac

variable (hash : List UInt8 → List UInt8) (blockSize : ℕ)

/-- The key of a whole block: hashed first when it is longer than one, then padded with zeros. A key
of exactly one block is taken as it is. -/
def blockKey (key : List UInt8) : List UInt8 :=
  let short := if blockSize < key.length then hash key else key
  short ++ List.replicate (blockSize - short.length) 0

/-- The hash of the outer pad and of the hash of the inner pad and the message. -/
def hmac (key message : List UInt8) : List UInt8 :=
  hash ((blockKey hash blockSize key).map (· ^^^ 0x5c) ++
    hash ((blockKey hash blockSize key).map (· ^^^ 0x36) ++ message))

variable {hash blockSize}

end Hmac

/-! ## The front of a stream of blocks -/

section Stream

variable {α : Type*} (block : ℕ → List α)

/-- The blocks 1 to `l`, one after the other. Block numbers start at one, as they do in both
constructions. -/
def firstBlocks (l : ℕ) : List α :=
  (List.range l).flatMap fun i => block (i + 1)

/-- The first `n` elements of the blocks, when the blocks have size `h`: the number of blocks is the
size divided by `h`, rounded up. -/
def firstElements (h n : ℕ) : List α :=
  (firstBlocks block ((n + h - 1) / h)).take n

variable {block} {h : ℕ}

@[simp] lemma firstBlocks_zero : firstBlocks block 0 = [] := rfl

lemma firstBlocks_succ (l : ℕ) :
    firstBlocks block (l + 1) = firstBlocks block l ++ block (l + 1) := by
  simp [firstBlocks, List.range_succ]

lemma length_firstBlocks (hblock : ∀ i, (block (i + 1)).length = h) (l : ℕ) :
    (firstBlocks block l).length = l * h := by
  simp [firstBlocks, List.length_flatMap, hblock]

/-- One more block, as far as there is room for it. This is a round of a program that appends blocks
to an output of bounded size. -/
lemma take_firstBlocks_succ (l n : ℕ) :
    (firstBlocks block l).take n ++
        (block (l + 1)).take (n - ((firstBlocks block l).take n).length) =
      (firstBlocks block (l + 1)).take n := by
  rw [firstBlocks_succ, List.take_append, List.length_take]
  congr 2
  omega

/-- Blocks behind the element `n` do not matter. -/
lemma take_firstBlocks_of_le (hblock : ∀ i, (block (i + 1)).length = h) {l m n : ℕ} (hlm : l ≤ m)
    (hn : n ≤ l * h) : (firstBlocks block m).take n = (firstBlocks block l).take n := by
  induction m, hlm using Nat.le_induction with
  | base => rfl
  | succ m hlm ih =>
      have hlength : n ≤ (firstBlocks block m).length := by
        rw [length_firstBlocks hblock]
        exact hn.trans (Nat.mul_le_mul_right h hlm)
      rw [firstBlocks_succ, List.take_append_of_le_length hlength, ih]

lemma le_ceilDiv_mul (hpos : 0 < h) (n : ℕ) : n ≤ (n + h - 1) / h * h := by
  have hdiv := Nat.div_add_mod (n + h - 1) h
  have hmod := Nat.mod_lt (n + h - 1) hpos
  rw [mul_comm]
  omega

/-- The blocks that are needed are those in front of the size: a block is computed as long as the
ones before it are too short. -/
lemma lt_ceilDiv_iff {n : ℕ} (hpos : 0 < h) (i : ℕ) : i < (n + h - 1) / h ↔ i * h < n := by
  rw [Nat.lt_iff_add_one_le, Nat.le_div_iff_mul_le hpos, Nat.add_mul]
  omega

lemma firstElements_eq (hpos : 0 < h) (hblock : ∀ i, (block (i + 1)).length = h) {l n : ℕ}
    (hl : (n + h - 1) / h ≤ l) : firstElements block h n = (firstBlocks block l).take n :=
  (take_firstBlocks_of_le hblock hl (le_ceilDiv_mul hpos n)).symm

lemma length_firstElements (hpos : 0 < h) (hblock : ∀ i, (block (i + 1)).length = h) (n : ℕ) :
    (firstElements block h n).length = n := by
  rw [firstElements, List.length_take, length_firstBlocks hblock]
  exact min_eq_left (le_ceilDiv_mul hpos n)

/-- Fewer elements are a prefix of more. -/
theorem firstElements_prefix (hpos : 0 < h) (hblock : ∀ i, (block (i + 1)).length = h) {m n : ℕ}
    (hmn : m ≤ n) : firstElements block h m <+: firstElements block h n := by
  have hle : (m + h - 1) / h ≤ (n + h - 1) / h := Nat.div_le_div_right (by omega)
  rw [firstElements_eq hpos hblock hle, firstElements, ← min_eq_left hmn, ← List.take_take]
  exact List.take_prefix _ _

end Stream

/-! ## PBKDF2 -/

section Pbkdf2

variable (prf : List UInt8 → List UInt8 → List UInt8) (password salt : List UInt8)

/-- The value of the keyed hash for block `i`, and its iterates. The first one is taken of the salt
and the number of the block, each later one of the value before it. -/
def iteratedPrf (i : ℕ) : ℕ → List UInt8
  | 0 => prf password (salt ++ beBytes 4 i)
  | j + 1 => prf password (iteratedPrf i j)

/-- The exclusive or of the first `c + 1` iterates, so that a block with `c` iterations is the one
with index `c - 1`. -/
def pbkdf2Block (i : ℕ) : ℕ → List UInt8
  | 0 => iteratedPrf prf password salt i 0
  | c + 1 => xorBytes (pbkdf2Block i c) (iteratedPrf prf password salt i (c + 1))

variable {prf} {h : ℕ}

lemma length_iteratedPrf (hprf : ∀ key message, (prf key message).length = h) (i j : ℕ) :
    (iteratedPrf prf password salt i j).length = h := by
  cases j <;> exact hprf _ _

lemma length_pbkdf2Block (hprf : ∀ key message, (prf key message).length = h) (i c : ℕ) :
    (pbkdf2Block prf password salt i c).length = h := by
  induction c with
  | zero => exact hprf _ _
  | succ c ih => simp [pbkdf2Block, ih, length_iteratedPrf password salt hprf]

end Pbkdf2

/-- `size` bytes of output with `c` iterations, over a keyed hash with values of `h` bytes. -/
def pbkdf2 (prf : List UInt8 → List UInt8 → List UInt8) (h : ℕ) (password salt : List UInt8)
    (c size : ℕ) : List UInt8 :=
  firstElements (fun i => pbkdf2Block prf password salt i (c - 1)) h size

/-! ## HKDF -/

section Hkdf

variable (prf : List UInt8 → List UInt8 → List UInt8)

/-- Each block is the keyed hash of the one before it, the info and its number. There is no block in
front of the first one. -/
def hkdfBlock (prk info : List UInt8) : ℕ → List UInt8
  | 0 => []
  | i + 1 => prf prk (hkdfBlock prk info i ++ info ++ [UInt8.ofNat (i + 1)])

/-- Extraction: a keyed hash of the key material under the salt. No salt is a salt of `h` zero
bytes. -/
def hkdfExtract (h : ℕ) (salt keyMaterial : List UInt8) : List UInt8 :=
  prf (if salt = [] then List.replicate h 0 else salt) keyMaterial

variable {prf} {h : ℕ}

lemma length_hkdfBlock (hprf : ∀ key message, (prf key message).length = h)
    (prk info : List UInt8) (i : ℕ) : (hkdfBlock prf prk info (i + 1)).length = h :=
  hprf _ _

end Hkdf

/-- `size` bytes of output, over a keyed hash with values of `h` bytes. -/
def hkdf (prf : List UInt8 → List UInt8 → List UInt8) (h : ℕ)
    (keyMaterial salt info : List UInt8) (size : ℕ) : List UInt8 :=
  firstElements (fun i => hkdfBlock prf (hkdfExtract prf h salt keyMaterial) info i) h size

end KeyDerivation
