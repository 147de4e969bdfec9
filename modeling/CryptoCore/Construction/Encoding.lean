import CryptoCore.Construction.Result
import CryptoCore.Framework.Base64
import CryptoCore.Framework.Blocks

/-!
# Base64, base64url and PEM

A text is the list of its bytes. One encoder and one decoder serve both alphabets; they take the
alphabet and say how they treat the padding. PEM armor is a base64 text in lines of 64 characters
between two boundary lines.

The arithmetic of groups, three bytes as four digits and back, is `Framework/Base64.lean`, where a
text is a list of digits and nothing else. Here the characters are added. `IsAlphabet` collects what
is needed of an alphabet (64 different characters, none of them special to the decoder), and for any
such alphabet `encodeBase64_eq` says that the encoder writes the digits of its input, and
`decodeBase64_padded_iff` and `decodeBase64_unpadded_iff` which texts the two modes of the decoder
accept. The second mode adds padding to what the caller wrote, so that digits followed by a part of
their padding are accepted as well.

The PEM functions are translated line by line: the loop over the body collects the lines up to the
first end boundary, the loop over the trailer accepts empty lines only. `pemDecode_armor` is the
round trip, for both kinds of line ends and any empty lines behind the armor. The theorems about all
texts are in `Properties/Encoding.lean` and `Properties/Pem.lean`.
-/

namespace CryptoCore

open Loops Blocks

/-- The bytes of a string of ASCII characters, as the string literals of the source. -/
def text (s : String) : List UInt8 :=
  s.toList.map fun c => c.toNat.toUInt8

namespace Encoding

/-- The two alphabets, which differ in their last two characters. -/
def standardAlphabet : List UInt8 :=
  text "ABCDEFGHIJKLMNOPQRSTUVWXYZabcdefghijklmnopqrstuvwxyz0123456789+/"

def urlAlphabet : List UInt8 :=
  text "ABCDEFGHIJKLMNOPQRSTUVWXYZabcdefghijklmnopqrstuvwxyz0123456789-_"

/-- Every refusal of this module is an invalid argument, with a text of its own. -/
def encodingError (message : String) : Error :=
  makeError .invalidArgument "encoding" message

/-- `'='` -/
def padChar : UInt8 := 0x3d

/-- `'\n'` -/
def lineFeed : UInt8 := 0x0a

/-- `'\r'` -/
def carriageReturn : UInt8 := 0x0d

/-- `' '` -/
def space : UInt8 := 0x20

/-- `'-'` -/
def hyphen : UInt8 := 0x2d

/-- The characters that end a line, of which a text may have either or both. -/
def isLineBreak (c : UInt8) : Bool :=
  c == lineFeed || c == carriageReturn

/-- The labels that may stand in a boundary line: not empty, no space at either end, and printable
characters other than the hyphen. -/
def isValidPemLabel (label : List UInt8) : Bool :=
  if label.isEmpty || label.head? == some space || label.getLast? == some space then false
  else label.all fun c => !(decide (c < 0x20) || decide (c > 0x7e) || c == hyphen)

/-! ## Base64 -/

/-- The position of every character in the alphabet, and `-1` for the characters outside it. -/
def makeDecodeTable (alphabet : List UInt8) : Vector ℤ 256 :=
  loopUp (fun i table => table.setIfInBounds (alphabet.getD i 0).toNat (i : ℤ)) alphabet.length
    (Vector.replicate 256 (-1))

/-- The entry of a character in the table, which has one for every byte. -/
def tableAt (table : Vector ℤ 256) (c : UInt8) : ℤ :=
  have := c.toNat_lt
  table[c.toNat]

/-- The character of the six bits of a chunk at a position. -/
def alphabetAt (alphabet : List UInt8) (chunk shift : UInt32) : UInt8 :=
  alphabet.getD ((chunk >>> shift) &&& 0x3f).toNat 0

/-- The encoder, three bytes at a time, with the padding that the mode asks for. -/
def encodeBase64 (alphabet : List UInt8) (padding : Bool) : List UInt8 → List UInt8
  | a :: b :: c :: rest =>
      let chunk := (a.toUInt32 <<< 16) ||| (b.toUInt32 <<< 8) ||| c.toUInt32
      alphabetAt alphabet chunk 18 :: alphabetAt alphabet chunk 12 :: alphabetAt alphabet chunk 6 ::
        alphabetAt alphabet chunk 0 :: encodeBase64 alphabet padding rest
  | [a, b] =>
      let chunk := (a.toUInt32 <<< 16) ||| (b.toUInt32 <<< 8)
      [alphabetAt alphabet chunk 18, alphabetAt alphabet chunk 12, alphabetAt alphabet chunk 6] ++
        if padding then [padChar] else []
  | [a] =>
      let chunk := a.toUInt32 <<< 16
      [alphabetAt alphabet chunk 18, alphabetAt alphabet chunk 12] ++
        if padding then [padChar, padChar] else []
  | [] => []

/-- The loop over the groups of four characters. Padding may stand at the end of the last group
only, and the bits that it leaves unused are dropped without a check. -/
def decodeGroups (table : Vector ℤ 256) : List UInt8 → Result ByteBuffer
  | p0 :: p1 :: p2 :: p3 :: rest => do
      let pad2 := p2 == padChar
      let pad3 := p3 == padChar
      require (!(p0 == padChar || p1 == padChar || (pad2 && !pad3)))
        (encodingError "base64 input has invalid padding")
      -- Padding ends the text: nothing may follow the group that has it.
      require (!((pad2 || pad3) && !rest.isEmpty))
        (encodingError "base64 padding appears before end")
      let a := tableAt table p0
      let b := tableAt table p1
      -- A padding character stands for the digit zero, and its byte is dropped below.
      let c := if pad2 then 0 else tableAt table p2
      let d := if pad3 then 0 else tableAt table p3
      require (!(decide (a < 0) || decide (b < 0) || decide (c < 0) || decide (d < 0)))
        (encodingError "base64 input contains invalid character")
      let chunk := (UInt32.ofNat a.toNat <<< 18) ||| (UInt32.ofNat b.toNat <<< 12) |||
        (UInt32.ofNat c.toNat <<< 6) ||| UInt32.ofNat d.toNat
      let output ← decodeGroups table rest
      return ((chunk >>> 16) &&& 0xff).toUInt8 ::
        ((if pad2 then [] else [((chunk >>> 8) &&& 0xff).toUInt8]) ++
          (if pad3 then [] else [(chunk &&& 0xff).toUInt8]) ++ output)
  | _ => .ok []

/-- The decoder: no white space, a length that the mode allows, and then the groups. -/
def decodeBase64 (input alphabet : List UInt8) (allowUnpadded : Bool) : Result ByteBuffer :=
  if input.isEmpty then .ok []
  else do
    require (!input.any fun c => isLineBreak c || c == space || c == 0x09)
      (encodingError "base64 input contains whitespace")
    let remainder := input.length % 4
    require (if allowUnpadded then remainder != 1 else remainder == 0)
      (encodingError "base64 input has invalid length")
    let padded :=
      if allowUnpadded && remainder != 0 then input ++ List.replicate (4 - remainder) padChar
      else input
    decodeGroups (makeDecodeTable alphabet) padded

end Encoding

open Encoding

/-- Standard base64, always padded to whole groups of four characters. -/
def base64Encode (input : List UInt8) : List UInt8 :=
  encodeBase64 standardAlphabet true input

/-- Standard base64, padding required: the text has whole groups of four characters. -/
def base64Decode (input : List UInt8) : Result ByteBuffer :=
  decodeBase64 input standardAlphabet false

/-- The url alphabet, never padded, so that the text can stand in a url. -/
def base64urlEncode (input : List UInt8) : List UInt8 :=
  encodeBase64 urlAlphabet false input

/-- The url alphabet, where padding may be left out and is then added before the groups are read. -/
def base64urlDecode (input : List UInt8) : Result ByteBuffer :=
  decodeBase64 input urlAlphabet true

/-! ## PEM -/

/-- What armor holds: its label and its payload, the decoded bytes. -/
structure PemBlock where
  label : List UInt8
  payload : ByteBuffer
  deriving DecidableEq

namespace Encoding

/-- The label of a boundary line between its two fixed parts. -/
def pemBoundary (line start finish : List UInt8) : Result (List UInt8) := do
  require (start.isPrefixOf line && finish.isSuffixOf line)
    (encodingError "PEM boundary is malformed")
  let label := (line.drop start.length).take (line.length - start.length - finish.length)
  require (isValidPemLabel label) (encodingError "PEM label is invalid")
  return label

/-- A line without the carriage return in front of its line feed. -/
def trimTrailingCr (line : List UInt8) : List UInt8 :=
  if line.getLast? = some carriageReturn then line.dropLast else line

/-- The line in front of the first line feed, or the whole text, and what follows it. -/
def nextLine (rest : List UInt8) : List UInt8 × List UInt8 :=
  (rest.takeWhile (· != lineFeed), (rest.dropWhile (· != lineFeed)).drop 1)

/-- The lines up to the end boundary. Every round takes at least one character. -/
def pemBodyLoop : ℕ → List UInt8 → List UInt8 →
    Result (Option (List UInt8 × List UInt8 × List UInt8))
  | 0, _, _ => .ok none
  | rounds + 1, payloadText, rest =>
      if rest.isEmpty then .ok none
      else
        let line := trimTrailingCr (nextLine rest).1
        if (text "-----END ").isPrefixOf line then do
          let endLabel ← pemBoundary line (text "-----END ") (text "-----")
          return some (payloadText, endLabel, (nextLine rest).2)
        else pemBodyLoop rounds (payloadText ++ line) (nextLine rest).2

/-- The lines behind the end boundary. Every round takes at least one character. -/
def pemTrailerLoop : ℕ → List UInt8 → Result Unit
  | 0, _ => .ok ()
  | rounds + 1, rest =>
      if rest.isEmpty then .ok ()
      else do
        require (trimTrailingCr (nextLine rest).1).isEmpty
          (encodingError "PEM has trailing data")
        pemTrailerLoop rounds (nextLine rest).2

end Encoding

/-- The armor of a payload, with line feeds and lines of at most 64 characters between the
boundaries. -/
def pemEncode (label payload : List UInt8) : Result (List UInt8) := do
  require (isValidPemLabel label) (encodingError "PEM label is invalid")
  let encodedPayload := base64Encode payload
  return text "-----BEGIN " ++ label ++ text "-----\n" ++
    ((blocks 64 encodedPayload).flatMap (· ++ [lineFeed])) ++
    text "-----END " ++ label ++ text "-----\n"

/-- The payload of an armor. The labels of both boundaries must agree, and behind the end there may
be empty lines only. -/
def pemDecode (input : List UInt8) : Result PemBlock := do
  require (input.contains lineFeed) (encodingError "PEM begin boundary is missing")
  let (firstLine, rest) := nextLine input
  let beginLabel ← pemBoundary (trimTrailingCr firstLine) (text "-----BEGIN ") (text "-----")
  let body ← pemBodyLoop rest.length [] rest
  match body with
  | none => .error (encodingError "PEM end boundary is missing")
  | some (payloadText, endLabel, rest) =>
      require (beginLabel == endLabel) (encodingError "PEM labels do not match")
      pemTrailerLoop rest.length rest
      let payload ← base64Decode payloadText
      return ⟨beginLabel, payload⟩

namespace Encoding

/-! ## The alphabets -/

/-- The character of a digit, at its place in the alphabet. -/
def charOf (alphabet : List UInt8) (digit : Fin 64) : UInt8 :=
  alphabet.getD digit.val 0

/-- Different characters, and none of those that a decoder treats in a way of their own. -/
structure IsAlphabet (alphabet : List UInt8) : Prop where
  length : alphabet.length = 64
  nodup : alphabet.Nodup
  plain : ∀ c ∈ alphabet, c ∉ [padChar, lineFeed, carriageReturn, space, 0x09]

/-- What holds of the two alphabets by evaluation: 64 characters, no two equal, none of them
special. -/
lemma alphabet_values :
    (∀ alphabet ∈ [standardAlphabet, urlAlphabet], alphabet.length = 64 ∧ alphabet.Nodup ∧
      ∀ c ∈ alphabet, c ∉ [padChar, lineFeed, carriageReturn, space, 0x09]) ∧
    hyphen ∉ standardAlphabet := by
  decide +kernel

lemma IsAlphabet.of_mem {alphabet : List UInt8}
    (halphabet : alphabet ∈ [standardAlphabet, urlAlphabet]) : IsAlphabet alphabet := by
  obtain ⟨hlength, hnodup, hplain⟩ := alphabet_values.1 alphabet halphabet
  exact ⟨hlength, hnodup, hplain⟩

lemma isAlphabet_standard : IsAlphabet standardAlphabet :=
  .of_mem List.mem_cons_self

lemma isAlphabet_url : IsAlphabet urlAlphabet :=
  .of_mem (List.mem_cons_of_mem _ List.mem_cons_self)

lemma tableAt_setIfInBounds (table : Vector ℤ 256) (c d : UInt8) (value : ℤ) :
    tableAt (table.setIfInBounds c.toNat value) d = if c = d then value else tableAt table d := by
  simp only [tableAt, Vector.getElem_setIfInBounds, UInt8.toNat_inj]

/-- The table inverts an alphabet of different characters, and marks the others. -/
lemma tableAt_makeDecodeTable {alphabet : List UInt8} (h : alphabet.Nodup) (c : UInt8) :
    tableAt (makeDecodeTable alphabet) c = if c ∈ alphabet then (alphabet.idxOf c : ℤ) else -1 := by
  have hloop : ∀ c, tableAt (makeDecodeTable alphabet) c =
      if c ∈ alphabet.take alphabet.length then (alphabet.idxOf c : ℤ) else -1 := by
    apply loopUp_invariant _ fun i (table : Vector ℤ 256) => ∀ c, tableAt table c =
      if c ∈ alphabet.take i then (alphabet.idxOf c : ℤ) else -1
    · intro c
      simp [tableAt]
    · intro i hi table ih c
      have hchar : alphabet.getD i 0 = alphabet[i] := List.getD_eq_getElem alphabet 0 hi
      rw [tableAt_setIfInBounds, ih, hchar, List.take_add_one, List.getElem?_eq_getElem hi,
        Option.toList_some]
      simp only [List.mem_append, List.mem_singleton]
      by_cases hc : alphabet[i] = c
      · rw [if_pos hc, if_pos (Or.inr hc.symm), ← hc, h.idxOf_getElem]
      · simp only [if_neg hc, Ne.symm hc, or_false]
  have hc := hloop c
  rwa [List.take_length] at hc

namespace IsAlphabet

variable {alphabet : List UInt8} (h : IsAlphabet alphabet)

include h

lemma charOf_mem (digit : Fin 64) : charOf alphabet digit ∈ alphabet := by
  have hlt : digit.val < alphabet.length := digit.isLt.trans_eq h.length.symm
  rw [charOf, List.getD_eq_getElem alphabet 0 hlt]
  exact List.getElem_mem hlt

lemma charOf_ne (digit : Fin 64) {c : UInt8}
    (hc : c ∈ [padChar, lineFeed, carriageReturn, space, 0x09]) : charOf alphabet digit ≠ c :=
  fun heq => h.plain _ (h.charOf_mem digit) (heq ▸ hc)

/-- The table sends the character of a digit back to the digit. -/
lemma tableAt_charOf (digit : Fin 64) :
    tableAt (makeDecodeTable alphabet) (charOf alphabet digit) = digit.val := by
  have hlt : digit.val < alphabet.length := digit.isLt.trans_eq h.length.symm
  rw [tableAt_makeDecodeTable h.nodup, if_pos (h.charOf_mem digit), charOf,
    List.getD_eq_getElem alphabet 0 hlt, h.nodup.idxOf_getElem]

/-- A character that the table knows is the character of a digit. -/
lemma exists_charOf {c : UInt8} (hc : ¬tableAt (makeDecodeTable alphabet) c < 0) :
    ∃ digit, charOf alphabet digit = c := by
  rw [tableAt_makeDecodeTable h.nodup] at hc
  by_cases hmem : c ∈ alphabet
  · have hlt : alphabet.idxOf c < alphabet.length := List.idxOf_lt_length_of_mem hmem
    refine ⟨⟨alphabet.idxOf c, h.length ▸ hlt⟩, ?_⟩
    rw [charOf, List.getD_eq_getElem alphabet 0 hlt, List.getElem_idxOf]
  · rw [if_neg hmem] at hc
    exact absurd (by decide) hc

end IsAlphabet

/-! ## The encoder -/

open Base64

lemma toNat_or_of_dvd {x y : UInt32} (k : ℕ) (hx : 2 ^ k ∣ x.toNat) (hy : y.toNat < 2 ^ k) :
    (x ||| y).toNat = x.toNat + y.toNat := by
  obtain ⟨q, hq⟩ := hx
  rw [UInt32.toNat_or, hq, Nat.two_pow_add_eq_or_of_lt hy]

lemma toNat_shiftLeft_of_lt {x : UInt32} (k : ℕ) (hk : k < 32) (hx : x.toNat * 2 ^ k < 2 ^ 32) :
    (x <<< UInt32.ofNat k).toNat = x.toNat * 2 ^ k := by
  have hmod : k % 2 ^ 32 % 32 = k := by omega
  rw [UInt32.toNat_shiftLeft, UInt32.toNat_ofNat', hmod, Nat.shiftLeft_eq, Nat.mod_eq_of_lt hx]

/-- The words that are put together from bytes have no overlapping bits, so that they stand for the
number of the bytes. -/
lemma toNat_chunk (a b c : UInt8) :
    ((a.toUInt32 <<< 16) ||| (b.toUInt32 <<< 8) ||| c.toUInt32).toNat = ofBytes a b c := by
  have ha : a.toUInt32.toNat < 2 ^ 8 := a.toNat_lt
  have hb : b.toUInt32.toNat < 2 ^ 8 := b.toNat_lt
  have hc : c.toUInt32.toNat < 2 ^ 8 := c.toNat_lt
  have h16 : (a.toUInt32 <<< 16).toNat = a.toUInt32.toNat * 2 ^ 16 :=
    toNat_shiftLeft_of_lt 16 (by decide) (by omega)
  have h8 : (b.toUInt32 <<< 8).toNat = b.toUInt32.toNat * 2 ^ 8 :=
    toNat_shiftLeft_of_lt 8 (by decide) (by omega)
  have hhigh := toNat_or_of_dvd 16 (Dvd.intro_left _ h16.symm)
    (show (b.toUInt32 <<< 8).toNat < 2 ^ 16 by omega)
  rw [toNat_or_of_dvd 8 (by omega) hc, hhigh, h16, h8]
  rfl

lemma toNat_chunk_two (a b : UInt8) :
    ((a.toUInt32 <<< 16) ||| (b.toUInt32 <<< 8)).toNat = ofBytes a b 0 := by
  have hzero : UInt8.toUInt32 0 = 0 := rfl
  have h := toNat_chunk a b 0
  rwa [hzero, UInt32.or_zero] at h

lemma toNat_chunk_one (a : UInt8) : (a.toUInt32 <<< 16).toNat = ofBytes a 0 0 := by
  have hzero : UInt8.toUInt32 0 <<< 8 = 0 := rfl
  have h := toNat_chunk_two a 0
  rwa [hzero, UInt32.or_zero] at h

lemma alphabetAt_eq (alphabet : List UInt8) (chunk : UInt32) {k : ℕ} (hk : k < 32) :
    alphabetAt alphabet chunk (UInt32.ofNat k) = charOf alphabet (digitAt chunk.toNat k) := by
  have hmod : k % 2 ^ 32 % 32 = k := by omega
  have hdigit : ((chunk >>> UInt32.ofNat k) &&& 0x3f).toNat = (digitAt chunk.toNat k).val := by
    rw [UInt32.toNat_and, UInt32.toNat_shiftRight, UInt32.toNat_ofNat', hmod,
      Nat.shiftRight_eq_div_pow, val_digitAt]
    exact Nat.and_two_pow_sub_one_eq_mod _ 6
  rw [alphabetAt, charOf, hdigit]

/-- The characters of a chunk are those of its four digits. -/
lemma alphabetAt_chunk (alphabet : List UInt8) {chunk : UInt32} {value : ℕ}
    (h : chunk.toNat = value) :
    alphabetAt alphabet chunk 18 = charOf alphabet (digitAt value 18) ∧
    alphabetAt alphabet chunk 12 = charOf alphabet (digitAt value 12) ∧
    alphabetAt alphabet chunk 6 = charOf alphabet (digitAt value 6) ∧
    alphabetAt alphabet chunk 0 = charOf alphabet (digitAt value 0) := by
  subst h
  exact ⟨alphabetAt_eq alphabet chunk (by decide), alphabetAt_eq alphabet chunk (by decide),
    alphabetAt_eq alphabet chunk (by decide), alphabetAt_eq alphabet chunk (by decide)⟩

/-- The padding that fills up the last group of digits. -/
def paddingOf (digits : List (Fin 64)) : List UInt8 :=
  List.replicate ((4 - digits.length % 4) % 4) padChar

/-- The encoder writes the digits of its input, and behind them the padding that the mode asks for.
-/
theorem encodeBase64_eq (alphabet : List UInt8) (padding : Bool) (input : List UInt8) :
    encodeBase64 alphabet padding input = (encode input).map (charOf alphabet) ++
      if padding then paddingOf (encode input) else [] := by
  fun_induction encodeBase64 alphabet padding input with
  | case1 a b c rest chunk ih =>
      obtain ⟨h18, h12, h6, h0⟩ := alphabetAt_chunk alphabet (toNat_chunk a b c)
      have hpad : paddingOf (encode (a :: b :: c :: rest)) = paddingOf (encode rest) := by
        simp only [encode, paddingOf, List.length_cons, add_assoc, Nat.reduceAdd,
          Nat.add_mod_right]
      rw [hpad, ih, h18, h12, h6, h0]
      rfl
  | case2 a b chunk =>
      obtain ⟨h18, h12, h6, _⟩ := alphabetAt_chunk alphabet (toNat_chunk_two a b)
      rw [h18, h12, h6]
      rfl
  | case3 a chunk =>
      obtain ⟨h18, h12, _, _⟩ := alphabetAt_chunk alphabet (toNat_chunk_one a)
      rw [h18, h12]
      rfl
  | case4 => cases padding <;> rfl

/-! ## The decoder -/

lemma toNat_digit (digit : Fin 64) : (UInt32.ofNat digit.val).toNat = digit.val :=
  UInt32.toNat_ofNat_of_lt' (digit.isLt.trans (by decide))

lemma toNat_digit_shiftLeft (digit : Fin 64) (k : ℕ) (hk : k ≤ 18) :
    (UInt32.ofNat digit.val <<< UInt32.ofNat k).toNat = digit.val * 2 ^ k := by
  have hfit : digit.val * 2 ^ k < 2 ^ 32 := by
    calc digit.val * 2 ^ k ≤ digit.val * 2 ^ 18 :=
          Nat.mul_le_mul_left _ (Nat.pow_le_pow_right (by norm_num) hk)
      _ < 2 ^ 32 := by
          have hdigit := digit.isLt
          omega
  rw [toNat_shiftLeft_of_lt k (by omega), toNat_digit]
  rwa [toNat_digit]

/-- The words that are put together from digits stand for the number of the digits. -/
lemma toNat_digits (a b c d : Fin 64) :
    ((UInt32.ofNat a.val <<< 18) ||| (UInt32.ofNat b.val <<< 12) |||
      (UInt32.ofNat c.val <<< 6) ||| UInt32.ofNat d.val).toNat = ofDigits a b c d := by
  have hb := b.isLt
  have hc := c.isLt
  have h18 : (UInt32.ofNat a.val <<< 18).toNat = a.val * 2 ^ 18 :=
    toNat_digit_shiftLeft a 18 (by decide)
  have h12 : (UInt32.ofNat b.val <<< 12).toNat = b.val * 2 ^ 12 :=
    toNat_digit_shiftLeft b 12 (by decide)
  have h6 : (UInt32.ofNat c.val <<< 6).toNat = c.val * 2 ^ 6 :=
    toNat_digit_shiftLeft c 6 (by decide)
  have hab := toNat_or_of_dvd 18 (Dvd.intro_left _ h18.symm)
    (show (UInt32.ofNat b.val <<< 12).toNat < 2 ^ 18 by omega)
  have habc := toNat_or_of_dvd 12 (show 2 ^ 12 ∣ _ by rw [hab, h18, h12]; omega)
    (show (UInt32.ofNat c.val <<< 6).toNat < 2 ^ 12 by omega)
  rw [toNat_or_of_dvd 6, habc, hab, h18, h12, h6, toNat_digit, ofDigits]
  · rw [habc, hab, h18, h12, h6]
    omega
  · rw [toNat_digit]
    exact d.isLt

/-- The bytes of a chunk are those of its number. -/
lemma chunk_bytes {chunk : UInt32} {value : ℕ} (h : chunk.toNat = value) :
    ((chunk >>> 16) &&& 0xff).toUInt8 = byteAt value 16 ∧
    ((chunk >>> 8) &&& 0xff).toUInt8 = byteAt value 8 ∧
    (chunk &&& 0xff).toUInt8 = byteAt value 0 := by
  subst h
  have hlow : ∀ x : UInt32, (x &&& 0xff).toUInt8.toNat = x.toNat % 2 ^ 8 := fun x => by
    rw [UInt32.toNat_toUInt8, UInt32.toNat_and]
    exact (congrArg (· % 2 ^ 8) (Nat.and_two_pow_sub_one_eq_mod x.toNat 8)).trans
      (Nat.mod_mod _ _)
  have hshift : ∀ k < 32, (chunk >>> UInt32.ofNat k).toNat = chunk.toNat / 2 ^ k := fun k hk => by
    have hmod : k % 2 ^ 32 % 32 = k := by omega
    rw [UInt32.toNat_shiftRight, UInt32.toNat_ofNat', hmod, Nat.shiftRight_eq_div_pow]
  have h16 := hshift 16 (by decide)
  have h8 := hshift 8 (by decide)
  simp only [← UInt8.toNat_inj, hlow, toNat_byteAt]
  exact ⟨congrArg (· % 2 ^ 8) h16, congrArg (· % 2 ^ 8) h8, by rw [pow_zero, Nat.div_one]⟩

section Groups

variable {alphabet : List UInt8} (h : IsAlphabet alphabet)

include h

lemma charOf_beq_padChar (digit : Fin 64) : (charOf alphabet digit == padChar) = false :=
  beq_eq_false_iff_ne.mpr (h.charOf_ne digit (by decide))

lemma decodeGroups_four (a b c d : Fin 64) (rest : List UInt8) :
    decodeGroups (makeDecodeTable alphabet) (charOf alphabet a :: charOf alphabet b ::
      charOf alphabet c :: charOf alphabet d :: rest) = (do
        let output ← decodeGroups (makeDecodeTable alphabet) rest
        return byteAt (ofDigits a b c d) 16 :: byteAt (ofDigits a b c d) 8 ::
          byteAt (ofDigits a b c d) 0 :: output) := by
  have hnonneg : ∀ digit : Fin 64, ¬((digit.val : ℤ) < 0) := fun digit => by omega
  obtain ⟨h16, h8, h0⟩ := chunk_bytes (toNat_digits a b c d)
  rw [decodeGroups]
  simp only [charOf_beq_padChar h, h.tableAt_charOf, hnonneg, decide_false, Bool.or_false,
    Bool.false_and, Bool.not_false, require_true, ok_bind, Bool.false_eq_true, if_false,
    Int.toNat_natCast, h16, h8, h0]
  rfl

/-- A last group of three digits. The low bits of the third one are lost. -/
lemma decodeGroups_three (a b c : Fin 64) :
    decodeGroups (makeDecodeTable alphabet)
      [charOf alphabet a, charOf alphabet b, charOf alphabet c, padChar] =
        .ok [byteAt (ofDigits a b c 0) 16, byteAt (ofDigits a b c 0) 8] := by
  have hnonneg : ∀ digit : Fin 64, ¬((digit.val : ℤ) < 0) := fun digit => by omega
  obtain ⟨h16, h8, _⟩ := chunk_bytes (toNat_digits a b c 0)
  rw [decodeGroups]
  simp only [charOf_beq_padChar h, h.tableAt_charOf, hnonneg, decide_false, Bool.or_false,
    Bool.not_false, require_true, ok_bind, Bool.false_eq_true, if_false,
    Int.toNat_natCast, beq_self_eq_true, Bool.or_true, List.isEmpty_nil, Bool.not_true,
    Bool.and_false, if_true, lt_irrefl, decodeGroups, Int.toNat_zero]
  exact congrArg Except.ok (congrArg₂ (fun x y => [x, y]) h16 h8)

/-- A last group of two digits. The low bits of the second one are lost. -/
lemma decodeGroups_two (a b : Fin 64) :
    decodeGroups (makeDecodeTable alphabet)
      [charOf alphabet a, charOf alphabet b, padChar, padChar] =
        .ok [byteAt (ofDigits a b 0 0) 16] := by
  have hnonneg : ∀ digit : Fin 64, ¬((digit.val : ℤ) < 0) := fun digit => by omega
  obtain ⟨h16, _, _⟩ := chunk_bytes (toNat_digits a b 0 0)
  rw [decodeGroups]
  simp only [charOf_beq_padChar h, h.tableAt_charOf, hnonneg, decide_false, Bool.or_false,
    Bool.not_false, require_true, ok_bind, if_true, Int.toNat_natCast,
    beq_self_eq_true, Bool.or_true, List.isEmpty_nil, Bool.not_true, Bool.and_false, lt_irrefl,
    decodeGroups, Int.toNat_zero]
  exact congrArg Except.ok (congrArg (fun x => [x]) h16)

/-- The decoder reads digits that are filled up with padding, by induction on the groups. -/
theorem decodeGroups_of_decode {digits : List (Fin 64)} {bytes : List UInt8}
    (hdigits : decode digits = some bytes) :
    decodeGroups (makeDecodeTable alphabet)
      (digits.map (charOf alphabet) ++ paddingOf digits) = .ok bytes := by
  fun_induction decode digits generalizing bytes with
  | case1 a b c d rest ih =>
      obtain ⟨tail, htail, rfl⟩ := Option.map_eq_some_iff.mp hdigits
      have hpad : paddingOf (a :: b :: c :: d :: rest) = paddingOf rest := by
        simp only [paddingOf, List.length_cons, add_assoc, Nat.reduceAdd, Nat.add_mod_right]
      rw [hpad, List.map_cons, List.map_cons, List.map_cons, List.map_cons, List.cons_append,
        List.cons_append, List.cons_append, List.cons_append, decodeGroups_four h, ih htail]
      rfl
  | case2 a b c =>
      cases hdigits
      exact decodeGroups_three h a b c
  | case3 a b =>
      cases hdigits
      exact decodeGroups_two h a b
  | case4 a => cases hdigits
  | case5 =>
      cases hdigits
      rfl

/-- What the decoder reads is digits that are filled up with padding: nothing else passes the checks
of a group. -/
theorem exists_decode_of_decodeGroups (input : List UInt8) {bytes : List UInt8}
    (hlength : 4 ∣ input.length)
    (hinput : decodeGroups (makeDecodeTable alphabet) input = .ok bytes) :
    ∃ digits, decode digits = some bytes ∧
      input = digits.map (charOf alphabet) ++ paddingOf digits := by
  induction hn : input.length using Nat.strong_induction_on generalizing input bytes with
  | _ n ih =>
      match input with
      | [] =>
          cases hinput
          exact ⟨[], rfl, rfl⟩
      | [_] | [_, _] | [_, _, _] => simp at hlength
      | p0 :: p1 :: p2 :: p3 :: rest =>
          have hrest : 4 ∣ rest.length := by
            simp only [List.length_cons] at hlength
            omega
          have hchecks := hinput
          rw [decodeGroups] at hchecks
          obtain ⟨_, hpadding, hchecks⟩ := bind_eq_ok.mp hchecks
          obtain ⟨_, hend, hchecks⟩ := bind_eq_ok.mp hchecks
          obtain ⟨_, hchars, _⟩ := bind_eq_ok.mp hchecks
          rw [require_eq_ok] at hpadding hend hchars
          simp only [Bool.not_eq_true', Bool.or_eq_false_iff, Bool.and_eq_false_iff,
            decide_eq_false_iff_not, Bool.not_eq_false'] at hpadding hend hchars
          obtain ⟨⟨⟨h0, h1⟩, h2⟩, h3⟩ := hchars
          obtain ⟨a, ha⟩ := h.exists_charOf h0
          obtain ⟨b, hb⟩ := h.exists_charOf h1
          rw [← ha, ← hb] at hinput ⊢
          by_cases hp3 : p3 = padChar
          · -- padding: nothing may follow
            have hnil : rest = [] := by
              rcases hend with hnone | hnil
              · exact absurd hp3 (beq_eq_false_iff_ne.mp hnone.2)
              · exact List.isEmpty_iff.mp hnil
            rw [hnil, hp3] at hinput ⊢
            by_cases hp2 : p2 = padChar
            · rw [hp2, decodeGroups_two h] at hinput
              exact ⟨[a, b], by rw [decode]; exact congrArg some (Except.ok.inj hinput),
                by rw [hp2]; rfl⟩
            · rw [if_neg (by simpa using hp2)] at h2
              obtain ⟨c, hc⟩ := h.exists_charOf h2
              rw [← hc, decodeGroups_three h] at hinput
              exact ⟨[a, b, c], by rw [decode]; exact congrArg some (Except.ok.inj hinput),
                by rw [← hc]; rfl⟩
          · have hp2 : p2 ≠ padChar := by
              rcases hpadding.2 with hnone | hpad
              · exact beq_eq_false_iff_ne.mp hnone
              · exact absurd (beq_iff_eq.mp hpad) hp3
            rw [if_neg (by simpa using hp2)] at h2
            rw [if_neg (by simpa using hp3)] at h3
            obtain ⟨c, hc⟩ := h.exists_charOf h2
            obtain ⟨d, hd⟩ := h.exists_charOf h3
            rw [← hc, ← hd] at hinput ⊢
            rw [decodeGroups_four h] at hinput
            obtain ⟨tail, htail, hbytes⟩ := bind_eq_ok.mp hinput
            obtain ⟨digits, hdigits, htext⟩ :=
              ih rest.length (by rw [← hn]; simp only [List.length_cons]; omega) rest hrest htail
                rfl
            refine ⟨a :: b :: c :: d :: digits, ?_, ?_⟩
            · rw [decode, hdigits]
              exact congrArg some (Except.ok.inj hbytes)
            · have hpad : paddingOf (a :: b :: c :: d :: digits) = paddingOf digits := by
                simp only [paddingOf, List.length_cons, add_assoc, Nat.reduceAdd,
                  Nat.add_mod_right]
              rw [hpad, htext]
              rfl

omit h in
lemma length_paddedText (alphabet : List UInt8) (digits : List (Fin 64)) :
    4 ∣ (digits.map (charOf alphabet) ++ paddingOf digits).length := by
  rw [List.length_append, List.length_map, paddingOf, List.length_replicate]
  omega

lemma any_whitespace (digits : List (Fin 64)) (pads : ℕ) :
    (digits.map (charOf alphabet) ++ List.replicate pads padChar).any
      (fun c => isLineBreak c || c == space || c == 0x09) = false := by
  rw [List.any_eq_false]
  intro c hc
  rcases List.mem_append.mp hc with hdigit | hpad
  · obtain ⟨digit, _, rfl⟩ := List.mem_map.mp hdigit
    simp only [isLineBreak, Bool.or_eq_true, beq_iff_eq, not_or]
    exact ⟨⟨⟨h.charOf_ne digit (by decide), h.charOf_ne digit (by decide)⟩,
      h.charOf_ne digit (by decide)⟩, h.charOf_ne digit (by decide)⟩
  · rw [List.eq_of_mem_replicate hpad]
    decide

omit h in
/-- The checks in front of the loop, and the text the loop gets, in both modes. -/
lemma decodeBase64_eq_ok_iff (input bytes : List UInt8) (allowUnpadded : Bool) :
    decodeBase64 input alphabet allowUnpadded = .ok bytes ↔
      (input.any fun c => isLineBreak c || c == space || c == 0x09) = false ∧
      (if allowUnpadded then input.length % 4 ≠ 1 else input.length % 4 = 0) ∧
      decodeGroups (makeDecodeTable alphabet) (input ++ List.replicate
        (if allowUnpadded then (4 - input.length % 4) % 4 else 0) padChar) = .ok bytes := by
  by_cases hempty : input.isEmpty = true
  · have hnil : input = [] := List.isEmpty_iff.mp hempty
    subst hnil
    cases allowUnpadded <;> simp [decodeBase64, decodeGroups]
  · rw [decodeBase64, if_neg hempty]
    simp only [bind_eq_ok, require_eq_ok, exists_and_left, exists_const, Bool.not_eq_true']
    cases allowUnpadded
    · simp
    · have hfill : (if (true && input.length % 4 != 0) = true then
          input ++ List.replicate (4 - input.length % 4) padChar else input) =
          input ++ List.replicate ((4 - input.length % 4) % 4) padChar := by
        by_cases hzero : input.length % 4 = 0
        · simp [hzero]
        · have hmod : (4 - input.length % 4) % 4 = 4 - input.length % 4 :=
            Nat.mod_eq_of_lt (by omega)
          rw [if_pos (by simpa using hzero), hmod]
      rw [hfill]
      simp

/-- What the decoder that insists on padding accepts: digits with all of it. -/
theorem decodeBase64_padded_iff (input bytes : List UInt8) :
    decodeBase64 input alphabet false = .ok bytes ↔ ∃ digits, decode digits = some bytes ∧
      input = digits.map (charOf alphabet) ++ paddingOf digits := by
  rw [decodeBase64_eq_ok_iff]
  simp only [Bool.false_eq_true, if_false, List.replicate_zero, List.append_nil]
  constructor
  · rintro ⟨_, hlength, hgroups⟩
    exact exists_decode_of_decodeGroups h input (Nat.dvd_of_mod_eq_zero hlength) hgroups
  · rintro ⟨digits, hdigits, rfl⟩
    exact ⟨any_whitespace h digits _,
      Nat.mod_eq_zero_of_dvd (length_paddedText alphabet digits),
      decodeGroups_of_decode h hdigits⟩

/-- What the decoder that adds the padding accepts: digits with any part of it. -/
theorem decodeBase64_unpadded_iff (input bytes : List UInt8) :
    decodeBase64 input alphabet true = .ok bytes ↔ ∃ digits, decode digits = some bytes ∧
      ∃ pads ≤ (paddingOf digits).length,
        input = digits.map (charOf alphabet) ++ List.replicate pads padChar := by
  rw [decodeBase64_eq_ok_iff]
  simp only [if_true]
  constructor
  · rintro ⟨_, hremainder, hgroups⟩
    obtain ⟨digits, hdigits, htext⟩ := exists_decode_of_decodeGroups h _
      (by rw [List.length_append, List.length_replicate]; omega) hgroups
    refine ⟨digits, hdigits, ?_⟩
    rcases List.append_eq_append_iff.mp htext with ⟨tail, hdigitText, hpads⟩ | ⟨pads, hinput, hpads⟩
    · -- the characters of the digits end with no padding, so that nothing is left of them
      have htail : tail = [] := by
        by_contra hne
        obtain ⟨c, hc⟩ := List.exists_mem_of_ne_nil tail hne
        have hpad : c = padChar :=
          List.eq_of_mem_replicate (hpads ▸ List.mem_append_left _ hc)
        have hdigit : c ∈ digits.map (charOf alphabet) :=
          hdigitText ▸ List.mem_append_right input hc
        obtain ⟨digit, _, hchar⟩ := List.mem_map.mp hdigit
        exact h.charOf_ne digit (by decide) (hchar.trans hpad)
      refine ⟨0, Nat.zero_le _, ?_⟩
      rw [hdigitText, htail, List.append_nil, List.replicate_zero, List.append_nil]
    · obtain ⟨hlength, hpads, _⟩ := List.append_eq_replicate_iff.mp hpads.symm
      refine ⟨pads.length, ?_, hpads ▸ hinput⟩
      rw [paddingOf, List.length_replicate]
      omega
  · rintro ⟨digits, hdigits, pads, hpads, rfl⟩
    have hmod := (decode_isSome_iff digits).mp (by rw [hdigits]; rfl)
    rw [paddingOf, List.length_replicate] at hpads
    refine ⟨any_whitespace h digits pads, ?_, ?_⟩
    · rw [List.length_append, List.length_map, List.length_replicate]
      omega
    · have hfill : pads + (4 - (digits.length + pads) % 4) % 4 = (4 - digits.length % 4) % 4 := by
        omega
      rw [List.length_append, List.length_map, List.length_replicate, List.append_assoc,
        ← List.replicate_add, hfill]
      exact decodeGroups_of_decode h hdigits

end Groups

/-! ## Boundary lines -/

/-- The check of a label, as a proposition about its characters. -/
lemma isValidPemLabel_iff (label : List UInt8) : isValidPemLabel label = true ↔
    label ≠ [] ∧ (∀ c ∈ label, 0x20 ≤ c ∧ c ≤ 0x7e ∧ c ≠ hyphen) ∧
      label.head? ≠ some space ∧ label.getLast? ≠ some space := by
  rw [isValidPemLabel]
  split
  · rename_i hreject
    simp only [Bool.or_eq_true, List.isEmpty_iff, beq_iff_eq] at hreject
    simp only [Bool.false_eq_true, false_iff, not_and_or, not_not]
    tauto
  · rename_i haccept
    simp only [Bool.or_eq_true, List.isEmpty_iff, beq_iff_eq, not_or] at haccept
    simp only [List.all_eq_true, Bool.not_eq_true', Bool.or_eq_false_iff, decide_eq_false_iff_not,
      beq_eq_false_iff_ne, UInt8.not_lt, and_assoc]
    exact ⟨fun h => ⟨haccept.1.1, h, haccept.1.2, haccept.2⟩, fun h => h.2.1⟩

/-- The label of a boundary line that was written is read back. -/
lemma pemBoundary_eq (start finish : List UInt8) {label : List UInt8}
    (hlabel : isValidPemLabel label = true) :
    pemBoundary (start ++ label ++ finish) start finish = .ok label := by
  have hstart : start.isPrefixOf (start ++ label ++ finish) = true := by
    rw [List.isPrefixOf_iff_prefix, List.append_assoc]
    exact List.prefix_append _ _
  have hfinish : finish.isSuffixOf (start ++ label ++ finish) = true := by
    rw [List.isSuffixOf_iff_suffix]
    exact List.suffix_append _ _
  have hcount : (start ++ label ++ finish).length - start.length - finish.length =
      label.length := by
    simp only [List.length_append]
    omega
  have hcut : ((start ++ label ++ finish).drop start.length).take label.length = label := by
    rw [List.append_assoc, List.drop_left, List.take_left]
  rw [pemBoundary, hstart, hfinish, hcount, hcut]
  dsimp only
  rw [hlabel]
  rfl

/-! ## Lines -/

/-- The ends of a line that the reader takes: a line feed, with or without a carriage return before
it. -/
def IsLineEnd (lineEnd : List UInt8) : Prop :=
  lineEnd = [lineFeed] ∨ lineEnd = [carriageReturn, lineFeed]

/-- A line without line breaks, such as a boundary or a line of a payload. -/
def IsLine (line : List UInt8) : Prop :=
  ∀ c ∈ line, c ≠ lineFeed ∧ c ≠ carriageReturn

instance (line : List UInt8) : Decidable (IsLine line) :=
  inferInstanceAs (Decidable (∀ c ∈ line, c ≠ lineFeed ∧ c ≠ carriageReturn))

/-- The fixed parts of the boundary lines have no line breaks. -/
lemma isLine_texts :
    IsLine (text "-----BEGIN ") ∧ IsLine (text "-----END ") ∧ IsLine (text "-----") := by
  decide +kernel

lemma IsLine.append {first second : List UInt8} (hfirst : IsLine first)
    (hsecond : IsLine second) : IsLine (first ++ second) := by
  intro c hc
  rcases List.mem_append.mp hc with hmem | hmem
  · exact hfirst c hmem
  · exact hsecond c hmem

lemma isLine_of_valid {label : List UInt8} (h : isValidPemLabel label = true) :
    IsLine label := by
  intro c hc
  obtain ⟨_, hchars, _⟩ := (isValidPemLabel_iff label).mp h
  constructor
  · rintro rfl
    exact absurd (hchars _ hc).1 (by decide)
  · rintro rfl
    exact absurd (hchars _ hc).1 (by decide)

/-- Up to the first line feed the text is one line. -/
lemma nextLine_append {line : List UInt8} (hline : ∀ c ∈ line, c ≠ lineFeed)
    (rest : List UInt8) : nextLine (line ++ lineFeed :: rest) = (line, rest) := by
  have hall : ∀ c ∈ line, (c != lineFeed) = true := fun c hc => bne_iff_ne.mpr (hline c hc)
  rw [nextLine, List.takeWhile_append_of_pos hall, List.dropWhile_append_of_pos hall]
  simp

lemma nextLine_line {line lineEnd : List UInt8} (hline : IsLine line)
    (hend : IsLineEnd lineEnd) (rest : List UInt8) :
    trimTrailingCr (nextLine (line ++ lineEnd ++ rest)).1 = line ∧
      (nextLine (line ++ lineEnd ++ rest)).2 = rest := by
  rcases hend with rfl | rfl
  · rw [List.append_assoc, List.singleton_append, nextLine_append fun c hc => (hline c hc).1]
    refine ⟨if_neg fun hlast => ?_, rfl⟩
    exact (hline carriageReturn (List.mem_of_getLast? hlast)).2 rfl
  · have hsplit : line ++ [carriageReturn, lineFeed] ++ rest =
        (line ++ [carriageReturn]) ++ lineFeed :: rest := by
      simp
    rw [hsplit, nextLine_append]
    · refine ⟨?_, rfl⟩
      rw [trimTrailingCr, if_pos (by simp), List.dropLast_concat]
    · intro c hc
      rcases List.mem_append.mp hc with hmem | hmem
      · exact (hline c hmem).1
      · rw [List.mem_singleton.mp hmem]
        decide

/-- Every line takes at least one character, which bounds the number of rounds. -/
lemma length_lt_line (line : List UInt8) {lineEnd : List UInt8} (hend : IsLineEnd lineEnd)
    (rest : List UInt8) : rest.length < (line ++ lineEnd ++ rest).length := by
  have hpos : 0 < lineEnd.length := by
    rcases hend with rfl | rfl <;> decide
  simp only [List.length_append]
  omega

/-- The body: the lines in front of the first end boundary are put together. -/
lemma pemBodyLoop_eq {label lineEnd : List UInt8} (hlabel : isValidPemLabel label = true)
    (hend : IsLineEnd lineEnd) (trailer : List UInt8) {lines : List (List UInt8)} :
    ∀ {rounds : ℕ} (payloadText : List UInt8), (∀ line ∈ lines, IsLine line ∧
      (text "-----END ").isPrefixOf line = false) →
      (lines.flatMap (· ++ lineEnd) ++ (text "-----END " ++ label ++ text "-----" ++ lineEnd ++
        trailer)).length ≤ rounds →
      pemBodyLoop rounds payloadText (lines.flatMap (· ++ lineEnd) ++
        (text "-----END " ++ label ++ text "-----" ++ lineEnd ++ trailer)) =
          .ok (some (payloadText ++ lines.flatten, label, trailer)) := by
  -- A boundary is one line, since a valid label holds no line end.
  have hboundary : IsLine (text "-----END " ++ label ++ text "-----") :=
    (isLine_texts.2.1.append (isLine_of_valid hlabel)).append isLine_texts.2.2
  induction lines with
  | nil =>
      intro rounds payloadText _ hrounds
      have hlt := length_lt_line (text "-----END " ++ label ++ text "-----") hend trailer
      rw [List.flatMap_nil, List.nil_append] at hrounds ⊢
      obtain ⟨rounds, rfl⟩ := Nat.exists_eq_succ_of_ne_zero (show rounds ≠ 0 by omega)
      obtain ⟨htrim, hrest⟩ := nextLine_line hboundary hend trailer
      have hprefix : (text "-----END ").isPrefixOf
          (text "-----END " ++ label ++ text "-----") = true := by
        rw [List.isPrefixOf_iff_prefix, List.append_assoc]
        exact List.prefix_append _ _
      rw [pemBodyLoop, if_neg (by rw [List.isEmpty_iff_length_eq_zero]; omega)]
      simp only [htrim, hrest, hprefix, if_true, pemBoundary_eq _ _ hlabel, ok_bind,
        List.flatten_nil, List.append_nil]
      rfl
  | cons line lines ih =>
      intro rounds payloadText hlines hrounds
      obtain ⟨hthis, hnot⟩ := hlines line (List.mem_cons_self)
      rw [List.flatMap_cons, List.append_assoc] at hrounds ⊢
      generalize htail : lines.flatMap (· ++ lineEnd) ++
        (text "-----END " ++ label ++ text "-----" ++ lineEnd ++ trailer) = tail at hrounds ⊢
      have hlt := length_lt_line line hend tail
      obtain ⟨rounds, rfl⟩ := Nat.exists_eq_succ_of_ne_zero (show rounds ≠ 0 by omega)
      obtain ⟨htrim, hrest⟩ := nextLine_line hthis hend tail
      rw [pemBodyLoop, if_neg (by rw [List.isEmpty_iff_length_eq_zero]; omega)]
      simp only [htrim, hrest, hnot, Bool.false_eq_true, if_false]
      rw [← htail, ih _ (fun l hl => hlines l (List.mem_cons_of_mem _ hl)), List.flatten_cons,
        List.append_assoc]
      rw [htail]
      omega

lemma pemTrailerLoop_eq {lines : List (List UInt8)} :
    ∀ {rounds : ℕ}, (∀ line ∈ lines, IsLineEnd line) → lines.flatten.length ≤ rounds →
      pemTrailerLoop rounds lines.flatten = .ok () := by
  induction lines with
  | nil =>
      intro rounds _ _
      cases rounds <;> rfl
  | cons line lines ih =>
      intro rounds hlines hrounds
      have hend := hlines line List.mem_cons_self
      have hlt := length_lt_line [] hend lines.flatten
      rw [List.nil_append, ← List.flatten_cons] at hlt
      obtain ⟨rounds, rfl⟩ := Nat.exists_eq_succ_of_ne_zero (show rounds ≠ 0 by omega)
      have hempty : IsLine [] := fun c hc => absurd hc List.not_mem_nil
      obtain ⟨htrim, hrest⟩ := nextLine_line hempty hend lines.flatten
      rw [List.nil_append, ← List.flatten_cons] at htrim hrest
      rw [pemTrailerLoop, if_neg (by rw [List.isEmpty_iff_length_eq_zero]; omega), htrim, hrest,
        ih (fun l hl => hlines l (List.mem_cons_of_mem _ hl)) (by omega)]
      rfl

/-! ## Armor -/

/-- A payload in armor, with a choice of line ends. -/
def armor (lineEnd label payload : List UInt8) : List UInt8 :=
  text "-----BEGIN " ++ label ++ text "-----" ++ lineEnd ++
    ((blocks 64 (base64Encode payload)).flatMap (· ++ lineEnd) ++
      (text "-----END " ++ label ++ text "-----" ++ lineEnd))

/-- The encoder writes the armor with line feeds, for every valid label. -/
lemma pemEncode_eq {label : List UInt8} (hlabel : isValidPemLabel label = true)
    (payload : List UInt8) : pemEncode label payload = .ok (armor [lineFeed] label payload) := by
  have hlast : text "-----\n" = text "-----" ++ [lineFeed] := rfl
  rw [pemEncode, hlabel, require_true, ok_bind, hlast, armor]
  simp only [List.append_assoc]
  rfl

/-- The characters of a base64 text: those of the alphabet and the padding. -/
lemma mem_base64Encode {payload : List UInt8} {c : UInt8} (hc : c ∈ base64Encode payload) :
    c ∈ standardAlphabet ∨ c = padChar := by
  rw [base64Encode, encodeBase64_eq, if_pos rfl] at hc
  rcases List.mem_append.mp hc with hdigit | hpad
  · obtain ⟨digit, _, rfl⟩ := List.mem_map.mp hdigit
    exact Or.inl (isAlphabet_standard.charOf_mem digit)
  · exact Or.inr (List.eq_of_mem_replicate hpad)

/-- A line of the body has neither line breaks nor hyphens. -/
lemma bodyLine_chars {payload line : List UInt8}
    (hline : line ∈ blocks 64 (base64Encode payload)) :
    ∀ c ∈ line, c ≠ lineFeed ∧ c ≠ carriageReturn ∧ c ≠ hyphen := by
  have hchars : ∀ c ∈ standardAlphabet, c ≠ lineFeed ∧ c ≠ carriageReturn ∧ c ≠ hyphen := by
    intro c hc
    have hplain := isAlphabet_standard.plain c hc
    simp only [List.mem_cons, not_or] at hplain
    exact ⟨hplain.2.1, hplain.2.2.1, ne_of_mem_of_not_mem hc alphabet_values.2⟩
  intro c hc
  have hmem : c ∈ base64Encode payload := by
    rw [← flatten_blocks (show 0 < 64 by decide) (base64Encode payload)]
    exact List.mem_flatten.mpr ⟨line, hline, hc⟩
  rcases mem_base64Encode hmem with halphabet | rfl
  · exact hchars c halphabet
  · decide

lemma not_boundary {line : List UInt8} (hline : hyphen ∉ line) :
    (text "-----END ").isPrefixOf line = false := by
  rw [Bool.eq_false_iff]
  intro hprefix
  obtain ⟨rest, rfl⟩ := List.isPrefixOf_iff_prefix.mp hprefix
  have hfirst : (text "-----END ") = hyphen :: (text "----END ") := rfl
  exact hline (List.mem_append_left _ (hfirst ▸ List.mem_cons_self))

/-- Armor is opened whichever line end it uses, and with any empty lines behind it. -/
theorem pemDecode_armor {label lineEnd : List UInt8} (hlabel : isValidPemLabel label = true)
    (hend : IsLineEnd lineEnd) (payload : List UInt8) {emptyLines : List (List UInt8)}
    (hempty : ∀ line ∈ emptyLines, IsLineEnd line)
    (hdecode : base64Decode (base64Encode payload) = .ok payload) :
    pemDecode (armor lineEnd label payload ++ emptyLines.flatten) = .ok ⟨label, payload⟩ := by
  have hfirst : IsLine (text "-----BEGIN " ++ label ++ text "-----") :=
    (isLine_texts.1.append (isLine_of_valid hlabel)).append isLine_texts.2.2
  have hlines : ∀ line ∈ blocks 64 (base64Encode payload), IsLine line ∧
      (text "-----END ").isPrefixOf line = false := by
    intro line hline
    have hchars := bodyLine_chars hline
    exact ⟨fun c hc => ⟨(hchars c hc).1, (hchars c hc).2.1⟩,
      not_boundary fun hmem => (hchars hyphen hmem).2.2 rfl⟩
  generalize htail : (blocks 64 (base64Encode payload)).flatMap (· ++ lineEnd) ++
    (text "-----END " ++ label ++ text "-----" ++ lineEnd ++ emptyLines.flatten) = tail
  -- The text as the decoder sees it: the first line, and all that follows.
  have hsplit : armor lineEnd label payload ++ emptyLines.flatten =
      text "-----BEGIN " ++ label ++ text "-----" ++ lineEnd ++ tail := by
    rw [armor, ← htail]
    simp only [List.append_assoc]
  have hfeed : (text "-----BEGIN " ++ label ++ text "-----" ++ lineEnd ++ tail).contains
      lineFeed = true := by
    have hmem : lineFeed ∈ lineEnd := by
      rcases hend with rfl | rfl <;> decide
    rw [List.contains_iff_mem]
    exact List.mem_append_left _ (List.mem_append_right _ hmem)
  obtain ⟨htrim, hrest⟩ := nextLine_line hfirst hend tail
  have hbody := pemBodyLoop_eq hlabel hend emptyLines.flatten [] hlines (le_refl _)
  rw [htail, List.nil_append, flatten_blocks (by decide)] at hbody
  rw [hsplit, pemDecode, hfeed, require_true, ok_bind]
  simp only [htrim, hrest, pemBoundary_eq _ _ hlabel, ok_bind, hbody, beq_self_eq_true,
    require_true, pemTrailerLoop_eq hempty (le_refl _), hdecode]
  rfl

end Encoding

end CryptoCore
