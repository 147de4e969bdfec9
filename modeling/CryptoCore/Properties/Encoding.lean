import CryptoCore.Construction.Encoding
import Mathlib.Data.List.DropRight

/-!
# The text encodings

Decoding undoes encoding, for both alphabets and for PEM armor. The decoders accept more than the
encoders write: bits of the last character that belong to no byte, and, without its second
character, the padding of a base64url text.

The characters of a text stand for digits, and the two decoders are `Base64.decode` behind different
readers of the padding. So `Canonical`, a condition on digits, says for both alphabets which texts
are written again as they were: `base64_canonical_iff` is the exact condition on the text, and
`Zh==` a text that fails it. The standard decoder asks for complete padding. The one of base64url
adds what is missing, and therefore accepts one `=` where there should be none or two;
`base64url_padding_iff` says that this is the only case.

PEM armor puts a line of the label in front of the encoded payload and one behind it. The theorem
has the labels for which armor is written, and the round trip through texts with either line end.
The reader skips empty lines behind the armor, and refuses anything else there.
-/

namespace CryptoCore

open Base64 Blocks Encoding Loops

/-! ## Round trip -/

lemma base64Encode_eq (input : List UInt8) :
    base64Encode input = (encode input).map (charOf standardAlphabet) ++
      paddingOf (encode input) :=
  encodeBase64_eq standardAlphabet true input

lemma base64urlEncode_eq (input : List UInt8) :
    base64urlEncode input = (encode input).map (charOf urlAlphabet) := by
  rw [base64urlEncode, encodeBase64_eq, if_neg Bool.false_ne_true, List.append_nil]

lemma base64Decode_encode (input : List UInt8) : base64Decode (base64Encode input) = .ok input :=
  (decodeBase64_padded_iff isAlphabet_standard _ _).mpr
    ⟨encode input, decode_encode input, base64Encode_eq input⟩

lemma length_paddingOf_le (digits : List (Fin 64)) (h : digits.length % 4 ≠ 1) :
    (paddingOf digits).length ≤ 2 := by
  rw [paddingOf, List.length_replicate]
  omega

/-- Both decoders return what their encoder was given, base64url also when the padding is added,
and they accept nothing but characters of their alphabet with at most two `=` behind them. -/
theorem base64_decode_encode :
    (∀ x, base64Decode (base64Encode x) = .ok x ∧
      base64urlDecode (base64urlEncode x) = .ok x ∧
      base64urlDecode (base64urlEncode x ++
        List.replicate ((4 - (base64urlEncode x).length % 4) % 4) padChar) = .ok x) ∧
    (∀ s x, base64Decode s = .ok x → ∃ body pads, s = body ++ List.replicate pads padChar ∧
      pads ≤ 2 ∧ ∀ c ∈ body, c ∈ standardAlphabet) ∧
    (∀ s x, base64urlDecode s = .ok x → ∃ body pads, s = body ++ List.replicate pads padChar ∧
      pads ≤ 2 ∧ ∀ c ∈ body, c ∈ urlAlphabet) := by
  have hbody : ∀ {alphabet : List UInt8}, IsAlphabet alphabet → ∀ (digits : List (Fin 64)),
      ∀ c ∈ digits.map (charOf alphabet), c ∈ alphabet := by
    intro alphabet h digits c hc
    obtain ⟨digit, _, rfl⟩ := List.mem_map.mp hc
    exact h.charOf_mem digit
  have hmod : ∀ {digits : List (Fin 64)} {x}, decode digits = some x → digits.length % 4 ≠ 1 :=
    fun {digits} {x} hdigits => (decode_isSome_iff digits).mp (by rw [hdigits]; rfl)
  refine ⟨fun x => ⟨base64Decode_encode x, ?_, ?_⟩, ?_, ?_⟩
  · apply (decodeBase64_unpadded_iff isAlphabet_url _ _).mpr
    refine ⟨encode x, decode_encode x, 0, Nat.zero_le _, ?_⟩
    rw [base64urlEncode_eq, List.replicate_zero, List.append_nil]
  · apply (decodeBase64_unpadded_iff isAlphabet_url _ _).mpr
    refine ⟨encode x, decode_encode x, (paddingOf (encode x)).length, le_refl _, ?_⟩
    rw [base64urlEncode_eq, paddingOf, List.length_replicate, List.length_map]
  · intro s x h
    obtain ⟨digits, hdigits, rfl⟩ := (decodeBase64_padded_iff isAlphabet_standard _ _).mp h
    refine ⟨_, _, rfl, ?_, hbody isAlphabet_standard digits⟩
    have hle := length_paddingOf_le digits (hmod hdigits)
    rwa [paddingOf, List.length_replicate] at hle
  · intro s x h
    obtain ⟨digits, hdigits, pads, hpads, rfl⟩ :=
      (decodeBase64_unpadded_iff isAlphabet_url _ _).mp h
    exact ⟨_, pads, rfl, hpads.trans (length_paddingOf_le digits (hmod hdigits)),
      hbody isAlphabet_url digits⟩

/-! ## Unused bits -/

lemma map_charOf_injective {alphabet : List UInt8} (h : IsAlphabet alphabet) :
    Function.Injective (List.map (charOf alphabet)) := by
  apply List.map_injective_iff.mpr
  intro a b hab
  have hdigit := h.tableAt_charOf a
  rw [hab, h.tableAt_charOf] at hdigit
  exact Fin.ext (by exact_mod_cast hdigit.symm)

lemma rdropWhile_text {alphabet : List UInt8} (h : IsAlphabet alphabet) (digits : List (Fin 64))
    (pads : ℕ) :
    (digits.map (charOf alphabet) ++ List.replicate pads padChar).rdropWhile (· == padChar) =
      digits.map (charOf alphabet) := by
  induction pads with
  | zero =>
      rw [List.replicate_zero, List.append_nil, List.rdropWhile_eq_self_iff]
      intro hne hlast
      obtain ⟨digit, _, hdigit⟩ := List.mem_map.mp (List.getLast_mem hne)
      exact h.charOf_ne digit (by decide) (hdigit.trans (beq_iff_eq.mp hlast))
  | succ pads ih =>
      rw [List.replicate_succ', ← List.append_assoc, List.rdropWhile_concat_pos _ _ _ (by simp), ih]

/-- Everything that is decoded is encoded as the canonical text exactly when no digits of the text
have unused bits. `Spells` says which digits the text may be read as. -/
lemma encode_of_decode_iff {decodeText : Result ByteBuffer} {encodesBack : List UInt8 → Prop}
    {Spells : List (Fin 64) → Prop}
    (hdecode : ∀ x, decodeText = .ok x ↔ ∃ digits, decode digits = some x ∧ Spells digits)
    (hencode : ∀ digits x, Spells digits → (encodesBack x ↔ encode x = digits)) :
    (∀ x, decodeText = .ok x → encodesBack x) ↔
      ¬∃ digits : List (Fin 64), digits.length % 4 ≠ 1 ∧ ¬Canonical digits ∧ Spells digits := by
  constructor
  · rintro hall ⟨digits, hmod, hloose, hspells⟩
    obtain ⟨x, hx⟩ := Option.isSome_iff_exists.mp ((decode_isSome_iff digits).mpr hmod)
    have hback := hall x ((hdecode x).mpr ⟨digits, hx, hspells⟩)
    exact hloose ((encode_eq_iff hx).mp ((hencode digits x hspells).mp hback))
  · intro hnone x hx
    obtain ⟨digits, hdigits, hspells⟩ := (hdecode x).mp hx
    have hmod := (decode_isSome_iff digits).mp (by rw [hdigits]; rfl)
    have hcanonical : Canonical digits := by
      by_contra hloose
      exact hnone ⟨digits, hmod, hloose, hspells⟩
    exact (hencode digits x hspells).mpr ((encode_eq_iff hdigits).mpr hcanonical)

/-- A text re-encodes to itself exactly when it is not an accepted text with unused bits that are
not zero. -/
theorem base64_canonical_iff (s : List UInt8) :
    ((∀ x, base64Decode s = .ok x → base64Encode x = s) ↔
      ¬∃ digits : List (Fin 64), digits.length % 4 ≠ 1 ∧ ¬Canonical digits ∧
        s = digits.map (charOf standardAlphabet) ++ paddingOf digits) ∧
    ((∀ x, base64urlDecode s = .ok x → base64urlEncode x = s.rdropWhile (· == padChar)) ↔
      ¬∃ digits : List (Fin 64), digits.length % 4 ≠ 1 ∧ ¬Canonical digits ∧
        ∃ pads ≤ (paddingOf digits).length,
          s = digits.map (charOf urlAlphabet) ++ List.replicate pads padChar) := by
  constructor
  · refine encode_of_decode_iff (decodeBase64_padded_iff isAlphabet_standard s) ?_
    rintro digits x rfl
    rw [base64Encode_eq]
    constructor
    · intro hencode
      have hdigits := congrArg (List.rdropWhile (· == padChar)) hencode
      rw [paddingOf, paddingOf, rdropWhile_text isAlphabet_standard,
        rdropWhile_text isAlphabet_standard] at hdigits
      exact map_charOf_injective isAlphabet_standard hdigits
    · rintro rfl
      rfl
  · refine encode_of_decode_iff (decodeBase64_unpadded_iff isAlphabet_url s) ?_
    rintro digits x ⟨pads, -, rfl⟩
    rw [base64urlEncode_eq, rdropWhile_text isAlphabet_url]
    exact (map_charOf_injective isAlphabet_url).eq_iff

/-- `Zh==` is a second text of the byte that `Zg==` encodes, so that it is not encoded as itself. -/
theorem base64Decode_unusedBits :
    ¬∀ x, base64Decode (text "Zh==") = .ok x → base64Encode x = text "Zh==" := by
  intro hall
  have hencode := hall (text "f") (by decide +kernel)
  exact absurd hencode (by decide +kernel)

/-! ## Partial padding -/

/-- An accepted base64url text has no padding or all of it, except for one `=` behind two
characters of the last group. -/
theorem base64url_padding_iff (s : List UInt8) :
    ((∃ x, base64urlDecode s = .ok x) → padChar ∉ s ∨ 4 ∣ s.length) ↔
      ¬∃ digits : List (Fin 64), digits.length % 4 = 2 ∧
        s = digits.map (charOf urlAlphabet) ++ [padChar] := by
  constructor
  · rintro hall ⟨digits, hmod, rfl⟩
    obtain ⟨x, hx⟩ := Option.isSome_iff_exists.mp
      ((decode_isSome_iff digits).mpr (by omega))
    have haccept : base64urlDecode (digits.map (charOf urlAlphabet) ++ [padChar]) = .ok x := by
      apply (decodeBase64_unpadded_iff isAlphabet_url _ _).mpr
      refine ⟨digits, hx, 1, ?_, rfl⟩
      rw [paddingOf, List.length_replicate]
      omega
    rcases hall ⟨x, haccept⟩ with hnone | hfour
    · exact hnone (List.mem_append_right _ (List.mem_singleton_self _))
    · rw [List.length_append, List.length_map, List.length_singleton] at hfour
      omega
  · rintro hnone ⟨x, hx⟩
    obtain ⟨digits, hdigits, pads, hpads, rfl⟩ :=
      (decodeBase64_unpadded_iff isAlphabet_url _ _).mp hx
    have hmod := (decode_isSome_iff digits).mp (by rw [hdigits]; rfl)
    rw [paddingOf, List.length_replicate] at hpads
    by_cases hzero : pads = 0
    · left
      rw [hzero, List.replicate_zero, List.append_nil]
      intro hmem
      obtain ⟨digit, _, hdigit⟩ := List.mem_map.mp hmem
      exact isAlphabet_url.charOf_ne digit (by decide) hdigit
    · right
      -- One `=` after two leftover digits is the only padding that is not whole.
      have hpartial : ¬(digits.length % 4 = 2 ∧ pads = 1) := by
        rintro ⟨htwo, rfl⟩
        exact hnone ⟨digits, htwo, rfl⟩
      rw [List.length_append, List.length_map, List.length_replicate]
      omega

/-- `Zg=` is accepted as base64url, with one of the two padding characters. -/
theorem base64urlDecode_partialPadding :
    ¬((∃ x, base64urlDecode (text "Zg=") = .ok x) →
      padChar ∉ text "Zg=" ∨ 4 ∣ (text "Zg=").length) := by
  intro hall
  have hpadding := hall ⟨text "f", by decide +kernel⟩
  exact absurd hpadding (by decide)

/-! ## Armor -/

/-- A text with `\r\n` in the place of every `\n`, as another system would write it. -/
def crlf (input : List UInt8) : List UInt8 :=
  input.flatMap fun c => if c = lineFeed then [carriageReturn, lineFeed] else [c]

lemma crlf_append (first second : List UInt8) :
    crlf (first ++ second) = crlf first ++ crlf second :=
  List.flatMap_append

lemma crlf_eq_self {line : List UInt8} (h : ∀ c ∈ line, c ≠ lineFeed) : crlf line = line := by
  induction line with
  | nil => rfl
  | cons c line ih =>
      obtain ⟨hc, hline⟩ := List.forall_mem_cons.mp h
      rw [crlf, List.flatMap_cons, if_neg hc, ← crlf, ih hline]
      rfl

lemma crlf_lines {lines : List (List UInt8)} (h : ∀ line ∈ lines, ∀ c ∈ line, c ≠ lineFeed) :
    crlf (lines.flatMap (· ++ [lineFeed])) =
      lines.flatMap (· ++ [carriageReturn, lineFeed]) := by
  induction lines with
  | nil => rfl
  | cons line lines ih =>
      obtain ⟨hline, hlines⟩ := List.forall_mem_cons.mp h
      rw [List.flatMap_cons, List.flatMap_cons, crlf_append, crlf_append, crlf_eq_self hline,
        ih hlines]
      rfl

lemma crlf_armor {label : List UInt8} (hlabel : isValidPemLabel label = true)
    (payload : List UInt8) :
    crlf (armor [lineFeed] label payload) = armor [carriageReturn, lineFeed] label payload := by
  have hline : ∀ {line : List UInt8}, IsLine line → crlf line = line :=
    fun h => crlf_eq_self fun c hc => (h c hc).1
  have hlines : ∀ line ∈ blocks 64 (base64Encode payload), ∀ c ∈ line, c ≠ lineFeed :=
    fun line hmem c hc => (bodyLine_chars hmem c hc).1
  have hbody := crlf_lines hlines
  obtain ⟨hbegin, hend, hhyphens⟩ := isLine_texts
  simp only [armor, crlf_append, hbody, hline (isLine_of_valid hlabel), hline hbegin, hline hend,
    hline hhyphens]
  rfl

/-- Armor is written for exactly the labels of printable characters without hyphens and without
spaces at the ends; it is opened with the label and the payload it was written for, also with the
other line end and with empty lines behind it; and no line of a payload has a hyphen, with which
every boundary starts. -/
theorem pem_decode_encode (label payload : List UInt8) :
    ((∃ armored, pemEncode label payload = .ok armored) ↔
      label ≠ [] ∧ (∀ c ∈ label, 0x20 ≤ c ∧ c ≤ 0x7e ∧ c ≠ hyphen) ∧
        label.head? ≠ some space ∧ label.getLast? ≠ some space) ∧
    (∀ armored, pemEncode label payload = .ok armored → ∀ emptyLines : List (List UInt8),
      (∀ line ∈ emptyLines, line = [lineFeed] ∨ line = [carriageReturn, lineFeed]) →
      pemDecode (armored ++ emptyLines.flatten) = .ok ⟨label, payload⟩ ∧
      pemDecode (crlf armored ++ emptyLines.flatten) = .ok ⟨label, payload⟩) ∧
    (∀ line ∈ blocks 64 (base64Encode payload), hyphen ∉ line) := by
  refine ⟨?_, ?_, fun line hline hmem => (bodyLine_chars hline hyphen hmem).2.2 rfl⟩
  · rw [← isValidPemLabel_iff]
    constructor
    · rintro ⟨armored, h⟩
      obtain ⟨_, hlabel, _⟩ := bind_eq_ok.mp h
      exact require_eq_ok.mp hlabel
    · intro hlabel
      exact ⟨_, pemEncode_eq hlabel payload⟩
  · intro armored h emptyLines hempty
    obtain ⟨_, hrequire, _⟩ := bind_eq_ok.mp h
    have hlabel := require_eq_ok.mp hrequire
    rw [pemEncode_eq hlabel] at h
    cases h
    rw [crlf_armor hlabel]
    exact ⟨pemDecode_armor hlabel (Or.inl rfl) payload hempty (base64Decode_encode payload),
      pemDecode_armor hlabel (Or.inr rfl) payload hempty (base64Decode_encode payload)⟩

end CryptoCore
