import CryptoCore.Framework.TextLines
import CryptoCore.Properties.Encoding

/-!
# What opens as PEM

A text opens exactly when its lines, each without a carriage return at its end, are a begin
boundary, a body, an end boundary with the same label and nothing but empty lines, and the lines of
the body, joined together, decode from base64 to the payload. The body may be cut at any places, and
it may have unused bits that the encoder would not write.

The code reads the text line by line, in two loops of which the first stops at the first line that
starts like an end boundary. `IsArmor` says the same of the list of all lines at once. The loops are
related to it in both directions: `body_of_pemBodyLoop` reads the lines off a loop that has ended
well, and `pemBodyLoop_of_lines` runs the loop on lines of that shape.

A boundary is the text around a label (`pemBoundary_eq_ok_iff`). What has to be ruled out is that
its two parts overlap in a short line; they cannot, as the one ends with a space and the other has
none. One more corner is that the first line needs a line end, which it has when another line
follows.
-/

namespace CryptoCore

open Encoding TextLines

namespace Encoding

/-- The lines of a text, each without the carriage return at its end. -/
def trimmedLines (input : List UInt8) : List (List UInt8) :=
  (lines lineFeed input).map trimTrailingCr

/-- The begin boundary of a label. -/
def beginLine (label : List UInt8) : List UInt8 :=
  text "-----BEGIN " ++ label ++ text "-----"

/-- The end boundary of a label. -/
def endLine (label : List UInt8) : List UInt8 :=
  text "-----END " ++ label ++ text "-----"

/-- What armor may look like: its lines, without their ends. No line of the body starts like an end
boundary. -/
structure IsArmor (label payloadText : List UInt8) (armorLines : List (List UInt8)) : Prop where
  label_valid : isValidPemLabel label = true
  lines_eq : ∃ body trailer, armorLines = beginLine label :: (body ++ endLine label :: trailer) ∧
    (∀ line ∈ body, (text "-----END ").isPrefixOf line = false) ∧
    (∀ line ∈ trailer, line = []) ∧ payloadText = body.flatten

/-! ## Lines -/

lemma trimmedLines_of_ne_nil {input : List UInt8} (h : input ≠ []) :
    trimmedLines input = trimTrailingCr (nextLine input).1 :: trimmedLines (nextLine input).2 := by
  rw [trimmedLines, lines_of_ne_nil lineFeed h]
  rfl

@[simp] lemma trimmedLines_nil : trimmedLines [] = [] := rfl

lemma trimmedLines_eq_cons_iff {input line : List UInt8} {later : List (List UInt8)} :
    trimmedLines input = line :: later ↔ input ≠ [] ∧ trimTrailingCr (nextLine input).1 = line ∧
      trimmedLines (nextLine input).2 = later := by
  by_cases h : input = []
  · subst h
    exact iff_of_false nofun fun h => h.1 rfl
  · rw [trimmedLines_of_ne_nil h, List.cons.injEq]
    exact ⟨fun heq => ⟨h, heq⟩, fun heq => heq.2⟩

lemma length_nextLine_lt {input : List UInt8} (h : input ≠ []) :
    (nextLine input).2.length < input.length :=
  length_drop_dropWhile_lt lineFeed h

/-- A text whose first line does not end in a separator has no second line. -/
lemma mem_of_trimmedLines {input first second : List UInt8} {later : List (List UInt8)}
    (h : trimmedLines input = first :: second :: later) : lineFeed ∈ input := by
  obtain ⟨hne, -, hlater⟩ := trimmedLines_eq_cons_iff.mp h
  by_contra hmem
  have hall : ∀ c ∈ input, (c != lineFeed) = true := by
    intro c hc
    rw [bne_iff_ne]
    rintro rfl
    exact hmem hc
  rw [nextLine, List.dropWhile_eq_nil_iff.mpr hall] at hlater
  cases hlater

/-! ## Boundaries -/

/-- The two parts of a boundary do not overlap: the one ends with a space and the other has none. -/
lemma boundary_length_le {front line : List UInt8} {k : ℕ} (hstart : front ++ [space] <+: line)
    (hfinish : List.replicate k hyphen <:+ line) :
    (front ++ [space]).length + k ≤ line.length := by
  obtain ⟨rest, rfl⟩ := hstart
  obtain ⟨body, hbody⟩ := hfinish
  by_contra hlt
  rw [List.length_append, not_le] at hlt
  have hlengths := congrArg List.length hbody
  simp only [List.length_append, List.length_replicate, List.length_singleton] at hlengths hlt
  -- the space would be one of the hyphens
  have hspace : (front ++ [space] ++ rest)[front.length]? = some space := by
    rw [List.append_assoc, List.getElem?_append_right (Nat.le_refl _), Nat.sub_self]
    rfl
  rw [← hbody, List.getElem?_append_right (by omega), List.getElem?_replicate,
    if_pos (by omega)] at hspace
  exact absurd (Option.some.inj hspace) (by decide)

/-- A boundary is read exactly from the text around a label. -/
lemma pemBoundary_eq_ok_iff (front : List UInt8) (k : ℕ) {line label : List UInt8} :
    pemBoundary line (front ++ [space]) (List.replicate k hyphen) = .ok label ↔
      isValidPemLabel label = true ∧
        line = front ++ [space] ++ label ++ List.replicate k hyphen := by
  constructor
  · intro h
    rw [pemBoundary] at h
    obtain ⟨haround, h⟩ := require_bind_eq_ok.mp h
    obtain ⟨hvalid, h⟩ := require_bind_eq_ok.mp h
    cases h
    simp only [Bool.and_eq_true, List.isPrefixOf_iff_prefix, List.isSuffixOf_iff_suffix]
      at haround
    have hlength := boundary_length_le haround.1 haround.2
    refine ⟨hvalid, ?_⟩
    obtain ⟨⟨rest, rfl⟩, hfinish⟩ := haround
    have hsuffix : List.replicate k hyphen <:+ rest := by
      apply List.suffix_of_suffix_length_le hfinish (List.suffix_append _ _)
      rw [List.length_replicate]
      simp only [List.length_append] at hlength
      omega
    obtain ⟨middle, rfl⟩ := hsuffix
    have hcut : (front ++ [space] ++ (middle ++ List.replicate k hyphen)).length -
        (front ++ [space]).length - (List.replicate k hyphen).length = middle.length := by
      simp only [List.length_append]
      omega
    rw [hcut, List.drop_left, List.take_left]
    simp only [List.append_assoc]
  · rintro ⟨hvalid, rfl⟩
    exact pemBoundary_eq _ _ hvalid

lemma beginBoundary_eq_ok_iff {line label : List UInt8} :
    pemBoundary line (text "-----BEGIN ") (text "-----") = .ok label ↔
      isValidPemLabel label = true ∧ line = beginLine label :=
  pemBoundary_eq_ok_iff (text "-----BEGIN") 5

lemma endBoundary_eq_ok_iff {line label : List UInt8} :
    pemBoundary line (text "-----END ") (text "-----") = .ok label ↔
      isValidPemLabel label = true ∧ line = endLine label :=
  pemBoundary_eq_ok_iff (text "-----END") 5

lemma isPrefixOf_endLine (label : List UInt8) :
    (text "-----END ").isPrefixOf (endLine label) = true := by
  rw [List.isPrefixOf_iff_prefix, endLine, List.append_assoc]
  exact List.prefix_append _ _

/-! ## The loops -/

/-- What the loop over the body returned: the lines before the first end boundary. -/
lemma body_of_pemBodyLoop {rounds : ℕ} {payloadText rest payloadText' label rest' : List UInt8}
    (h : pemBodyLoop rounds payloadText rest = .ok (some (payloadText', label, rest'))) :
    isValidPemLabel label = true ∧ ∃ body : List (List UInt8),
      trimmedLines rest = body ++ endLine label :: trimmedLines rest' ∧
      (∀ line ∈ body, (text "-----END ").isPrefixOf line = false) ∧
      payloadText' = payloadText ++ body.flatten := by
  induction rounds generalizing payloadText rest with
  | zero => cases h
  | succ rounds ih =>
      rw [pemBodyLoop] at h
      split at h
      next => cases h
      next hne =>
        rw [List.isEmpty_iff] at hne
        rw [trimmedLines_of_ne_nil hne]
        dsimp only at h
        split at h
        next =>
          obtain ⟨endLabel, hend, h⟩ := Loops.bind_eq_ok.mp h
          cases h
          obtain ⟨hvalid, hline⟩ := endBoundary_eq_ok_iff.mp hend
          exact ⟨hvalid, [], by rw [hline]; rfl, List.forall_mem_nil _, by simp⟩
        next hnot =>
          obtain ⟨hvalid, body, hlines, hbody, htext⟩ := ih h
          refine ⟨hvalid, trimTrailingCr (nextLine rest).1 :: body, by rw [hlines]; rfl, ?_, ?_⟩
          · exact List.forall_mem_cons.mpr ⟨eq_false_of_ne_true hnot, hbody⟩
          · rw [htext, List.flatten_cons, List.append_assoc]

/-- The lines before the first end boundary are put together. -/
lemma pemBodyLoop_of_lines {body trailer : List (List UInt8)} {label : List UInt8}
    (hvalid : isValidPemLabel label = true)
    (hbody : ∀ line ∈ body, (text "-----END ").isPrefixOf line = false) :
    ∀ (rounds : ℕ) {rest : List UInt8} (payloadText : List UInt8), rest.length ≤ rounds →
      trimmedLines rest = body ++ endLine label :: trailer →
      ∃ rest', pemBodyLoop rounds payloadText rest =
          .ok (some (payloadText ++ body.flatten, label, rest')) ∧
        trimmedLines rest' = trailer := by
  induction body with
  | nil =>
      intro rounds rest payloadText hrounds hlines
      obtain ⟨hne, hline, hlater⟩ := trimmedLines_eq_cons_iff.mp hlines
      have hpos := List.length_pos_iff.mpr hne
      obtain ⟨rounds, rfl⟩ := Nat.exists_eq_succ_of_ne_zero (show rounds ≠ 0 by omega)
      refine ⟨(nextLine rest).2, ?_, hlater⟩
      rw [pemBodyLoop, if_neg (by rwa [List.isEmpty_iff])]
      simp only [hline, isPrefixOf_endLine, if_true,
        endBoundary_eq_ok_iff.mpr ⟨hvalid, rfl⟩, ok_bind, List.flatten_nil, List.append_nil]
      rfl
  | cons line body ih =>
      intro rounds rest payloadText hrounds hlines
      obtain ⟨hnot, hbody⟩ := List.forall_mem_cons.mp hbody
      obtain ⟨hne, hline, hlater⟩ := trimmedLines_eq_cons_iff.mp hlines
      have hlt := length_nextLine_lt hne
      obtain ⟨rounds, rfl⟩ := Nat.exists_eq_succ_of_ne_zero (show rounds ≠ 0 by omega)
      obtain ⟨rest', hloop, htrailer⟩ := ih hbody rounds (payloadText ++ line) (by omega)
        hlater
      refine ⟨rest', ?_, htrailer⟩
      rw [pemBodyLoop, if_neg (by rwa [List.isEmpty_iff])]
      simp only [hline, hnot, Bool.false_eq_true, if_false]
      rw [hloop, List.flatten_cons, List.append_assoc]

/-- The loop over the trailer lets empty lines pass. -/
lemma pemTrailerLoop_eq_ok_iff {rounds : ℕ} {rest : List UInt8} (hrounds : rest.length ≤ rounds) :
    pemTrailerLoop rounds rest = .ok () ↔ ∀ line ∈ trimmedLines rest, line = [] := by
  induction rounds generalizing rest with
  | zero =>
      rw [List.eq_nil_of_length_eq_zero (Nat.le_zero.mp hrounds)]
      exact iff_of_true rfl nofun
  | succ rounds ih =>
      rw [pemTrailerLoop]
      split
      next hempty =>
        rw [List.isEmpty_iff.mp hempty]
        exact iff_of_true rfl nofun
      next hne =>
        rw [List.isEmpty_iff] at hne
        have hlt := length_nextLine_lt hne
        rw [require_bind_eq_ok, ih (by omega), trimmedLines_of_ne_nil hne, List.forall_mem_cons,
          List.isEmpty_iff]

end Encoding

/-- A text opens with a label and a payload exactly when its lines are armor of that label around a
body that decodes to that payload. -/
theorem pemDecode_eq_ok_iff (input label payload : List UInt8) :
    pemDecode input = .ok ⟨label, payload⟩ ↔
      ∃ payloadText, IsArmor label payloadText (trimmedLines input) ∧
        base64Decode payloadText = .ok payload := by
  constructor
  · intro h
    rw [pemDecode] at h
    obtain ⟨hfeed, h⟩ := require_bind_eq_ok.mp h
    have hne : input ≠ [] := List.ne_nil_of_mem (List.contains_iff_mem.mp hfeed)
    obtain ⟨beginLabel, hbegin, h⟩ := Loops.bind_eq_ok.mp h
    obtain ⟨body, hloop, h⟩ := Loops.bind_eq_ok.mp h
    obtain ⟨hvalid, hfirst⟩ := beginBoundary_eq_ok_iff.mp hbegin
    rcases body with _ | ⟨payloadText, endLabel, rest⟩
    · cases h
    · obtain ⟨hlabels, h⟩ := require_bind_eq_ok.mp h
      obtain ⟨_, htrailer, h⟩ := Loops.bind_eq_ok.mp h
      obtain ⟨decoded, hdecode, h⟩ := Loops.bind_eq_ok.mp h
      cases h
      rw [beq_iff_eq] at hlabels
      subst hlabels
      -- The loop consumed the lines up to the end boundary and joined what stood before it.
      obtain ⟨-, body, hlines, hbody, htext⟩ := body_of_pemBodyLoop hloop
      change trimmedLines (nextLine input).2 = _ at hlines
      change trimTrailingCr (nextLine input).1 = _ at hfirst
      refine ⟨payloadText, ⟨hvalid, body, trimmedLines rest, ?_, hbody, ?_, htext⟩, hdecode⟩
      · rw [trimmedLines_of_ne_nil hne, hlines, hfirst]
      · exact (pemTrailerLoop_eq_ok_iff (Nat.le_refl _)).mp htrailer
  · rintro ⟨payloadText, ⟨hvalid, body, trailer, hlines, hbody, htrailer, rfl⟩, hdecode⟩
    obtain ⟨hne, hfirst, hlater⟩ := trimmedLines_eq_cons_iff.mp hlines
    -- There is a line after the first, so the text has a line feed, which the source asks for.
    have hfeed : input.contains lineFeed = true := by
      rw [List.contains_iff_mem]
      cases body with
      | nil => exact mem_of_trimmedLines hlines
      | cons line body => exact mem_of_trimmedLines hlines
    obtain ⟨rest, hloop, hrest⟩ := pemBodyLoop_of_lines hvalid hbody _ [] (Nat.le_refl _) hlater
    have hempty := (pemTrailerLoop_eq_ok_iff (Nat.le_refl rest.length)).mpr (by rwa [hrest])
    rw [List.nil_append] at hloop
    rw [pemDecode, hfeed, require_true, ok_bind]
    simp only [hfirst, beginBoundary_eq_ok_iff.mpr ⟨hvalid, rfl⟩, ok_bind, hloop,
      beq_self_eq_true, require_true, hempty, hdecode]
    rfl

end CryptoCore
