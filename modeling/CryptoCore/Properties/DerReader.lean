import CryptoCore.Framework.CheckedAccess
import CryptoCore.Construction.EcDer
import CryptoCore.Construction.RsaDer

/-!
# The two DER readers

The readers of the RSA and of the EC parsers, written a second time with every access and every step
of their size arithmetic checked. The checked reader returns its outcome together with the offset
that it leaves behind, also where it fails. `derReaders_agree` follows both readers through any
sequence of reads.

The two readers of the source differ in the check that keeps a length from overflowing and in the
category of their errors; both are the one reader of the construction with a dialect.
`DerDialect.Exact` is what is needed of a dialect: its check lets a length through exactly when it
stays in range. Agreement then needs no comparison of the two readers. What either of them reads is
one canonical encoding at the front of the unread bytes, and what is such an encoding every exact
dialect reads.

`Follows` relates the checked reader to the plain one. It has no case for a fault, so that it says
at once that the checked run ends, that its offset is inside the input, and that its outcome is the
plain one.
-/

namespace CryptoCore

open ByteStrings CheckedAccess DerReader

namespace CheckedDerReader

section Reader

variable (dialect : DerDialect) (data : List UInt8)

/-- The room that `length << 8` needs. The shift of the source would drop the bits that leave the
size. -/
def shiftRoom (length : UInt64) : Checked Unit :=
  if length.toNat * 2 ^ 8 < 2 ^ 64 then .ok () else .error .wrapAround

/-- The tag at the offset without moving it, zero at the end of the input. -/
def nextTag (offset : ℕ) : Checked UInt8 :=
  if data.length ≤ offset then .ok 0
  else CheckedAccess.read data offset

/-- The octets of a long length. The check of the dialect comes first, then the shift. -/
def readOctets : ℕ → UInt64 → ℕ → Checked (Result UInt64 × ℕ)
  | 0, length, offset => .ok (.ok length, offset)
  | n + 1, length, offset => do
      let octet ← CheckedAccess.read data offset
      match dialect.shiftIn length octet with
      | .error e => .ok (.error e, offset)
      | .ok shifted => do
          shiftRoom length
          let offset ← addSize offset 1
          readOctets n shifted offset

/-- A length in its short or in its long form, with the checks in the order of the source. -/
def readLength (offset : ℕ) : Checked (Result UInt64 × ℕ) :=
  if data.length ≤ offset then .ok (.error (dialect.error "missing DER length"), offset)
  else do
    let first ← CheckedAccess.read data offset
    let offset ← addSize offset 1
    if first &&& 0x80 = 0 then .ok (.ok first.toUInt64, offset)
    else do
      let lengthOctets := (first &&& 0x7F).toNat
      let unread ← subSize data.length offset
      if lengthOctets = 0 ∨ lengthOctets > 8 ∨ lengthOctets > unread then
        .ok (.error (dialect.error "invalid DER long length"), offset)
      else do
        let head ← CheckedAccess.read data offset
        if head = 0 then .ok (.error (dialect.error "DER length is not minimally encoded"), offset)
        else do
          let (outcome, offset) ← readOctets dialect data lengthOctets 0 offset
          match outcome with
          | .error e => .ok (.error e, offset)
          | .ok length =>
              if length < 128 then
                .ok (.error (dialect.error "DER length uses overlong encoding"), offset)
              else .ok (.ok length, offset)

/-- One element with its tag. The offset is left where the reader stops, also when it fails. -/
def read (expectedTag : UInt8) (offset : ℕ) : Checked (Result (List UInt8) × ℕ) :=
  if data.length ≤ offset then .ok (.error (dialect.error "unexpected DER tag"), offset)
  else do
    let tag ← CheckedAccess.read data offset
    if tag ≠ expectedTag then .ok (.error (dialect.error "unexpected DER tag"), offset)
    else do
      let offset ← addSize offset 1
      let (outcome, offset) ← readLength dialect data offset
      match outcome with
      | .error e => .ok (.error e, offset)
      | .ok length => do
          let unread ← subSize data.length offset
          if length.toNat > unread then
            .ok (.error (dialect.error "DER length exceeds input"), offset)
          else do
            let content ← slice data offset length.toNat
            let offset ← addSize offset length.toNat
            .ok (.ok content, offset)

/-- The reads of a sequence of tags, up to the first that fails. -/
def readSequence : List UInt8 → ℕ → Checked (Result (List (List UInt8)) × ℕ)
  | [], offset => .ok (.ok [], offset)
  | tag :: tags, offset => do
      let (outcome, offset) ← read dialect data tag offset
      match outcome with
      | .error e => .ok (.error e, offset)
      | .ok content => do
          let (outcome, offset) ← readSequence tags offset
          .ok (outcome.map (content :: ·), offset)

end Reader

/-- The checked run does not fault, stays inside the input and has the outcome of the reader. -/
inductive Follows {α : Type} (data : List UInt8) :
    Checked (Result α × ℕ) → Result (α × DerReader) → Prop
  | error (e : Error) {offset : ℕ} (h : offset ≤ data.length) :
      Follows data (.ok (.error e, offset)) (.error e)
  | ok (a : α) {r : DerReader} (h : r.data = data) :
      Follows data (.ok (.ok a, r.offset)) (.ok (a, r))

lemma Follows.data_eq {α : Type} {data : List UInt8} {checked : Checked (Result α × ℕ)} {a : α}
    {r : DerReader} (h : Follows data checked (.ok (a, r))) : r.data = data := by
  cases h with
  | ok _ hdata => exact hdata

section Runs

variable {dialect : DerDialect} {r : DerReader}

lemma next_of_lt (h : r.offset < r.data.length) :
    r.next = some (r.data[r.offset], ⟨r.data, r.offset + 1, h⟩) :=
  dif_pos h

lemma next_of_le (h : r.data.length ≤ r.offset) : r.next = none :=
  dif_neg (Nat.not_lt.mpr h)

lemma read_of_lt (h : r.offset < r.data.length) :
    CheckedAccess.read r.data r.offset = .ok r.data[r.offset] := by
  rw [CheckedAccess.read, List.getElem?_eq_getElem h]

lemma nextTag_eq : nextTag r.data r.offset = .ok r.nextTag := by
  rw [nextTag, DerReader.nextTag]
  split
  next hend => rw [rest, List.drop_eq_nil_of_le hend, List.headD_nil]
  next hend =>
    rw [read_of_lt (Nat.lt_of_not_le hend), rest,
      List.drop_eq_getElem_cons (Nat.lt_of_not_le hend), List.headD_cons]

lemma shiftRoom_eq {length : UInt64} (h : length.toNat < 2 ^ 56) : shiftRoom length = .ok () :=
  if_pos (by omega)

lemma readOctets_follows (hd : dialect.Exact) (hsize : r.data.length < 2 ^ 64) (n : ℕ)
    {length : UInt64} (hn : n ≤ 8) (hfit : length.toNat < 256 ^ (8 - n))
    (hroom : n ≤ r.data.length - r.offset) :
    Follows r.data (readOctets dialect r.data n length r.offset)
      (DerReader.readOctets dialect n length r) := by
  induction n generalizing r length with
  | zero => exact .ok length rfl
  | succ n ih =>
      have hlt : r.offset < r.data.length := by omega
      have hlength : length.toNat < 2 ^ 56 := hfit.trans_le (by
        rw [show (2 : ℕ) ^ 56 = 256 ^ 7 by norm_num]
        exact Nat.pow_le_pow_right (by norm_num) (by omega))
      obtain ⟨shifted, hshift, hval⟩ := hd length r.data[r.offset] hlength
      have hoctet : r.data[r.offset].toNat < 256 := UInt8.toNat_lt _
      have hfit' : shifted.toNat < 256 ^ (8 - n) := by
        rw [hval, show 8 - n = 8 - (n + 1) + 1 by omega, pow_succ]
        omega
      rw [readOctets, read_of_lt hlt, checked_bind, DerReader.readOctets, next_of_lt hlt]
      simp only [hshift, shiftRoom_eq hlength, checked_bind, ok_bind]
      rw [addSize_eq (by omega), checked_bind]
      exact ih (r := ⟨r.data, r.offset + 1, hlt⟩) hsize (by omega) hfit' (by simp only; omega)

lemma readLength_follows (hd : dialect.Exact) (hsize : r.data.length < 2 ^ 64) :
    Follows r.data (readLength dialect r.data r.offset) (DerReader.readLength dialect r) := by
  rw [readLength, DerReader.readLength]
  by_cases hend : r.data.length ≤ r.offset
  · rw [if_pos hend, next_of_le hend]
    exact .error _ r.offset_le
  have hlt : r.offset < r.data.length := Nat.lt_of_not_le hend
  rw [if_neg hend, read_of_lt hlt, checked_bind, next_of_lt hlt, addSize_eq (by omega),
    checked_bind]
  set first := r.data[r.offset] with hfirst
  -- The reader after the first octet, at which the octets of a long form begin.
  set r₁ : DerReader := ⟨r.data, r.offset + 1, hlt⟩ with hr₁
  simp only
  by_cases hshort : first &&& 0x80 = 0
  · rw [if_pos hshort, if_pos hshort]
    exact .ok (r := r₁) _ rfl
  rw [if_neg hshort, if_neg hshort, subSize_eq hlt, checked_bind]
  by_cases hcount : (first &&& 0x7F).toNat = 0 ∨ (first &&& 0x7F).toNat > 8 ∨
      (first &&& 0x7F).toNat > r.data.length - (r.offset + 1)
  · rw [if_pos hcount, if_pos hcount]
    exact .error _ hlt
  rw [if_neg hcount, if_neg hcount]
  have hlt₁ : r₁.offset < r₁.data.length := by
    simp only [hr₁]
    omega
  have hhead : r₁.rest.headD 0 = r₁.data[r₁.offset] := by
    rw [rest, List.drop_eq_getElem_cons hlt₁, List.headD_cons]
  rw [show CheckedAccess.read r.data (r.offset + 1) = _ from read_of_lt hlt₁, checked_bind, hhead]
  by_cases hzero : r₁.data[r₁.offset] = 0
  · rw [if_pos hzero, if_pos hzero]
    exact .error _ hlt
  rw [if_neg hzero, if_neg hzero]
  -- A long form: the loop over the octets is followed as a whole, and only the last test is left.
  have hoctets : Follows r.data
      (readOctets dialect r.data (first &&& 0x7F).toNat 0 (r.offset + 1))
      (DerReader.readOctets dialect (first &&& 0x7F).toNat 0 r₁) :=
    readOctets_follows (r := r₁) hd hsize _ (by omega)
      (by rw [UInt64.toNat_zero]; positivity) (by simp only [hr₁]; omega)
  revert hoctets
  generalize readOctets dialect r.data (first &&& 0x7F).toNat 0 (r.offset + 1) = checked
  generalize DerReader.readOctets dialect (first &&& 0x7F).toNat 0 r₁ = result
  rintro (⟨e, hoffset⟩ | ⟨length, hdata⟩)
  · exact .error e hoffset
  · simp only [checked_bind, ok_bind]
    by_cases hover : length < 128
    · rw [if_pos hover, show (!decide (length < 128)) = false by simpa using hover, require_false,
        error_bind]
      exact .error _ (hdata ▸ DerReader.offset_le _)
    · rw [if_neg hover, show (!decide (length < 128)) = true by simpa using hover, require_true,
        ok_bind]
      exact .ok length hdata

theorem read_follows (hd : dialect.Exact) (hsize : r.data.length < 2 ^ 64) (tag : UInt8) :
    Follows r.data (read dialect r.data tag r.offset) (DerReader.read dialect tag r) := by
  rw [read, DerReader.read]
  by_cases hend : r.data.length ≤ r.offset
  · rw [if_pos hend, next_of_le hend]
    exact .error _ r.offset_le
  have hlt : r.offset < r.data.length := Nat.lt_of_not_le hend
  rw [if_neg hend, read_of_lt hlt, checked_bind, next_of_lt hlt]
  simp only
  by_cases htag : r.data[r.offset] ≠ tag
  · rw [if_pos htag, if_pos htag]
    exact .error _ r.offset_le
  rw [if_neg htag, if_neg htag, addSize_eq (by omega), checked_bind]
  have hlength : Follows r.data (readLength dialect r.data (r.offset + 1))
      (DerReader.readLength dialect ⟨r.data, r.offset + 1, hlt⟩) :=
    readLength_follows (r := ⟨r.data, r.offset + 1, hlt⟩) hd hsize
  revert hlength
  generalize readLength dialect r.data (r.offset + 1) = checked
  generalize DerReader.readLength dialect ⟨r.data, r.offset + 1, hlt⟩ = result
  rintro (⟨e, hoffset⟩ | @⟨length, r₂, hdata⟩)
  · exact .error e hoffset
  have hle : r₂.offset ≤ r.data.length := hdata ▸ r₂.offset_le
  simp only [checked_bind, ok_bind]
  rw [subSize_eq hle, checked_bind, take]
  by_cases hroom : length.toNat ≤ r₂.data.length - r₂.offset
  · have hroom' : length.toNat ≤ r.data.length - r₂.offset := hdata ▸ hroom
    rw [dif_pos hroom, if_neg (Nat.not_lt.mpr hroom'), slice_eq (by omega), checked_bind,
      addSize_eq (by omega), checked_bind, ← hdata]
    exact .ok (r := ⟨r₂.data, r₂.offset + length.toNat, _⟩) _ rfl
  · rw [dif_neg hroom, if_pos (by rw [← hdata]; exact Nat.lt_of_not_le hroom)]
    exact .error _ hle

end Runs

end CheckedDerReader

namespace DerReader

/-- The reads of a sequence of tags, up to the first that fails. -/
def readSequence (dialect : DerDialect) :
    List UInt8 → DerReader → Result (List (List UInt8) × DerReader)
  | [], reader => .ok ([], reader)
  | tag :: tags, reader => do
      let (content, reader) ← reader.read dialect tag
      let (contents, reader) ← readSequence dialect tags reader
      return (content :: contents, reader)

variable {dialect dialect' : DerDialect} {r r' : DerReader}

/-- A read keeps the input, and moves the offset over exactly one canonical encoding. -/
lemma read_consumes (hd : dialect.Exact) (hsize : r.data.length < 2 ^ 64) {tag : UInt8}
    {content : List UInt8} (h : read dialect tag r = .ok (content, r')) :
    r'.data = r.data ∧ r'.offset = r.offset + (Der.tlv tag content).length := by
  have hfollows := CheckedDerReader.read_follows hd hsize tag
  rw [h] at hfollows
  have hdata := hfollows.data_eq
  refine ⟨hdata, ?_⟩
  have hrest := congrArg List.length (read_ok hd h).2
  rw [length_rest, List.length_append, length_rest, hdata] at hrest
  have hle := hdata ▸ r'.offset_le
  have := r.offset_le
  omega

/-- The input in front of the offset. -/
lemma take_offset {front : List UInt8} (h : r.data = front ++ r.rest) :
    r.data.take r.offset = front := by
  refine List.append_cancel_right (?_ : _ ++ r.rest = _ ++ r.rest)
  rw [← h, rest, List.take_append_drop]

lemma eq_of_rest (hdata : r.data = r'.data) (hrest : r.rest = r'.rest) : r = r' := by
  obtain ⟨data, offset, hle⟩ := r
  obtain ⟨data', offset', hle'⟩ := r'
  obtain rfl : data = data' := hdata
  have hlength := congrArg List.length hrest
  rw [length_rest, length_rest] at hlength
  obtain rfl : offset = offset' := by
    simp only at hlength
    omega
  rfl

/-- What one dialect reads every other one does, being the canonical encoding that it is. -/
lemma read_transfer (hd : dialect.Exact) (hd' : dialect'.Exact) (hsize : r.data.length < 2 ^ 64)
    {tag : UInt8} {content : List UInt8} (h : read dialect tag r = .ok (content, r')) :
    read dialect' tag r = .ok (content, r') := by
  obtain ⟨hlength, hrest⟩ := read_ok hd h
  obtain ⟨r₂, hread, hrest₂⟩ := read_of_rest hd' hlength hrest
  have hdata := (read_consumes hd hsize h).1
  have hdata₂ := (read_consumes hd' hsize hread).1
  rw [hread, eq_of_rest (hdata₂.trans hdata.symm) hrest₂]

theorem read_agree (hd : dialect.Exact) (hd' : dialect'.Exact) (hsize : r.data.length < 2 ^ 64)
    (tag : UInt8) : (read dialect tag r).toOption = (read dialect' tag r).toOption := by
  ext ⟨content, r'⟩
  rw [toOption_eq_some, toOption_eq_some]
  exact ⟨read_transfer hd hd' hsize, read_transfer hd' hd hsize⟩

lemma readSequence_cons_ok {tag : UInt8} {tags : List UInt8} {contents : List (List UInt8)} :
    readSequence dialect (tag :: tags) r = .ok (contents, r') ↔
      ∃ content r₁ contents', read dialect tag r = .ok (content, r₁) ∧
        readSequence dialect tags r₁ = .ok (contents', r') ∧ contents = content :: contents' := by
  constructor
  · intro h
    obtain ⟨⟨content, r₁⟩, hread, h⟩ := Loops.bind_eq_ok.mp h
    obtain ⟨⟨contents', r₂⟩, hreads, h⟩ := Loops.bind_eq_ok.mp h
    cases h
    exact ⟨content, r₁, contents', hread, hreads, rfl⟩
  · rintro ⟨content, r₁, contents', hread, hreads, rfl⟩
    rw [readSequence, hread, ok_bind]
    simp only [hreads, ok_bind]
    rfl

/-- The reads of a sequence of tags keep the input and take one canonical encoding a tag off the
unread bytes. -/
lemma readSequence_ok (hd : dialect.Exact) {tags : List UInt8} {contents : List (List UInt8)}
    (hsize : r.data.length < 2 ^ 64) (h : readSequence dialect tags r = .ok (contents, r')) :
    r'.data = r.data ∧ contents.length = tags.length ∧
      r.rest = (List.zipWith Der.tlv tags contents).flatten ++ r'.rest := by
  induction tags generalizing r contents with
  | nil =>
      cases h
      exact ⟨rfl, rfl, rfl⟩
  | cons tag tags ih =>
      obtain ⟨content, r₁, contents', hread, hreads, rfl⟩ := readSequence_cons_ok.mp h
      have hdata := (read_consumes hd hsize hread).1
      obtain ⟨hdata', hlength, hrest⟩ := ih (hdata ▸ hsize) hreads
      refine ⟨hdata'.trans hdata, by rw [List.length_cons, hlength, List.length_cons], ?_⟩
      rw [(read_ok hd hread).2, hrest, List.zipWith_cons_cons, List.flatten_cons,
        List.append_assoc]

lemma readSequence_transfer (hd : dialect.Exact) (hd' : dialect'.Exact) {tags : List UInt8}
    {contents : List (List UInt8)} (hsize : r.data.length < 2 ^ 64)
    (h : readSequence dialect tags r = .ok (contents, r')) :
    readSequence dialect' tags r = .ok (contents, r') := by
  induction tags generalizing r contents with
  | nil =>
      cases h
      rfl
  | cons tag tags ih =>
      obtain ⟨content, r₁, contents', hread, hreads, rfl⟩ := readSequence_cons_ok.mp h
      have hdata := (read_consumes hd hsize hread).1
      exact readSequence_cons_ok.mpr ⟨content, r₁, contents', read_transfer hd hd' hsize hread,
        ih (hdata ▸ hsize) hreads, rfl⟩

theorem readSequence_agree (hd : dialect.Exact) (hd' : dialect'.Exact)
    (hsize : r.data.length < 2 ^ 64) (tags : List UInt8) :
    (readSequence dialect tags r).toOption = (readSequence dialect' tags r).toOption := by
  ext ⟨contents, r'⟩
  rw [toOption_eq_some, toOption_eq_some]
  exact ⟨readSequence_transfer hd hd' hsize, readSequence_transfer hd' hd hsize⟩

end DerReader

namespace CheckedDerReader

theorem readSequence_follows {dialect : DerDialect} {r : DerReader} (hd : dialect.Exact)
    (hsize : r.data.length < 2 ^ 64) (tags : List UInt8) :
    Follows r.data (readSequence dialect r.data tags r.offset)
      (DerReader.readSequence dialect tags r) := by
  induction tags generalizing r with
  | nil => exact .ok [] rfl
  | cons tag tags ih =>
      rw [readSequence, DerReader.readSequence]
      have hread := read_follows hd hsize tag
      revert hread
      generalize read dialect r.data tag r.offset = checked
      generalize DerReader.read dialect tag r = result
      rintro (⟨e, hoffset⟩ | @⟨content, r₁, hdata⟩)
      · exact .error e hoffset
      simp only [checked_bind, ok_bind]
      have hreads := ih (r := r₁) (hdata ▸ hsize)
      rw [hdata] at hreads
      revert hreads
      generalize readSequence dialect r.data tags r₁.offset = checked
      generalize DerReader.readSequence dialect tags r₁ = result
      rintro (⟨e, hoffset⟩ | @⟨contents, r₂, hdata₂⟩)
      · exact .error e hoffset
      · exact .ok (content :: contents) hdata₂

end CheckedDerReader

open DerReader CheckedDerReader

/-- The two readers through any sequence of reads. They succeed together, with the same contents
and the same offset; the reads of either one never leave the input nor wrap a size, also where
they fail, and from every state that they reach a successful read takes exactly one canonical
encoding off the input. -/
theorem derReaders_agree (data : List UInt8) (hsize : data.length < 2 ^ 64) (tags : List UInt8) :
    (DerReader.readSequence RsaDer.dialect tags (ofData data)).toOption =
        (DerReader.readSequence EcDer.dialect tags (ofData data)).toOption ∧
      ∀ dialect, dialect = RsaDer.dialect ∨ dialect = EcDer.dialect →
        Follows data (CheckedDerReader.readSequence dialect data tags 0)
            (DerReader.readSequence dialect tags (ofData data)) ∧
          ∀ contents r, DerReader.readSequence dialect tags (ofData data) = .ok (contents, r) →
            r.data = data ∧ contents.length = tags.length ∧
              data.take r.offset = (List.zipWith Der.tlv tags contents).flatten ∧
              CheckedDerReader.nextTag data r.offset = .ok r.nextTag ∧
              ∀ tag,
                (DerReader.read RsaDer.dialect tag r).toOption =
                    (DerReader.read EcDer.dialect tag r).toOption ∧
                  Follows data (CheckedDerReader.read dialect data tag r.offset)
                    (DerReader.read dialect tag r) ∧
                  ∀ content r', DerReader.read dialect tag r = .ok (content, r') →
                    content.length < Der.maxLength ∧ r'.offset ≤ data.length ∧
                      r'.offset = r.offset + (Der.tlv tag content).length ∧
                      (data.drop r.offset).take (r'.offset - r.offset) = Der.tlv tag content := by
  refine ⟨readSequence_agree RsaDer.dialect_exact EcDer.dialect_exact hsize tags,
    fun dialect hdialect => ?_⟩
  have hd : dialect.Exact := by
    rcases hdialect with rfl | rfl
    · exact RsaDer.dialect_exact
    · exact EcDer.dialect_exact
  refine ⟨readSequence_follows (r := ofData data) hd hsize tags, fun contents r h => ?_⟩
  obtain ⟨hdata, hlength, hrest⟩ := readSequence_ok hd hsize h
  rw [rest_ofData] at hrest
  obtain rfl : r.data = data := hdata
  refine ⟨rfl, hlength, take_offset hrest, nextTag_eq, fun tag => ?_⟩
  refine ⟨read_agree RsaDer.dialect_exact EcDer.dialect_exact hsize tag,
    read_follows hd hsize tag, fun content r' hread => ?_⟩
  obtain ⟨hmax, hrest'⟩ := read_ok hd hread
  obtain ⟨hdata', hoffset⟩ := read_consumes hd hsize hread
  refine ⟨hmax, hdata' ▸ r'.offset_le, hoffset, ?_⟩
  rw [show r.data.drop r.offset = Der.tlv tag content ++ r'.rest from hrest', hoffset,
    Nat.add_sub_cancel_left, List.take_left]

/-- A sequence of two tags, of which the second stands in the middle of a length. -/
theorem derReaders_agree_truncated :
    (DerReader.readSequence RsaDer.dialect [0x05, 0x04] (ofData [5, 0, 4, 0x82, 1])).toOption =
      (DerReader.readSequence EcDer.dialect [0x05, 0x04] (ofData [5, 0, 4, 0x82, 1])).toOption :=
  (derReaders_agree [5, 0, 4, 0x82, 1] (by simp) [0x05, 0x04]).1

end CryptoCore
