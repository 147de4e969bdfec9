import CryptoCore.Framework.Der
import CryptoCore.Construction.Result

/-!
# The DER readers

The RSA and the EC parsers carry a reader each. The two differ in the category of their errors and
in how they shift a length octet in: the EC reader refuses a length that would not fit, the RSA
reader lets the shift wrap. Everything else is one definition here, with that difference as a
parameter, a `DerDialect`; `Construction/RsaDer.lean` and `Construction/EcDer.lean` define the two.

A reader never leaves its input because its offset is bounded by a field, and `next` and `take` are
its only accesses. The lemmas speak of `rest`, the bytes that have not been read, so that no proof
about a container handles an offset.

`read_ok` says what a read accepts, exactly one canonical encoding in the sense of
`Framework/Der.lean`, and `read_of_rest` that every such encoding is accepted. Both need of a
dialect only that it is `Exact`: octets of a length that fits are shifted in without loss. Since a
long form of at most eight octets always fits in 64 bits, the wrapping and the refusal never happen,
which is why one pair of theorems covers both readers. `readInteger_ok` and `readInteger_of_rest`
are the same for the integers, with the shortest magnitude as the value that is returned.
-/

namespace CryptoCore

open ByteStrings

/-- A reader is its input and the offset of the next byte, which never passes the end. -/
structure DerReader where
  data : List UInt8
  offset : ℕ
  offset_le : offset ≤ data.length

/-- What distinguishes the two readers: the category under which they report, and the way an octet
enters a length. -/
structure DerDialect where
  category : String
  /-- `length = (length << 8) | octet`. -/
  shiftIn : UInt64 → UInt8 → Result UInt64

namespace DerDialect

def error (dialect : DerDialect) (message : String) : Error :=
  makeError .invalidKey dialect.category message

end DerDialect

namespace DerReader

/-- A reader at the start of its input. The parsers open one for every constructed element. -/
def ofData (data : List UInt8) : DerReader :=
  ⟨data, 0, Nat.zero_le _⟩

/-- Whether everything was read; the parsers require it at the end of each element. -/
def empty (reader : DerReader) : Bool :=
  reader.offset == reader.data.length

/-- The unread bytes. All statements about readers are about these. -/
def rest (reader : DerReader) : List UInt8 :=
  reader.data.drop reader.offset

/-- The byte at the offset, and the reader behind it. At the end of the input there is none. -/
def next (reader : DerReader) : Option (UInt8 × DerReader) :=
  if h : reader.offset < reader.data.length then
    some (reader.data[reader.offset], ⟨reader.data, reader.offset + 1, h⟩)
  else none

/-- The next `n` bytes, and the reader behind them, provided that so many are left. -/
def take (n : ℕ) (reader : DerReader) : Option (List UInt8 × DerReader) :=
  if h : n ≤ reader.data.length - reader.offset then
    some (reader.rest.take n, ⟨reader.data, reader.offset + n, by
      have := reader.offset_le
      omega⟩)
  else none

/-- The loop over the octets of a long length. The bound on their number has been checked before, so
the error for a missing octet is never reached from `readLength`. -/
def readOctets (dialect : DerDialect) : ℕ → UInt64 → DerReader → Result (UInt64 × DerReader)
  | 0, length, reader => .ok (length, reader)
  | n + 1, length, reader =>
      match reader.next with
      | none => .error (dialect.error "invalid DER long length")
      | some (octet, reader) => do
          let length ← dialect.shiftIn length octet
          readOctets dialect n length reader

/-- A length in short or in long form. At most eight octets, none of them missing, and the first of
them not zero; a long form for what fits in the short one is refused as well. -/
def readLength (dialect : DerDialect) (reader : DerReader) : Result (UInt64 × DerReader) :=
  match reader.next with
  | none => .error (dialect.error "missing DER length")
  | some (first, reader) =>
      if first &&& 0x80 = 0 then .ok (first.toUInt64, reader)
      else
        -- The long form: the low seven bits count the octets of the length.
        let lengthOctets := (first &&& 0x7F).toNat
        if lengthOctets = 0 ∨ lengthOctets > 8 ∨
            lengthOctets > reader.data.length - reader.offset then
          .error (dialect.error "invalid DER long length")
        else if reader.rest.headD 0 = 0 then
          .error (dialect.error "DER length is not minimally encoded")
        else do
          let (length, reader) ← readOctets dialect lengthOctets 0 reader
          require (!(length < 128)) (dialect.error "DER length uses overlong encoding")
          return (length, reader)

/-- One element with the expected tag. The content is handed out, and the reader continues behind
it. -/
def read (dialect : DerDialect) (expectedTag : UInt8) (reader : DerReader) :
    Result (List UInt8 × DerReader) :=
  match reader.next with
  | none => .error (dialect.error "unexpected DER tag")
  | some (tag, reader) =>
      if tag ≠ expectedTag then .error (dialect.error "unexpected DER tag")
      else do
        let (length, reader) ← readLength dialect reader
        match reader.take length.toNat with
        | none => .error (dialect.error "DER length exceeds input")
        | some result => .ok result

/-- The INTEGER of a non-negative number, without the zero byte that clears its sign bit. Empty,
negative and padded contents are errors of their own. -/
def readInteger (dialect : DerDialect) (reader : DerReader) : Result (ByteBuffer × DerReader) := do
  let (content, reader) ← reader.read dialect 0x02
  require (!content.isEmpty) (dialect.error "DER integer is empty")
  require (content.headD 0 &&& 0x80 == 0) (dialect.error "DER integer is negative")
  require (!(content.length > 1 && content.headD 0 == 0 && content.getD 1 0 &&& 0x80 == 0))
    (dialect.error "DER integer is not minimally encoded")
  let magnitude := if content.length > 1 && content.headD 0 == 0 then content.drop 1 else content
  return (magnitude, reader)

/-- The tag that comes next, or zero at the end of the input, as the parsers use it for optional
fields. -/
def nextTag (reader : DerReader) : UInt8 :=
  reader.rest.headD 0

/-! ## What a read accepts -/

variable {dialect : DerDialect} {r r' : DerReader}

@[simp] lemma rest_ofData (data : List UInt8) : (ofData data).rest = data := by
  simp [rest, ofData]

lemma empty_iff (r : DerReader) : r.empty = true ↔ r.rest = [] := by
  have := r.offset_le
  rw [empty, beq_iff_eq, rest, List.drop_eq_nil_iff]
  omega

lemma length_rest (r : DerReader) : r.rest.length = r.data.length - r.offset := by
  simp [rest]

lemma next_eq_none_iff : r.next = none ↔ r.rest = [] := by
  rw [next, rest, List.drop_eq_nil_iff]
  split <;> simp <;> omega

/-- Reading one byte takes the head off the unread bytes. -/
lemma next_eq_some {b : UInt8} (h : r.next = some (b, r')) : r.rest = b :: r'.rest := by
  unfold next at h
  split at h
  next hlt =>
    simp only [Option.some.injEq, Prod.mk.injEq] at h
    obtain ⟨rfl, rfl⟩ := h
    rw [rest, List.drop_eq_getElem_cons hlt, rest]
  next => cases h

/-- Where a byte is unread, the read succeeds and leaves the others. -/
lemma next_of_rest {b : UInt8} {bs : List UInt8} (h : r.rest = b :: bs) :
    ∃ r', r.next = some (b, r') ∧ r'.rest = bs := by
  rcases hn : r.next with _ | ⟨c, r'⟩
  · rw [next_eq_none_iff] at hn
    rw [hn] at h
    cases h
  · have := next_eq_some hn
    rw [h, List.cons.injEq] at this
    exact ⟨r', by rw [this.1], this.2.symm⟩

/-- Taking bytes splits them off the front of what is unread. -/
lemma take_eq_some {n : ℕ} {content : List UInt8} (h : r.take n = some (content, r')) :
    content.length = n ∧ r.rest = content ++ r'.rest := by
  unfold take at h
  split at h
  next hle =>
    simp only [Option.some.injEq, Prod.mk.injEq] at h
    obtain ⟨rfl, rfl⟩ := h
    refine ⟨by rw [List.length_take, length_rest, min_eq_left hle], ?_⟩
    simp only [rest]
    rw [← List.drop_drop, List.take_append_drop]
  next => cases h

/-- A prefix of the unread bytes can be taken, whatever follows it. -/
lemma take_of_rest {content bs : List UInt8} (h : r.rest = content ++ bs) :
    ∃ r', r.take content.length = some (content, r') ∧ r'.rest = bs := by
  have hlen := congrArg List.length h
  rw [length_rest, List.length_append] at hlen
  rw [take, dif_pos (by omega), h, List.take_left]
  refine ⟨_, rfl, ?_⟩
  simp only [rest] at h ⊢
  rw [← List.drop_drop, h, List.drop_left]

end DerReader

/-- A dialect that shifts octets into a length exactly as long as the length fits. -/
def DerDialect.Exact (dialect : DerDialect) : Prop :=
  ∀ (length : UInt64) (octet : UInt8), length.toNat < 2 ^ 56 →
    ∃ length', dialect.shiftIn length octet = .ok length' ∧
      length'.toNat = length.toNat * 256 + octet.toNat

/-- The shift of an octet into a length that has room for it: the low bits are free, so that the
disjunction adds. -/
lemma shiftLeft_or_octet (length : UInt64) (octet : UInt8) (h : length.toNat < 2 ^ 56) :
    ((length <<< 8) ||| octet.toUInt64).toNat = length.toNat * 256 + octet.toNat := by
  have hb := octet.toNat_lt
  have hfit : length.toNat * 256 < 2 ^ 64 := by omega
  rw [UInt64.toNat_or, UInt64.toNat_shiftLeft, UInt8.toNat_toUInt64,
    show (8 : UInt64).toNat = 8 from rfl, Nat.shiftLeft_eq, show 2 ^ (8 % 64) = 256 from rfl,
    Nat.mod_eq_of_lt hfit, mul_comm, show (256 : ℕ) = 2 ^ 8 from rfl,
    Nat.two_pow_add_eq_or_of_lt hb]

namespace DerReader

/-- The octets of a length that fits are read exactly, one digit in base 256 at a time. -/
lemma readOctets_of_rest (hd : dialect.Exact) (octets : List UInt8) (length : UInt64)
    (hlen : octets.length ≤ 8) (hfit : length.toNat < 256 ^ (8 - octets.length)) {bs : List UInt8}
    (h : r.rest = octets ++ bs) :
    ∃ L r', readOctets dialect octets.length length r = .ok (L, r') ∧ r'.rest = bs ∧
      L.toNat = length.toNat * 256 ^ octets.length + beValue octets := by
  induction octets generalizing r length with
  | nil => exact ⟨length, r, rfl, h, by simp⟩
  | cons b octets ih =>
      rw [List.length_cons] at hlen hfit
      obtain ⟨r₁, hnext, hrest⟩ := next_of_rest h
      have hlt : length.toNat < 2 ^ 56 := hfit.trans_le (by
        rw [show (2 : ℕ) ^ 56 = 256 ^ 7 by norm_num]
        exact Nat.pow_le_pow_right (by norm_num) (by omega))
      obtain ⟨length', hshift, hval⟩ := hd length b hlt
      have hb : b.toNat + 1 ≤ 256 := b.toNat_lt
      have hfit' : length'.toNat < 256 ^ (8 - octets.length) := by
        rw [hval, show 8 - octets.length = 8 - (octets.length + 1) + 1 by omega, pow_succ]
        calc length.toNat * 256 + b.toNat < (length.toNat + 1) * 256 := by omega
          _ ≤ _ := Nat.mul_le_mul_right _ hfit
      obtain ⟨L, r', hread, hr', hL⟩ := ih length' (by omega) hfit' hrest
      refine ⟨L, r', ?_, hr', ?_⟩
      · rw [List.length_cons, readOctets, hnext]
        simp only [hshift, ok_bind, hread]
      · rw [hL, hval, beValue_cons, List.length_cons, pow_succ]
        ring

/-- A first octet with the high bit announces as many octets as its low bits say; without it, the
octet is the length itself. -/
lemma high_bit_iff (b : UInt8) : b &&& 0x80 = 0 ↔ b.toNat < 128 := by
  have hlt := b.toNat_lt
  have hand : (b &&& 0x80).toNat = b.toNat &&& 2 ^ 7 := UInt8.toNat_and _ _
  rw [← UInt8.toNat_inj, hand, Nat.and_two_pow, UInt8.toNat_zero, Nat.testBit_eq_decide_div_mod_eq]
  by_cases hb : b.toNat < 128
  · have hbit : b.toNat / 2 ^ 7 % 2 = 0 := by omega
    rw [hbit]
    simpa using hb
  · have hbit : b.toNat / 2 ^ 7 % 2 = 1 := by omega
    rw [hbit]
    simpa using hb

lemma toNat_low_bits (b : UInt8) : (b &&& 0x7F).toNat = b.toNat % 128 := by
  rw [UInt8.toNat_and, show (0x7F : UInt8).toNat = 2 ^ 7 - 1 from rfl,
    Nat.and_two_pow_sub_one_eq_mod]

/-- The canonical form of a length is read as that length. -/
lemma readLength_of_rest (hd : dialect.Exact) {n : ℕ} (hn : n < Der.maxLength) {bs : List UInt8}
    (h : r.rest = Der.lengthBytes n ++ bs) :
    ∃ L r', readLength dialect r = .ok (L, r') ∧ r'.rest = bs ∧ L.toNat = n := by
  unfold Der.lengthBytes at h
  split at h
  next hsmall =>
    obtain ⟨r₁, hnext, hrest⟩ := next_of_rest h
    have hbyte : (UInt8.ofNat n).toNat = n := by
      rw [UInt8.toNat_ofNat']
      omega
    refine ⟨(UInt8.ofNat n).toUInt64, r₁, ?_, hrest, ?_⟩
    · rw [readLength, hnext]
      simp only [(high_bit_iff _).mpr (by rw [hbyte]; exact hsmall), if_true]
    · rw [UInt8.toNat_toUInt64, hbyte]
  next hlarge =>
    rw [List.cons_append] at h
    obtain ⟨r₁, hnext, hrest⟩ := next_of_rest h
    have hne : n ≠ 0 := by omega
    have hfirst := Der.toNat_long_first hn
    have hk := Der.byteLength_le_eight hn
    have hkpos := Der.byteLength_pos hne
    have hlow : (UInt8.ofNat (0x80 + byteLength n) &&& 0x7F).toNat = byteLength n := by
      rw [toNat_low_bits, hfirst]
      omega
    -- The octets are as many as the first one says, and the shortest that carry the length.
    have hmin : (minBeBytes n).length = byteLength n := by
      rw [Der.minBeBytes_of_ne_zero hne, length_beBytes]
    have hroom : byteLength n ≤ r₁.data.length - r₁.offset := by
      rw [← length_rest, hrest, List.length_append, hmin]
      omega
    obtain ⟨L, r', hread, hr', hL⟩ := readOctets_of_rest hd (minBeBytes n) 0 (by omega)
      (by rw [UInt64.toNat_zero]; positivity) hrest
    rw [beValue_minBeBytes, UInt64.toNat_zero, zero_mul, zero_add] at hL
    -- Shortest means without a leading zero, which the source refuses.
    have hhead : ¬ r₁.rest.headD 0 = 0 := by
      rw [hrest]
      rcases hm : minBeBytes n with _ | ⟨b, cs⟩
      · exact absurd hm (Der.minBeBytes_ne_nil n)
      · have := Der.headD_minBeBytes_ne_zero hne
        rw [hm] at this
        exact this
    refine ⟨L, r', ?_, hr', hL⟩
    have hbig : (L < 128) = False := by
      rw [UInt64.lt_iff_toNat_lt, hL, show (128 : UInt64).toNat = 128 from rfl]
      simpa using hlarge
    rw [readLength, hnext]
    simp only [high_bit_iff, hfirst, hlow, hhead]
    rw [if_neg (by omega), if_neg (by omega), if_neg not_false, ← hmin, hread]
    simp [hbig]

/-- Octets that were read are the digits of the length, with nothing shifted out. -/
lemma readOctets_ok (hd : dialect.Exact) (n : ℕ) {length L : UInt64} (hlen : n ≤ 8)
    (hfit : length.toNat < 256 ^ (8 - n)) (h : readOctets dialect n length r = .ok (L, r')) :
    ∃ octets, octets.length = n ∧ r.rest = octets ++ r'.rest ∧
      L.toNat = length.toNat * 256 ^ n + beValue octets := by
  rcases le_or_gt n r.rest.length with hle | hgt
  · have hsplit : r.rest = r.rest.take n ++ r.rest.drop n := (List.take_append_drop _ _).symm
    have hn : (r.rest.take n).length = n := by simp [hle]
    obtain ⟨L', r'', hread, hr'', hL⟩ := readOctets_of_rest hd (r.rest.take n) length
      (by omega) (by rw [hn]; exact hfit) hsplit
    rw [hn] at hread hL
    rw [hread] at h
    cases h
    exact ⟨_, hn, by rw [hr'']; exact hsplit, hL⟩
  · exfalso
    clear hfit hlen hd
    induction n generalizing r length with
    | zero => simp at hgt
    | succ n ih =>
        rw [readOctets] at h
        rcases hnext : r.next with _ | ⟨b, r₁⟩
        · rw [hnext] at h
          cases h
        · rw [hnext] at h
          obtain ⟨length', -, hk⟩ := Loops.bind_eq_ok.mp h
          have := next_eq_some hnext
          rw [this, List.length_cons] at hgt
          exact ih hk (by omega)

/-- What `readLength` accepts is the shortest form of the length it returns. The two minimality
checks of the source rule out every longer form. -/
lemma readLength_ok (hd : dialect.Exact) {L : UInt64} (h : readLength dialect r = .ok (L, r')) :
    r.rest = Der.lengthBytes L.toNat ++ r'.rest := by
  rw [readLength] at h
  rcases hnext : r.next with _ | ⟨first, r₁⟩
  · rw [hnext] at h
    cases h
  rw [hnext] at h
  have hrest := next_eq_some hnext
  have hfirst := first.toNat_lt
  simp only [high_bit_iff] at h
  split at h
  next hsmall =>
    cases h
    rw [hrest, Der.lengthBytes, UInt8.toNat_toUInt64, if_pos hsmall, UInt8.ofNat_toNat,
      List.singleton_append]
  next hlarge =>
    split at h
    · cases h
    next hcount =>
      split at h
      · cases h
      next hhead =>
        rw [toNat_low_bits] at h hcount
        set k := first.toNat % 128 with hk
        obtain ⟨⟨L', r₂⟩, hread, htail⟩ := Loops.bind_eq_ok.mp h
        obtain ⟨_, hover, hret⟩ := Loops.bind_eq_ok.mp htail
        cases hret
        rw [require_eq_ok, Bool.not_eq_true', decide_eq_false_iff_not, UInt64.lt_iff_toNat_lt,
          show (128 : UInt64).toNat = 128 from rfl] at hover
        obtain ⟨octets, hlen, hsplit, hval⟩ := readOctets_ok hd k (by omega)
          (by rw [UInt64.toNat_zero]; positivity) hread
        rw [UInt64.toNat_zero, zero_mul, zero_add] at hval
        obtain _ | ⟨b, bs⟩ := octets
        · simp at hlen
          omega
        have hb : b ≠ 0 := by
          rintro rfl
          rw [hsplit] at hhead
          simp at hhead
        -- No leading zero and at least `128`: the form that was read is the canonical one.
        have hmin := eq_minBeBytes_of_head_ne_zero bs hb
        have hbl := length_eq_byteLength bs hb
        rw [← hval] at hmin hbl
        rw [hrest, hsplit, Der.lengthBytes, if_neg hover, ← hbl, hlen, ← hmin, hk,
          show 0x80 + first.toNat % 128 = first.toNat by omega, UInt8.ofNat_toNat]
        rfl

/-- An encoding at the front of the unread bytes is read, and what follows it is left. -/
theorem read_of_rest (hd : dialect.Exact) {tag : UInt8} {content bs : List UInt8}
    (hlen : content.length < Der.maxLength) (h : r.rest = Der.tlv tag content ++ bs) :
    ∃ r', read dialect tag r = .ok (content, r') ∧ r'.rest = bs := by
  rw [Der.tlv, List.cons_append, List.append_assoc] at h
  obtain ⟨r₁, hnext, hrest⟩ := next_of_rest h
  obtain ⟨L, r₂, hlength, hrest₂, hL⟩ := readLength_of_rest hd hlen hrest
  obtain ⟨r₃, htake, hrest₃⟩ := take_of_rest hrest₂
  refine ⟨r₃, ?_, hrest₃⟩
  rw [read, hnext]
  simp only [ne_eq, not_true, if_false, hlength, ok_bind, hL, htake]

/-- A successful read takes exactly one canonical encoding off the unread bytes. -/
theorem read_ok (hd : dialect.Exact) {tag : UInt8} {content : List UInt8}
    (h : read dialect tag r = .ok (content, r')) :
    content.length < Der.maxLength ∧ r.rest = Der.tlv tag content ++ r'.rest := by
  rw [read] at h
  rcases hnext : r.next with _ | ⟨t, r₁⟩
  · rw [hnext] at h
    cases h
  rw [hnext] at h
  simp only at h
  split at h
  · cases h
  next htag =>
    obtain ⟨⟨L, r₂⟩, hlength, htake⟩ := Loops.bind_eq_ok.mp h
    simp only at htake
    rcases ht : r₂.take L.toNat with _ | result
    · rw [ht] at htake
      cases htake
    · rw [ht] at htake
      cases htake
      obtain ⟨hlen, hrest⟩ := take_eq_some ht
      rw [not_not] at htag
      refine ⟨by rw [hlen]; exact L.toNat_lt, ?_⟩
      rw [next_eq_some hnext, readLength_ok hd hlength, hrest, Der.tlv, hlen, htag,
        List.cons_append, List.append_assoc]

/-- Reading the last element leaves a reader at its end, which the trailing-data checks accept. -/
lemma read_last (hd : dialect.Exact) {tag : UInt8} {content : List UInt8}
    (hlen : content.length < Der.maxLength) (h : r.rest = Der.tlv tag content) :
    ∃ r', read dialect tag r = .ok (content, r') ∧ r'.empty = true := by
  obtain ⟨r', hread, hrest⟩ := read_of_rest hd hlen (h.trans (List.append_nil _).symm)
  exact ⟨r', hread, (empty_iff r').mpr hrest⟩

/-- A whole input that was read to its end is one encoding. -/
lemma read_whole_ok (hd : dialect.Exact) {tag : UInt8} {data content : List UInt8}
    (h : read dialect tag (ofData data) = .ok (content, r')) (hempty : r'.empty = true) :
    content.length < Der.maxLength ∧ data = Der.tlv tag content := by
  obtain ⟨hlen, hrest⟩ := read_ok hd h
  rw [rest_ofData, (empty_iff r').mp hempty, List.append_nil] at hrest
  exact ⟨hlen, hrest⟩

lemma minimal_check_iff (content : List UInt8) :
    (!(content.length > 1 && content.headD 0 == 0 && content.getD 1 0 &&& 0x80 == 0)) = true ↔
      ¬ (content.length > 1 ∧ content.headD 0 = 0 ∧ content.getD 1 0 &&& 0x80 = 0) := by
  rw [Bool.not_eq_true', ← Bool.not_eq_true, Bool.and_eq_true, Bool.and_eq_true, decide_eq_true_iff,
    beq_iff_eq, beq_iff_eq, and_assoc]

/-- The contents that `readInteger` accepts, and the magnitudes it returns for them: the content is
that of a number, and the magnitude is its shortest form. -/
lemma integer_magnitude (content : List UInt8) (hne : content ≠ [])
    (hsign : content.headD 0 &&& 0x80 = 0)
    (hmin : ¬ (content.length > 1 ∧ content.headD 0 = 0 ∧ content.getD 1 0 &&& 0x80 = 0)) :
    (if content.length > 1 && content.headD 0 == 0 then content.drop 1 else content) =
        minBeBytes (beValue content) ∧
      content = Der.integerContent (beValue content) := by
  obtain _ | ⟨b, bs⟩ := content
  · exact absurd rfl hne
  simp only [List.headD_cons] at hsign hmin ⊢
  by_cases hb : b = 0
  · subst hb
    obtain _ | ⟨c, cs⟩ := bs
    · exact ⟨by decide, by decide⟩
    · have hc : ¬ c &&& 0x80 = 0 := by simpa using hmin
      have hc0 : c ≠ 0 := by
        rintro rfl
        exact hc (by decide)
      have hval : beValue (0 :: c :: cs) = beValue (c :: cs) := by
        rw [beValue_cons]
        simp
      have hcs := eq_minBeBytes_of_head_ne_zero cs hc0
      rw [hval]
      refine ⟨by simpa using hcs, ?_⟩
      rw [Der.integerContent, ← hcs]
      simp [hc]
  · have hbs := eq_minBeBytes_of_head_ne_zero bs hb
    refine ⟨by simpa [hb] using hbs, ?_⟩
    rw [Der.integerContent, ← hbs]
    simp [hsign]

/-- A successful read of an INTEGER takes one canonical INTEGER off the unread bytes and returns
the shortest encoding of its value. -/
theorem readInteger_ok (hd : dialect.Exact) {magnitude : ByteBuffer}
    (h : readInteger dialect r = .ok (magnitude, r')) :
    magnitude = minBeBytes (beValue magnitude) ∧
      (Der.integerContent (beValue magnitude)).length < Der.maxLength ∧
      r.rest = Der.tlv 0x02 (Der.integerContent (beValue magnitude)) ++ r'.rest := by
  obtain ⟨⟨content, r₁⟩, hread, h⟩ := Loops.bind_eq_ok.mp h
  obtain ⟨_, hne, h⟩ := Loops.bind_eq_ok.mp h
  obtain ⟨_, hsign, h⟩ := Loops.bind_eq_ok.mp h
  obtain ⟨_, hmin, h⟩ := Loops.bind_eq_ok.mp h
  cases h
  obtain ⟨hlen, hrest⟩ := read_ok hd hread
  rw [require_eq_ok] at hne hsign hmin
  obtain ⟨hmag, hcontent⟩ := integer_magnitude content (by simpa using hne)
    (by simpa using hsign) ((minimal_check_iff _).mp hmin)
  rw [hmag, beValue_minBeBytes, ← hcontent]
  exact ⟨rfl, hlen, hrest⟩

/-- The INTEGER of a number is read as the shortest form of that number. -/
theorem readInteger_of_rest (hd : dialect.Exact) {n : ℕ} {bs : List UInt8}
    (hlen : (Der.integerContent n).length < Der.maxLength)
    (h : r.rest = Der.tlv 0x02 (Der.integerContent n) ++ bs) :
    ∃ r', readInteger dialect r = .ok (minBeBytes n, r') ∧ r'.rest = bs := by
  obtain ⟨r', hread, hrest⟩ := read_of_rest hd hlen h
  refine ⟨r', ?_, hrest⟩
  have hne := Der.integerContent_ne_nil n
  have hsign := Der.integerContent_sign n
  have hmin := Der.integerContent_minimal n
  have hmag := (integer_magnitude _ hne hsign hmin).1
  rw [Der.beValue_integerContent] at hmag
  have hnonempty : (!(Der.integerContent n).isEmpty) = true := by simpa using hne
  rw [readInteger, hread]
  simp only [ok_bind]
  rw [hnonempty, (minimal_check_iff _).mpr hmin, hsign, ← hmag]
  rfl

end DerReader

end CryptoCore
