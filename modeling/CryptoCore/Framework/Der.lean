import CryptoCore.Framework.ByteStrings

/-!
# Canonical type-length-value encodings

The definite-length encoding with the shortest form of every length, and of every non-negative
integer. A length below 128 is one octet; a longer one is an octet that says how many octets follow,
and then these. An INTEGER has a leading zero octet exactly when the sign bit would be set without
it.

`tlv_append_inj` says that encodings are prefix-free: from the bytes at hand the tag, the content
and what follows are determined. Everything that is said about concatenated encodings follows from
it, one element at a time.

Lengths are bounded by `maxLength`, the lengths of at most eight octets. The encoding itself has a
form for longer contents too, which no reader with 64-bit sizes accepts, so that the bound is a
hypothesis of the lemmas and not of the definition.

The last lemmas are what a reader checks of the content of an INTEGER: it is not empty, its sign bit
is clear, and it has no superfluous zero octet in front.
-/

namespace Der

open ByteStrings

/-- The shortest form of a length: itself, or the number of its octets with the top bit set,
followed by these octets. -/
def lengthBytes (n : ℕ) : List UInt8 :=
  if n < 128 then [UInt8.ofNat n]
  else UInt8.ofNat (0x80 + byteLength n) :: minBeBytes n

/-- Tag, length and content. Tags are single octets here, as in all the structures that are built
from them. -/
def tlv (tag : UInt8) (content : List UInt8) : List UInt8 :=
  tag :: (lengthBytes content.length ++ content)

/-- The content of an INTEGER: the shortest encoding with a clear sign bit. -/
def integerContent (n : ℕ) : List UInt8 :=
  if (minBeBytes n).headD 0 &&& 0x80 ≠ 0 then 0 :: minBeBytes n else minBeBytes n

/-- The lengths that fit the eight octets a reader accepts. It bounds the contents for which
encodings are prefix-free. -/
def maxLength : ℕ := 2 ^ 64

lemma length_minBeBytes_le (n : ℕ) : (minBeBytes n).length ≤ (integerContent n).length := by
  rw [integerContent]
  split
  · exact Nat.le_succ _
  · exact le_rfl

lemma minBeBytes_of_ne_zero {n : ℕ} (h : n ≠ 0) : minBeBytes n = beBytes (byteLength n) n := by
  rw [minBeBytes, if_neg h]

lemma byteLength_pos {n : ℕ} (h : n ≠ 0) : 0 < byteLength n := by
  have : 0 < n.size := Nat.size_pos.mpr (Nat.pos_of_ne_zero h)
  unfold byteLength
  omega

lemma byteLength_le_eight {n : ℕ} (h : n < maxLength) : byteLength n ≤ 8 := by
  rw [byteLength_le_iff]
  exact h

lemma minBeBytes_ne_nil (n : ℕ) : minBeBytes n ≠ [] := by
  intro h
  rcases eq_or_ne n 0 with rfl | hn
  · simp [minBeBytes] at h
  · have hlen := congrArg List.length h
    rw [minBeBytes_of_ne_zero hn, length_beBytes, List.length_nil] at hlen
    exact (byteLength_pos hn).ne' hlen

/-- Only zero is encoded with a leading zero byte. -/
lemma headD_minBeBytes_ne_zero {n : ℕ} (h : n ≠ 0) : (minBeBytes n).headD 0 ≠ 0 := by
  rcases hm : minBeBytes n with _ | ⟨b, bs⟩
  · exact absurd hm (minBeBytes_ne_nil n)
  · rintro rfl
    have hval := beValue_minBeBytes n
    rw [hm, beValue_cons, UInt8.toNat_zero, zero_mul, zero_add] at hval
    have hlt := beValue_lt bs
    rw [hval] at hlt
    have hle := (byteLength_le_iff n bs.length).mpr hlt
    have hlen := congrArg List.length hm
    rw [minBeBytes_of_ne_zero h, length_beBytes, List.length_cons] at hlen
    omega

/-- The first octet of a long form tells how many octets follow, and does not overflow for eight of
them. -/
lemma toNat_long_first {n : ℕ} (h : n < maxLength) :
    (UInt8.ofNat (0x80 + byteLength n)).toNat = 0x80 + byteLength n := by
  have := byteLength_le_eight h
  rw [UInt8.toNat_ofNat']
  omega

/-- A length is read off its encoding, whatever follows. A short form and a long one differ in the
top bit of the first octet. -/
lemma lengthBytes_append_inj {m n : ℕ} {as bs : List UInt8} (hm : m < maxLength)
    (hn : n < maxLength) (h : lengthBytes m ++ as = lengthBytes n ++ bs) : m = n ∧ as = bs := by
  unfold lengthBytes at h
  have hsmall : ∀ k : ℕ, k < 128 → (UInt8.ofNat k).toNat = k := fun k hk => by
    rw [UInt8.toNat_ofNat']
    omega
  split_ifs at h with h₁ h₂ h₂
  · rw [List.singleton_append, List.singleton_append, List.cons.injEq] at h
    exact ⟨by rw [← hsmall m h₁, h.1, hsmall n h₂], h.2⟩
  · rw [List.singleton_append, List.cons_append, List.cons.injEq] at h
    have := congrArg UInt8.toNat h.1
    rw [hsmall m h₁, toNat_long_first hn] at this
    omega
  · rw [List.singleton_append, List.cons_append, List.cons.injEq] at h
    have := congrArg UInt8.toNat h.1
    rw [hsmall n h₂, toNat_long_first hm] at this
    omega
  · rw [List.cons_append, List.cons_append, List.cons.injEq] at h
    have hlen := congrArg UInt8.toNat h.1
    rw [toNat_long_first hm, toNat_long_first hn] at hlen
    have hbytes : (minBeBytes m).length = (minBeBytes n).length := by
      rw [minBeBytes_of_ne_zero (by omega), minBeBytes_of_ne_zero (by omega), length_beBytes,
        length_beBytes]
      omega
    obtain ⟨hval, hrest⟩ := List.append_inj h.2 hbytes
    exact ⟨minBeBytes_injective hval, hrest⟩

/-- Encodings are prefix-free: tag, content and the bytes behind them are read off the
concatenation. -/
theorem tlv_append_inj {t u : UInt8} {c d as bs : List UInt8} (hc : c.length < maxLength)
    (hd : d.length < maxLength) (h : tlv t c ++ as = tlv u d ++ bs) : t = u ∧ c = d ∧ as = bs := by
  rw [tlv, tlv, List.cons_append, List.cons_append, List.cons.injEq, List.append_assoc,
    List.append_assoc] at h
  obtain ⟨hlen, hrest⟩ := lengthBytes_append_inj hc hd h.2
  obtain ⟨hcd, has⟩ := List.append_inj hrest hlen
  exact ⟨h.1, hcd, has⟩

lemma length_lengthBytes_le {n : ℕ} (h : n < maxLength) : (lengthBytes n).length ≤ 9 := by
  unfold lengthBytes
  split
  · simp
  · rw [List.length_cons, minBeBytes_of_ne_zero (by omega), length_beBytes]
    have := byteLength_le_eight h
    omega

lemma length_tlv_le (tag : UInt8) {content : List UInt8} (h : content.length < maxLength) :
    (tlv tag content).length ≤ content.length + 10 := by
  have := length_lengthBytes_le h
  rw [tlv, List.length_cons, List.length_append]
  omega

lemma length_le_length_tlv (tag : UInt8) (content : List UInt8) :
    content.length < (tlv tag content).length := by
  rw [tlv, List.length_cons, List.length_append]
  omega

lemma beValue_integerContent (n : ℕ) : beValue (integerContent n) = n := by
  unfold integerContent
  split
  · rw [beValue_cons, beValue_minBeBytes]
    simp
  · exact beValue_minBeBytes n

lemma integerContent_ne_nil (n : ℕ) : integerContent n ≠ [] := by
  unfold integerContent
  split
  · simp
  · exact minBeBytes_ne_nil n

/-- The sign bit of an INTEGER content is clear. -/
lemma integerContent_sign (n : ℕ) : (integerContent n).headD 0 &&& 0x80 = 0 := by
  unfold integerContent
  split
  next => rw [List.headD_cons, UInt8.zero_and]
  next h => simpa using h

/-- An INTEGER content has no superfluous leading zero byte: one in front of a clear sign bit. This
is the check of a reader, negated. -/
lemma integerContent_minimal (n : ℕ) : ¬ ((integerContent n).length > 1 ∧
    (integerContent n).headD 0 = 0 ∧ (integerContent n).getD 1 0 &&& 0x80 = 0) := by
  unfold integerContent
  split
  next h =>
    rcases hm : minBeBytes n with _ | ⟨c, cs⟩
    · exact absurd hm (minBeBytes_ne_nil n)
    · rw [hm] at h
      simpa using h
  next =>
    rintro ⟨hlong, hzero, -⟩
    rcases eq_or_ne n 0 with rfl | hn
    · simp [minBeBytes] at hlong
    · exact headD_minBeBytes_ne_zero hn hzero

end Der
