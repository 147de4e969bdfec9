import CryptoCore.Construction.Asymmetric

/-!
# Imported keys

The containers exclude each other, so the parsers that try one container after the other read a key
as the parser that checked it at the import did.

An import checks one container and keeps the bytes. At its use a key is parsed again, by a parser
that tries two containers in a fixed order and takes the first that accepts. If a byte string could
be read as two containers, a key could be used as another one than was imported.

That it cannot is a statement about encodings. Every container is a sequence of at least two
elements, and the two first of them tell which one it is (`FirstElements.container`): an algorithm
identifier in front is a public key, a version in front of an identifier is a key inside PKCS #8,
and the version of a standalone key differs between the two algorithms. The content of the first
number decides between the two PKCS #1 structures, since a modulus is neither zero nor one.
`KeyContainer.Accepts.unique` puts this together over all pairs of the seven containers, through the
encodings that each parser accepts.
-/

namespace CryptoCore

open ByteStrings

/-! ## Containers -/

/-- The containers that an import checks, for the two algorithms that have containers. -/
inductive KeyContainer
  | rsaPkcs1PublicKey
  | rsaSpki
  | p256Spki
  | rsaPkcs1PrivateKey
  | rsaPkcs8
  | p256Sec1
  | p256Pkcs8
  deriving DecidableEq

/-- A byte string that the parser of a container accepts, as some key. -/
def KeyContainer.Accepts : KeyContainer → List UInt8 → Prop
  | rsaPkcs1PublicKey, der => ∃ key, parseRsaPkcs1PublicKeyDer der = .ok key
  | rsaSpki, der => ∃ key, parseRsaSpkiPublicKeyDer der = .ok key
  | p256Spki, der => ∃ key, parseP256PublicKeyDer der = .ok key
  | rsaPkcs1PrivateKey, der => ∃ key, parseRsaPkcs1PrivateKeyDer der = .ok key
  | rsaPkcs8, der => ∃ key, parseRsaPkcs8PrivateKeyDer der = .ok key
  | p256Sec1, der => ∃ key, parseP256Sec1PrivateKeyDer der = .ok key
  | p256Pkcs8, der => ∃ key, parseP256Pkcs8PrivateKeyDer der = .ok key

/-- The first two elements of a sequence, with their tags and their contents. -/
structure FirstElements where
  tag₁ : UInt8
  content₁ : List UInt8
  tag₂ : UInt8
  content₂ : List UInt8
  deriving DecidableEq

/-- A sequence that starts with two elements. What follows them is not looked at. -/
def FirstElements.Of (elements : FirstElements) (der : List UInt8) : Prop :=
  ∃ rest : List UInt8,
    (Der.tlv elements.tag₁ elements.content₁ ++
      (Der.tlv elements.tag₂ elements.content₂ ++ rest)).length < Der.maxLength ∧
    der = Der.tlv 0x30 (Der.tlv elements.tag₁ elements.content₁ ++
      (Der.tlv elements.tag₂ elements.content₂ ++ rest))

/-- The first two elements are read off the bytes, since encodings are prefix-free. -/
lemma FirstElements.Of.unique {d e : FirstElements} {der : List UInt8} (hd : d.Of der)
    (he : e.Of der) : d = e := by
  obtain ⟨as, hdlen, rfl⟩ := hd
  obtain ⟨bs, helen, heq⟩ := he
  have hd₁ := Der.length_le_length_tlv d.tag₁ d.content₁
  have hd₂ := Der.length_le_length_tlv d.tag₂ d.content₂
  have he₁ := Der.length_le_length_tlv e.tag₁ e.content₁
  have he₂ := Der.length_le_length_tlv e.tag₂ e.content₂
  rw [← List.append_nil (Der.tlv 0x30 _), ← List.append_nil (Der.tlv 0x30 (_ ++ (_ ++ bs)))] at heq
  obtain ⟨-, hcontent, -⟩ := Der.tlv_append_inj hdlen helen heq
  simp only [List.length_append] at hdlen helen
  obtain ⟨htag₁, hcontent₁, hrest⟩ := Der.tlv_append_inj (by omega) (by omega) hcontent
  obtain ⟨htag₂, hcontent₂, -⟩ := Der.tlv_append_inj (by omega) (by omega) hrest
  obtain ⟨t₁, c₁, t₂, c₂⟩ := d
  obtain ⟨u₁, d₁, u₂, d₂⟩ := e
  simp only at htag₁ hcontent₁ htag₂ hcontent₂
  subst htag₁ hcontent₁ htag₂ hcontent₂
  rfl

/-- The elements of the algorithm identifier of RSA: the object identifier and a null. -/
def rsaAlgorithm : List UInt8 :=
  Der.tlv RsaDer.derOid RsaDer.rsaEncryptionOid ++ Der.tlv RsaDer.derNull []

/-- The elements of the algorithm identifier of P-256: those of the key type and of the curve. -/
def p256Algorithm : List UInt8 :=
  Der.tlv EcDer.derOid EcDer.idEcPublicKeyOid ++ Der.tlv EcDer.derOid EcDer.prime256v1Oid

lemma p256Algorithm_ne : p256Algorithm ≠ rsaAlgorithm := by decide +kernel

/-- The container that the first two elements tell, where they are those of a container. -/
def FirstElements.container (elements : FirstElements) : KeyContainer :=
  if elements.tag₁ = 0x30 then
    if elements.content₁ = rsaAlgorithm then .rsaSpki else .p256Spki
  else if elements.content₁ = [0x00] then
    if elements.tag₂ = 0x30 then
      if elements.content₂ = rsaAlgorithm then .rsaPkcs8 else .p256Pkcs8
    else .rsaPkcs1PrivateKey
  else if elements.content₁ = [0x01] then .p256Sec1
  else .rsaPkcs1PublicKey

/-- A number above one is encoded neither as zero nor as one. -/
lemma integerContent_ne {k : ℕ} (h : 1 < k) :
    Der.integerContent k ≠ [0x00] ∧ Der.integerContent k ≠ [0x01] := by
  have hvalue := Der.beValue_integerContent k
  constructor <;> intro heq <;> rw [heq, beValue_singleton] at hvalue
  · exact absurd hvalue (by simp; omega)
  · exact absurd hvalue (by simp; omega)

/-- What a container accepts starts with two elements that tell the container. -/
lemma KeyContainer.Accepts.exists_elements {container : KeyContainer} {der : List UInt8}
    (h : container.Accepts der) :
    ∃ elements : FirstElements, elements.Of der ∧ elements.container = container := by
  cases container with
  -- The tag of the first element, its content or the tag of the second tells the containers apart.
  | rsaPkcs1PublicKey =>
      obtain ⟨key, hkey⟩ := h
      obtain ⟨hvalid, hlen, hder⟩ := RsaDer.parsePkcs1PublicKey_eq_ok_iff.mp hkey
      obtain ⟨hzero, hone⟩ := integerContent_ne hvalid.modulus.one_lt
      exact ⟨⟨0x02, Der.integerContent (beValue key.modulus), 0x02, _⟩, ⟨[], hlen, hder⟩,
        by simp [FirstElements.container, hzero, hone]⟩
  | rsaSpki =>
      obtain ⟨key, hkey⟩ := h
      obtain ⟨-, hlen, hder⟩ := RsaDer.parseSpkiPublicKey_eq_ok_iff.mp hkey
      rw [RsaDer.spkiPublicKey] at hder
      rw [RsaDer.spkiBody, ← List.append_nil (Der.tlv RsaDer.derBitString _)] at hlen hder
      exact ⟨⟨0x30, rsaAlgorithm, 0x03, _⟩, ⟨[], hlen, hder⟩, by simp [FirstElements.container]⟩
  | p256Spki =>
      obtain ⟨key, hkey⟩ := h
      obtain ⟨hvalid, hder⟩ := EcDer.parseP256PublicKey_eq_ok_iff.mp hkey
      have hlen := EcDer.length_spkiContent_lt hvalid
      rw [EcDer.spkiPublicKey] at hder
      rw [← List.append_nil (Der.tlv EcDer.derBitString _)] at hlen hder
      exact ⟨⟨0x30, p256Algorithm, 0x03, _⟩, ⟨[], hlen, hder⟩,
        by simp [FirstElements.container, p256Algorithm_ne]⟩
  | rsaPkcs1PrivateKey =>
      obtain ⟨key, hkey⟩ := h
      obtain ⟨-, hlen, hder⟩ := RsaDer.parsePkcs1PrivateKey_eq_ok_iff.mp hkey
      exact ⟨⟨0x02, [0x00], 0x02, _⟩, ⟨_, hlen, hder⟩, by simp [FirstElements.container]⟩
  | rsaPkcs8 =>
      obtain ⟨key, hkey⟩ := h
      obtain ⟨-, hlen, hder⟩ := RsaDer.parsePkcs8PrivateKey_eq_ok_iff.mp hkey
      exact ⟨⟨0x02, [0x00], 0x30, rsaAlgorithm⟩, ⟨_, hlen, hder⟩,
        by simp [FirstElements.container]⟩
  | p256Sec1 =>
      obtain ⟨key, hkey⟩ := h
      obtain ⟨hvalid, parameters, publicKey, -, hder⟩ :=
        EcDer.parseSec1P256PrivateKey_eq_ok_iff.mp hkey
      have hlen := (Der.length_le_length_tlv _ _).trans_le
        (EcDer.length_sec1PrivateKey_le hvalid parameters publicKey)
      exact ⟨⟨0x02, [0x01], 0x04, _⟩, ⟨_, hlen.trans (by decide), hder⟩,
        by simp [FirstElements.container]⟩
  | p256Pkcs8 =>
      obtain ⟨key, hkey⟩ := h
      obtain ⟨hvalid, parameters, publicKey, hder⟩ :=
        EcDer.parsePkcs8P256PrivateKey_eq_ok_iff.mp hkey
      have hlen := EcDer.length_pkcs8Content_lt
        (EcDer.length_sec1PrivateKey_le hvalid parameters publicKey)
      exact ⟨⟨0x02, [0x00], 0x30, p256Algorithm⟩, ⟨_, hlen, hder⟩,
        by simp [FirstElements.container, p256Algorithm_ne]⟩

/-- No byte string is accepted by two containers. -/
theorem KeyContainer.Accepts.unique {c c' : KeyContainer} {der : List UInt8} (h : c.Accepts der)
    (h' : c'.Accepts der) : c = c' := by
  obtain ⟨elements, hof, hcontainer⟩ := h.exists_elements
  obtain ⟨elements', hof', hcontainer'⟩ := h'.exists_elements
  rw [← hcontainer, ← hcontainer', hof.unique hof']

/-! ## Imports -/

/-- A checked import keeps the bytes that the parser accepted, and nothing of what it read. -/
lemma material_of_check {α κ : Type} {parsed : Result α} {key imported : κ}
    (h : (do let _ ← parsed; return key) = Except.ok imported) :
    ∃ material, parsed = .ok material ∧ imported = key := by
  obtain ⟨material, hparsed, hkey⟩ := Loops.bind_eq_ok.mp h
  exact ⟨material, hparsed, (Except.ok.inj hkey).symm⟩

/-- A parser that is tried first reads what it accepts, and the other one is not asked. -/
lemma parseRsaPublicKeyDer_pkcs1 {der : List UInt8} {key : RsaPublicKeyMaterial}
    (h : parseRsaPkcs1PublicKeyDer der = .ok key) : parseRsaPublicKeyDer der = .ok key := by
  rw [parseRsaPublicKeyDer, show RsaDer.parsePkcs1PublicKey der = .ok key from h]

lemma parseRsaPrivateKeyDer_pkcs1 {der : List UInt8} {key : RsaPrivateKeyMaterial}
    (h : parseRsaPkcs1PrivateKeyDer der = .ok key) : parseRsaPrivateKeyDer der = .ok key := by
  rw [parseRsaPrivateKeyDer, show RsaDer.parsePkcs1PrivateKey der = .ok key from h]

lemma parseP256PrivateKeyDer_standalone {der : List UInt8} {key : EcPrivateKeyMaterial}
    (h : parseP256Sec1PrivateKeyDer der = .ok key) : parseP256PrivateKeyDer der = .ok key := by
  rw [parseP256PrivateKeyDer, show EcDer.parseSec1P256PrivateKey der true = .ok key from h]

/-- A parser that is tried second reads what it accepts, because the first one refuses it. -/
lemma parseRsaPublicKeyDer_spki {der : List UInt8} {key : RsaPublicKeyMaterial}
    (h : parseRsaSpkiPublicKeyDer der = .ok key) : parseRsaPublicKeyDer der = .ok key := by
  rw [parseRsaPublicKeyDer]
  split
  next key' hkey' =>
    have hfirst : KeyContainer.rsaPkcs1PublicKey.Accepts der := ⟨key', hkey'⟩
    have hsecond : KeyContainer.rsaSpki.Accepts der := ⟨key, h⟩
    cases hfirst.unique hsecond
  next => exact h

lemma parseRsaPrivateKeyDer_pkcs8 {der : List UInt8} {key : RsaPrivateKeyMaterial}
    (h : parseRsaPkcs8PrivateKeyDer der = .ok key) : parseRsaPrivateKeyDer der = .ok key := by
  rw [parseRsaPrivateKeyDer]
  split
  next key' hkey' =>
    have hfirst : KeyContainer.rsaPkcs1PrivateKey.Accepts der := ⟨key', hkey'⟩
    have hsecond : KeyContainer.rsaPkcs8.Accepts der := ⟨key, h⟩
    cases hfirst.unique hsecond
  next => exact h

lemma parseP256PrivateKeyDer_pkcs8 {der : List UInt8} {key : EcPrivateKeyMaterial}
    (h : parseP256Pkcs8PrivateKeyDer der = .ok key) : parseP256PrivateKeyDer der = .ok key := by
  rw [parseP256PrivateKeyDer]
  split
  next key' hkey' =>
    have hfirst : KeyContainer.p256Sec1.Accepts der := ⟨key', hkey'⟩
    have hsecond : KeyContainer.p256Pkcs8.Accepts der := ⟨key, h⟩
    cases hfirst.unique hsecond
  next => exact h

/-- What an import accepted is read again as the same key. -/
theorem imported_keys_reread :
    (∀ (der : List UInt8) (usages : UInt32) (key : PublicKey),
      PublicKey.importSpkiDer .rsa der usages = .ok key →
        ∃ material, parseRsaSpkiPublicKeyDer der = .ok material ∧
          parseRsaPublicKeyDer key.material = .ok material) ∧
    (∀ (der : List UInt8) (usages : UInt32) (key : PublicKey),
      PublicKey.importRsaPkcs1Der der usages = .ok key →
        ∃ material, parseRsaPkcs1PublicKeyDer der = .ok material ∧
          parseRsaPublicKeyDer key.material = .ok material) ∧
    (∀ (der : List UInt8) (usages : UInt32) (key : PrivateKey),
      PrivateKey.importPkcs8Der .rsa der usages = .ok key →
        ∃ material, parseRsaPkcs8PrivateKeyDer der = .ok material ∧
          parseRsaPrivateKeyDer key.material = .ok material) ∧
    (∀ (der : List UInt8) (usages : UInt32) (key : PrivateKey),
      PrivateKey.importRsaPkcs1Der der usages = .ok key →
        ∃ material, parseRsaPkcs1PrivateKeyDer der = .ok material ∧
          parseRsaPrivateKeyDer key.material = .ok material) ∧
    (∀ (der : List UInt8) (usages : UInt32) (key : PrivateKey),
      PrivateKey.importSec1Der .ecdsaP256 der usages = .ok key →
        ∃ material, parseP256Sec1PrivateKeyDer der = .ok material ∧
          parseP256PrivateKeyDer key.material = .ok material) ∧
    (∀ (der : List UInt8) (usages : UInt32) (key : PrivateKey),
      PrivateKey.importPkcs8Der .ecdsaP256 der usages = .ok key →
        ∃ material, parseP256Pkcs8PrivateKeyDer der = .ok material ∧
          parseP256PrivateKeyDer key.material = .ok material) ∧
    (∀ (container container' : KeyContainer) (der : List UInt8),
      container.Accepts der → container'.Accepts der → container = container') := by
  refine ⟨fun der usages key h => ?_, fun der usages key h => ?_, fun der usages key h => ?_,
    fun der usages key h => ?_, fun der usages key h => ?_, fun der usages key h => ?_,
    fun container container' der h h' => h.unique h'⟩
  · obtain ⟨material, hmaterial, rfl⟩ := material_of_check h
    exact ⟨material, hmaterial, parseRsaPublicKeyDer_spki hmaterial⟩
  · obtain ⟨material, hmaterial, rfl⟩ := material_of_check h
    exact ⟨material, hmaterial, parseRsaPublicKeyDer_pkcs1 hmaterial⟩
  · obtain ⟨material, hmaterial, rfl⟩ := material_of_check h
    exact ⟨material, hmaterial, parseRsaPrivateKeyDer_pkcs8 hmaterial⟩
  · obtain ⟨material, hmaterial, rfl⟩ := material_of_check h
    exact ⟨material, hmaterial, parseRsaPrivateKeyDer_pkcs1 hmaterial⟩
  · obtain ⟨material, hmaterial, rfl⟩ := material_of_check (require_bind_eq_ok.mp h).2
    exact ⟨material, hmaterial, parseP256PrivateKeyDer_standalone hmaterial⟩
  · obtain ⟨material, hmaterial, rfl⟩ := material_of_check h
    exact ⟨material, hmaterial, parseP256PrivateKeyDer_pkcs8 hmaterial⟩

end CryptoCore
