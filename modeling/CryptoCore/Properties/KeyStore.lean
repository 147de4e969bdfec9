import CryptoCore.Construction.KeyStore

/-!
# The key store is a log read at first entries

Whatever calls a store takes, it answers like the log of all insertions that were asked for, the
refused ones included: the key under an identifier is the first one that was put there, of the kind
and with the usages it had then. So no later call changes or removes a key that was handed out.

The store keeps three tables, one for each kind of key, and an insertion looks the identifier up in
all of them before it writes to one. The log is one list. `KeyStore.ReadsLike` relates the two: each
table holds, under every identifier, the first key of the log if it is of its kind. That an
identifier names at most one key in the three tables together is a consequence, and needs no
invariant of its own.

`KeyStore.ReadsLike.simulates` is the step: all calls get the same answer from related states, the
ten public methods of the store included, and leave related states. The theorem is the run, by the
rule for simulations, from the empty store and the empty log.
-/

namespace CryptoCore

open Streaming WriteOnce

/-! ## The log -/

namespace StoredKey

/-- The key, if it is a secret key. -/
def secretKey? : StoredKey → Option SecretKey
  | .secretKey key => some key
  | .publicKey _ | .privateKey _ => none

def publicKey? : StoredKey → Option PublicKey
  | .publicKey key => some key
  | .secretKey _ | .privateKey _ => none

def privateKey? : StoredKey → Option PrivateKey
  | .privateKey key => some key
  | .secretKey _ | .publicKey _ => none

end StoredKey

/-- The insertions that were asked for, the earliest first. -/
abbrev KeyLog := List (KeyId × StoredKey)

namespace KeyLog

/-- The first key under an identifier; there is none under the empty identifier, which no insertion
takes. -/
def first (log : KeyLog) (id : KeyId) : Option StoredKey :=
  if id = [] then none else log.lookup id

/-- An identifier is free when it is not empty and no insertion named it, not even a refused one. -/
def validateNewId (log : KeyLog) (id : KeyId) : Result Unit :=
  if id = [] then .error (keyStoreError .invalidArgument "key id must not be empty")
  else if (log.lookup id).isSome then
    .error (keyStoreError .invalidArgument "key id already exists")
  else .ok ()

/-- What a log answers. The lookups find the first key of their kind, and the requirements check its
usage. -/
def answer (log : KeyLog) : KeyStoreCall → KeyStoreAnswer
  | .insert id _ => .inserted (log.validateNewId id)
  | .contains id => .contains (log.first id).isSome
  | .findSecret id => .foundSecret ((log.first id).bind StoredKey.secretKey?)
  | .findPublic id => .foundPublic ((log.first id).bind StoredKey.publicKey?)
  | .findPrivate id => .foundPrivate ((log.first id).bind StoredKey.privateKey?)
  | .requireSecret id usage => .secretKey (
      requireKey SecretKey.allows ((log.first id).bind StoredKey.secretKey?) usage
        "secret key id was not found" "secret key usage is not allowed")
  | .requirePublic id usage => .publicKey (
      requireKey PublicKey.allows ((log.first id).bind StoredKey.publicKey?) usage
        "public key id was not found" "public key usage is not allowed")
  | .requirePrivate id usage => .privateKey (
      requireKey PrivateKey.allows ((log.first id).bind StoredKey.privateKey?) usage
        "private key id was not found" "private key usage is not allowed")

/-- The insertion that a call asks for. Lookups leave the log as it is. -/
def insertion : KeyStoreCall → KeyLog
  | .insert id key => [(id, key)]
  | .contains _ | .findSecret _ | .findPublic _ | .findPrivate _ => []
  | .requireSecret _ _ | .requirePublic _ _ | .requirePrivate _ _ => []

def call (log : KeyLog) (c : KeyStoreCall) : KeyStoreAnswer × KeyLog :=
  (log.answer c, log ++ insertion c)

/-- The log behind a run. -/
lemma stateAfter_call (log : KeyLog) (calls : List KeyStoreCall) :
    stateAfter call log calls = log ++ calls.flatMap insertion := by
  induction calls generalizing log with
  | nil => simp
  | cons c calls ih => rw [stateAfter_cons, ih, call, List.flatMap_cons, List.append_assoc]

lemma first_append_of_some {log : KeyLog} {id : KeyId} {key : StoredKey}
    (h : log.first id = some key) (later : KeyLog) : (log ++ later).first id = some key := by
  rw [first] at h ⊢
  split at h
  · cases h
  · rw [if_neg ‹_›]
    exact List.IsPrefix.lookup_eq_some (List.prefix_append log later) h

/-- An identifier that is taken, or empty, keeps what it has. -/
lemma first_append_refused {log : KeyLog} {id : KeyId} (key : StoredKey)
    (h : id = [] ∨ (log.lookup id).isSome) (other : KeyId) :
    KeyLog.first (log ++ [(id, key)]) other = log.first other := by
  rw [first, first, lookup_append_write]
  by_cases hother : other = id
  · subst hother
    rcases h with rfl | h
    · rfl
    · rw [Option.or_of_isSome h]
  · rw [beq_false_of_ne hother, if_neg Bool.false_ne_true, Option.or_none]

/-- An identifier that is free takes the key. -/
lemma first_append_fresh {log : KeyLog} {id : KeyId} (key : StoredKey) (hid : id ≠ [])
    (hfree : log.lookup id = none) (other : KeyId) :
    KeyLog.first (log ++ [(id, key)]) other = if other = id then some key else log.first other := by
  rw [first, first, lookup_append_write]
  by_cases hother : other = id
  · rw [if_pos hother, hother, if_neg hid, hfree, BEq.rfl, if_pos rfl, Option.none_or]
  · rw [if_neg hother, beq_false_of_ne hother, if_neg Bool.false_ne_true, Option.or_none]

/-- A table that holds the keys of one kind of a log, each under its identifier. -/
def Holds {ν : Type} (log : KeyLog) (kind : StoredKey → Option ν) (table : List (KeyId × ν)) :
    Prop :=
  ∀ id, table.lookup id = (log.first id).bind kind

namespace Holds

variable {ν : Type} {log : KeyLog} {kind : StoredKey → Option ν} {table : List (KeyId × ν)}
  {id : KeyId} {key : StoredKey}

lemma refused (h : log.Holds kind table) (hid : id = [] ∨ (log.lookup id).isSome) :
    KeyLog.Holds (log ++ [(id, key)]) kind table := by
  intro other
  rw [first_append_refused key hid, h]

/-- A key of another kind. -/
lemma other (h : log.Holds kind table) (hid : id ≠ []) (hfree : log.lookup id = none)
    (hkind : kind key = none) : KeyLog.Holds (log ++ [(id, key)]) kind table := by
  intro other
  rw [first_append_fresh key hid hfree, h]
  split
  · rw [first, ‹other = id›, if_neg hid, hfree, Option.bind_none, Option.bind_some, hkind]
  · rfl

/-- A key of the kind. -/
lemma emplace (h : log.Holds kind table) (hid : id ≠ []) (hfree : log.lookup id = none) {value : ν}
    (hkind : kind key = some value) :
    KeyLog.Holds (log ++ [(id, key)]) kind (emplace table id value) := by
  intro other
  rw [first_append_fresh key hid hfree]
  split
  · rw [‹other = id›, lookup_emplace_self, h, first, if_neg hid, hfree, Option.bind_none,
      Option.none_or, Option.bind_some, hkind]
  · rw [lookup_emplace_of_ne table value ‹other ≠ id›, h]

end Holds

end KeyLog

/-! ## The store and its log -/

/-- A store that reads like a log, in each of its three tables. -/
structure KeyStore.ReadsLike (store : KeyStore) (log : KeyLog) : Prop where
  secretKeys : log.Holds StoredKey.secretKey? store.secretKeys
  publicKeys : log.Holds StoredKey.publicKey? store.publicKeys
  privateKeys : log.Holds StoredKey.privateKey? store.privateKeys

namespace KeyStore.ReadsLike

variable {store : KeyStore} {log : KeyLog}

lemma empty : KeyStore.ReadsLike {} [] := by
  constructor <;> intro id <;> simp [KeyLog.first]

lemma hasId (h : store.ReadsLike log) (id : KeyId) : store.hasId id = (log.first id).isSome := by
  rw [KeyStore.hasId, findSecret, findPublic, findPrivate, h.secretKeys, h.publicKeys,
    h.privateKeys]
  cases log.first id with
  | none => rfl
  | some key => cases key <;> rfl

lemma validateNewId (h : store.ReadsLike log) (id : KeyId) :
    store.validateNewId id = log.validateNewId id := by
  rw [KeyStore.validateNewId, h.hasId, KeyLog.first, KeyLog.validateNewId]
  by_cases hid : id = []
  · rw [if_pos hid, if_pos hid, hid]
    rfl
  · rw [if_neg hid, if_neg hid, List.isEmpty_eq_false_iff.mpr hid, Bool.not_false, require_true,
      ok_bind]
    cases (log.lookup id).isSome <;> rfl

/-- An insertion answers like the log, and the log with the insertion is the log of what it
leaves. -/
lemma insert (h : store.ReadsLike log) (id : KeyId) (key : StoredKey) :
    (store.insert id key).1 = log.validateNewId id ∧
      (store.insert id key).2.ReadsLike (log ++ [(id, key)]) := by
  cases hvalid : log.validateNewId id with
  | error error =>
      -- A refused identifier is empty or already stored, and either way no lookup sees the new
      -- entry.
      have hrefused : id = [] ∨ (log.lookup id).isSome := by
        rw [KeyLog.validateNewId] at hvalid
        split at hvalid
        · exact Or.inl ‹_›
        · split at hvalid
          · exact Or.inr ‹_›
          · cases hvalid
      have hstore : store.insert id key = (.error error, store) := by
        cases key <;>
          simp only [KeyStore.insert, insertSecret, insertPublic, insertPrivate,
            h.validateNewId, hvalid]
      rw [hstore]
      exact ⟨rfl, h.secretKeys.refused hrefused, h.publicKeys.refused hrefused,
        h.privateKeys.refused hrefused⟩
  | ok _ =>
      obtain ⟨hid, hfree⟩ : id ≠ [] ∧ log.lookup id = none := by
        rw [KeyLog.validateNewId] at hvalid
        split at hvalid
        · cases hvalid
        · split at hvalid
          · cases hvalid
          · exact ⟨‹_›, Option.not_isSome_iff_eq_none.mp ‹_›⟩
      -- The map of the key's kind takes the entry, and the two others do not see it.
      cases key with
      | secretKey key =>
          simp only [KeyStore.insert, insertSecret, h.validateNewId, hvalid]
          exact ⟨trivial, h.secretKeys.emplace hid hfree rfl, h.publicKeys.other hid hfree rfl,
            h.privateKeys.other hid hfree rfl⟩
      | publicKey key =>
          simp only [KeyStore.insert, insertPublic, h.validateNewId, hvalid]
          exact ⟨trivial, h.secretKeys.other hid hfree rfl, h.publicKeys.emplace hid hfree rfl,
            h.privateKeys.other hid hfree rfl⟩
      | privateKey key =>
          simp only [KeyStore.insert, insertPrivate, h.validateNewId, hvalid]
          exact ⟨trivial, h.secretKeys.other hid hfree rfl, h.publicKeys.other hid hfree rfl,
            h.privateKeys.emplace hid hfree rfl⟩

/-- A call answers like the log. -/
lemma simulates : Simulates KeyStore.call KeyLog.call KeyStore.ReadsLike where
  answer := by
    intro store log h c
    cases c with
    | insert id key => exact congrArg KeyStoreAnswer.inserted (h.insert id key).1
    | contains id => exact congrArg KeyStoreAnswer.contains (h.hasId id)
    | findSecret id => exact congrArg KeyStoreAnswer.foundSecret (h.secretKeys id)
    | findPublic id => exact congrArg KeyStoreAnswer.foundPublic (h.publicKeys id)
    | findPrivate id => exact congrArg KeyStoreAnswer.foundPrivate (h.privateKeys id)
    | requireSecret id usage =>
        simp only [KeyStore.call, KeyLog.call, KeyLog.answer, KeyStore.requireSecret, findSecret,
          h.secretKeys id]
    | requirePublic id usage =>
        simp only [KeyStore.call, KeyLog.call, KeyLog.answer, KeyStore.requirePublic, findPublic,
          h.publicKeys id]
    | requirePrivate id usage =>
        simp only [KeyStore.call, KeyLog.call, KeyLog.answer, KeyStore.requirePrivate, findPrivate,
          h.privateKeys id]
  next := by
    intro store log h c
    cases c with
    | insert id key => exact (h.insert id key).2
    | _ => simpa [KeyStore.call, KeyLog.call, KeyLog.insertion] using h

end KeyStore.ReadsLike

/-- The store after any calls answers the next call like the log of the insertions among them. -/
theorem keyStore_answers (calls : List KeyStoreCall) (c : KeyStoreCall) :
    (KeyStore.call (stateAfter KeyStore.call {} calls) c).1 =
      KeyLog.answer (calls.flatMap KeyLog.insertion) c := by
  have hreads := KeyStore.ReadsLike.simulates.stateAfter KeyStore.ReadsLike.empty calls
  rw [KeyLog.stateAfter_call, List.nil_append] at hreads
  exact KeyStore.ReadsLike.simulates.answer hreads c

end CryptoCore
