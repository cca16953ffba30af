import Bitmessage.Core.Difficulty
import Bitmessage.Core.PubkeyStore
import Bitmessage.Core.RoundTrip
import Bitmessage.Infra.PoolAdmission

/-! The public keys of other addresses, over runs in which objects arrive, garbage is
collected, keys are given by hand and messages ask for unknown keys, in any order. A key
is taken from a `pubkey` object when the object is handled, that is the first time it
arrives; the pool remembers it afterwards. -/

namespace Bitmessage

open Transition

/-- The tables that receiving and sending work on. -/
structure PubkeySync where
  sync : SyncState
  store : PubkeyStore

inductive PubkeyEvent
  | pool (e : PoolEvent)
  | cachePubkey (address signingHex encryptionHex : Bytes)
  | sendMessage (toAddress : Bytes) (now : ℤ)

variable (N : Node)

/-- The public keys after an object has arrived. -/
def PubkeySync.storeAfter (s : PubkeySync) : PoolEvent → PubkeyStore
  | .receive K r =>
    match s.sync.sync.dispatched (N.context K) r with
    | some hdr =>
      if hdr.objectType = objectPubkey then handleIncomingPubkey N.toCrypto s.store hdr r.object else s.store
    | none => s.store
  | .gc _ | .maybeGc _ => s.store

def pubkeyNext (s : PubkeySync) : PubkeyEvent → PubkeySync
  | .pool e => ⟨poolNext N s.sync e, s.storeAfter N e⟩
  | .cachePubkey address signingHex encryptionHex =>
    { s with store := cachePubkey N.toHashes s.store address signingHex encryptionHex }
  | .sendMessage toAddress now => { s with store := requestPubkeyIfUnknown N.toHashes s.store toAddress now }

def pubkeyStep (s : PubkeySync) (e : PubkeyEvent) : Option PubkeySync := some (pubkeyNext N s e)

section

variable {N} {s : PubkeySync}

/-- An object changes the public keys only when it is a `pubkey` that is handled. -/
theorem storeAfter_receive (K : Receivers) (r : Receipt) :
    s.storeAfter N (.receive K r) = s.store ∨
      ∃ hdr row, s.sync.sync.dispatched (N.context K) r = some hdr ∧ hdr.objectType = objectPubkey ∧
        receivedPubkey N.toCrypto (pubkeyCacheListPending s.store.requests) hdr r.object = some row ∧
        s.storeAfter N (.receive K r) =
          ⟨pubkeyCacheUpsert s.store.cache row, pubkeyCacheClearRequest s.store.requests row.ripe⟩ := by
  cases hd : s.sync.sync.dispatched (N.context K) r with
  | none =>
    left
    simp only [PubkeySync.storeAfter, hd]
  | some hdr =>
    by_cases htype : hdr.objectType = objectPubkey
    · cases hrow : receivedPubkey N.toCrypto (pubkeyCacheListPending s.store.requests) hdr r.object with
      | none =>
        left
        simp only [PubkeySync.storeAfter, hd, htype, if_true, handleIncomingPubkey, hrow]
      | some row =>
        right
        refine ⟨hdr, row, rfl, htype, hrow, ?_⟩
        simp only [PubkeySync.storeAfter, hd, htype, if_true, handleIncomingPubkey, hrow]
    · left
      simp only [PubkeySync.storeAfter, hd, htype, if_false]

theorem requestPubkeyIfUnknown_cache (store : PubkeyStore) (toAddress : Bytes) (now : ℤ) :
    (requestPubkeyIfUnknown N.toHashes store toAddress now).cache = store.cache := by
  unfold requestPubkeyIfUnknown
  split
  · rfl
  · split_ifs <;> rfl

end

/-! ### Integrity of the cache -/

/-- Every row of the cache has the ripe of its keys. -/
def PubkeySync.Integrity (s : PubkeySync) : Prop := ∀ row ∈ s.store.cache.rows, row.Bound N.toHashes

/-- The keys that a successful `cachePubkey` is given hash to the ripe of the address. -/
def GivenKeysMatch (_ : PubkeySync) : PubkeyEvent → Prop
  | .cachePubkey address signingHex encryptionHex =>
    ∀ entry ∈ cachePubkeyEntry N.toHashes address signingHex encryptionHex, entry.Bound N.toHashes
  | .pool _ | .sendMessage _ _ => True

section

variable {N} {s : PubkeySync}

theorem integrity_upsert {cache : PubkeyTable} {entry : CachedPubkey} (hentry : entry.Bound N.toHashes)
    (h : ∀ row ∈ cache.rows, row.Bound N.toHashes) :
    ∀ row ∈ (pubkeyCacheUpsert cache entry).rows, row.Bound N.toHashes := by
  intro row hrow
  rcases mem_pubkeyCacheUpsert hrow with rfl | hrow
  · exact hentry
  · exact h row hrow

/-- A received object keeps the integrity. -/
theorem integrity_pool (h : s.Integrity N) (e : PoolEvent) : (pubkeyNext N s (.pool e)).Integrity N := by
  cases e with
  | receive K r =>
    rcases storeAfter_receive (N := N) (s := s) K r with hsame | ⟨hdr, row, -, -, hrow, hafter⟩
    · simpa only [PubkeySync.Integrity, pubkeyNext, hsame] using h
    · simp only [PubkeySync.Integrity, pubkeyNext, hafter]
      exact integrity_upsert (receivedPubkey_bound hrow) h
  | gc now => exact h
  | maybeGc now => exact h

/-- Every event but a successful `cachePubkey` keeps the integrity, and that one keeps it exactly
when its keys match. -/
theorem integrity_step (h : s.Integrity N) (e : PubkeyEvent) :
    GivenKeysMatch N s e ↔ ∀ t, pubkeyStep N s e = some t → t.Integrity N := by
  simp only [pubkeyStep, Option.some.injEq, forall_eq']
  cases e with
  | pool e => exact iff_of_true trivial (integrity_pool h e)
  | cachePubkey address signingHex encryptionHex =>
    simp only [GivenKeysMatch, pubkeyNext, PubkeySync.Integrity, cachePubkey]
    cases hentry : cachePubkeyEntry N.toHashes address signingHex encryptionHex with
    | none => exact iff_of_true (by simp) h
    | some entry =>
      simp only [Option.mem_def, Option.some.injEq, forall_eq']
      exact ⟨fun hbound => integrity_upsert hbound h, fun hall => hall entry mem_pubkeyCacheUpsert_self⟩
  | sendMessage toAddress now =>
    refine iff_of_true trivial ?_
    simpa only [PubkeySync.Integrity, pubkeyNext, requestPubkeyIfUnknown_cache] using h

end

/-- From a state with integrity, it holds in every state of a run exactly when the keys given by
hand match their address. -/
theorem pubkey_cache_integrity {s : PubkeySync} (hs : s.Integrity N) (es : List PubkeyEvent) :
    Always (pubkeyStep N) (PubkeySync.Integrity N) s es ↔ Along (pubkeyStep N) (GivenKeysMatch N) s es :=
  always_iff_along (fun _ e h => integrity_step h e) hs es

/-- Nothing has been received or asked for. -/
def emptyPubkeySync : PubkeySync := ⟨⟨emptySync, 0⟩, ⟨KeyedTable.empty, KeyedTable.empty⟩⟩

theorem integrity_emptyPubkeySync : emptyPubkeySync.Integrity N := fun _ h => absurd h List.not_mem_nil

/-- The address of `greeter` under the hashes of the example, and its keys in hexadecimal. -/
def greeterAddress : Bytes := (greeter.address exampleNode.toHashes).getD []
def greeterSigningHex : Bytes := [0x30, 0x34] ++ (List.replicate 64 [0x30, 0x31]).flatten
def greeterEncryptionHex : Bytes := [0x30, 0x34] ++ (List.replicate 64 [0x30, 0x32]).flatten

theorem greeterEntry_bound :
    (cachePubkeyEntry exampleNode.toHashes greeterAddress greeterSigningHex greeterEncryptionHex).isSome = true ∧
      (cachePubkeyEntry exampleNode.toHashes greeterAddress greeterSigningHex greeterEncryptionHex).all
        (fun entry => decide (entry.Bound exampleNode.toHashes)) = true := by
  decide +kernel

/-- The keys of an address are given by hand. -/
theorem greeter_cached_with_integrity :
    (cachePubkeyEntry exampleNode.toHashes greeterAddress greeterSigningHex greeterEncryptionHex).isSome = true ∧
      Always (pubkeyStep exampleNode) (PubkeySync.Integrity exampleNode) emptyPubkeySync
        [.cachePubkey greeterAddress greeterSigningHex greeterEncryptionHex] := by
  obtain ⟨hsome, hall⟩ := greeterEntry_bound
  refine ⟨hsome, (pubkey_cache_integrity exampleNode (integrity_emptyPubkeySync _) _).mpr ⟨?_, ?_⟩⟩
  · intro entry hentry
    rw [Option.mem_def.mp hentry, Option.all_some] at hall
    exact of_decide_eq_true hall
  · exact fun _ _ => trivial

/-- Zeros are given as the keys of that address. -/
theorem foreign_keys_cached :
    ¬ Always (pubkeyStep exampleNode) (PubkeySync.Integrity exampleNode) emptyPubkeySync
      [.cachePubkey greeterAddress (List.replicate 130 0x30) (List.replicate 130 0x30)] := by
  intro h
  have hend := h.2 _ rfl
  have hrows : ∀ row ∈ (pubkeyNext exampleNode emptyPubkeySync
      (.cachePubkey greeterAddress (List.replicate 130 0x30) (List.replicate 130 0x30))).store.cache.rows,
      row.Bound exampleNode.toHashes := hend
  revert hrows
  decide +kernel

end Bitmessage
