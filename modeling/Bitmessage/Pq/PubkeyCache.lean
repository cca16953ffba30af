import Bitmessage.Core.MinedObject
import Bitmessage.Core.PubkeyStore
import Bitmessage.Infra.ObjectSync
import Bitmessage.Pq.Incoming
import Bitmessage.Pq.ObjectRoundTrip

/-! The public keys of other addresses of version 5. A row is filed under the tag of its
address, and is written by a `pubkey` object that was asked for, be it on arrival or from
the pool, and with the sender of a message or of a broadcast. Each writer knows in its own
way that the keys belong to the address: the parser of a `pubkey` and of a broadcast
compares the id, the parser of a message computes it. -/

namespace Bitmessage

open Traced StickyParser Transition

/-- A row of `pq_pubkey_cache`. -/
structure PqPubkeyRow where
  tag : Bytes
  id : Bytes
  pubkey : PqPubkeyParsed
  receivedTime : ℤ

/-- A row of `pq_pubkey_requests`. -/
structure PqPubkeyRequest where
  tag : Bytes
  id : Bytes
  addressVersion : ℕ
  stream : ℕ
  requestedTime : ℤ

abbrev PqPubkeyTable := KeyedTable PqPubkeyRow.tag
abbrev PqRequestTable := KeyedTable PqPubkeyRequest.tag

structure PqPubkeyStore where
  cache : PqPubkeyTable
  requests : PqRequestTable

/-- The address of a row. -/
def PqPubkeyRow.candidate (row : PqPubkeyRow) : PqCandidate := ⟨row.pubkey.addressVersion, row.pubkey.stream, row.id⟩

/-- The address that a request asks for. -/
def PqPubkeyRequest.candidate (request : PqPubkeyRequest) : PqCandidate :=
  ⟨request.addressVersion, request.stream, request.id⟩

/-! ### The tables -/

section

variable (P : PqCrypto)

/-- `bm_pq_pubkey_cache_record_request`. -/
def pqPubkeyCacheRecordRequest (requests : PqRequestTable) (address : PqCandidate) (now : ℤ) : PqRequestTable :=
  requests.upsert ⟨address.tag P, address.id, address.version, address.stream, now⟩
    (fun row => { row with requestedTime := now }) fun _ => rfl

/-- `bm_pq_pubkey_cache_has_recent_request`. -/
def pqPubkeyCacheHasRecentRequest (requests : PqRequestTable) (tag : Bytes) (now maxAge : ℤ) : Bool :=
  match requests.find? tag with
  | some row => decide (now - row.requestedTime < maxAge)
  | none => false

/-- `bm_pq_pubkey_cache_find_request`. -/
def pqPubkeyCacheFindRequest (requests : PqRequestTable) (tag : Bytes) : Option PqPubkeyRequest :=
  (requests.find? tag).filter fun row => row.id.length = pqv5IdLen

/-- `bm_pq_pubkey_cache_clear_request`. -/
def pqPubkeyCacheClearRequest (requests : PqRequestTable) (tag : Bytes) : PqRequestTable := requests.delete tag

/-- The row that `bm_pq_pubkey_cache_upsert` writes. -/
def pqPubkeyRow (id : Bytes) (pubkey : PqPubkeyParsed) (receivedTime : ℤ) : PqPubkeyRow where
  tag := PqCandidate.tag P ⟨pubkey.addressVersion, pubkey.stream, id⟩
  id := id
  pubkey := pubkey
  receivedTime := receivedTime

/-- `bm_pq_pubkey_cache_upsert`. -/
def pqPubkeyCacheUpsert (cache : PqPubkeyTable) (id : Bytes) (pubkey : PqPubkeyParsed) (receivedTime : ℤ) :
    PqPubkeyTable :=
  cache.replace (pqPubkeyRow P id pubkey receivedTime)

/-- `bm_pq_pubkey_cache_store_sender`. -/
def pqPubkeyCacheStoreSender (store : PqPubkeyStore) (id : Bytes) (pubkey : PqPubkeyParsed) (now : ℤ) : PqPubkeyStore :=
  ⟨pqPubkeyCacheUpsert P store.cache id pubkey now,
    pqPubkeyCacheClearRequest store.requests (PqCandidate.tag P ⟨pubkey.addressVersion, pubkey.stream, id⟩)⟩

/-- `bm_pq_pubkey_cache_lookup`: version and stream are those that were asked for. -/
def pqPubkeyCacheLookup (cache : PqPubkeyTable) (address : PqCandidate) : Option PqPubkeyParsed :=
  (cache.find? (address.tag P)).bind fun row =>
    if row.pubkey.sigPk.length = pqv5SigPkLen ∧ row.pubkey.kemPk.length = pqv5KemPkLen then
      some { row.pubkey with addressVersion := address.version, stream := address.stream }
    else none

end

/-! ### The pool -/

/-- `bm_object_store_get`. -/
def objectStoreGet (pool : ObjectPool) (hash : Bytes) : Option Buf :=
  (pool.find? hash).bind fun row => if h : row.payload.length < 2 ^ 63 then some (Buf.ofBytes row.payload h) else none

/-- A row of the pool is read back. -/
theorem objectStoreGet_of_mem {pool : ObjectPool} {H : Hashes} {object : Buf} {hdr : ObjectHeader}
    {now : ℤ} (h : poolObject H object hdr now ∈ pool.rows) :
    ∃ read, objectStoreGet pool (inventoryHash H object.bytes) = some read ∧ read.bytes = object.bytes := by
  have hlen : object.bytes.length < 2 ^ 63 := by
    rw [object.length_bytes]
    exact object.size_lt
  have hfind : pool.find? (inventoryHash H object.bytes) = some (poolObject H object hdr now) :=
    KeyedTable.find?_eq_some.mpr ⟨h, rfl⟩
  refine ⟨Buf.ofBytes object.bytes hlen, ?_, Buf.bytes_ofBytes _ _⟩
  rw [objectStoreGet, hfind, Option.bind_some]
  exact dif_pos hlen

/-- `bm_object_store_list_hashes_by_tag`: the objects of a type with a tag at an offset, those that
expire last first. -/
def objectStoreListHashesByTag (pool : ObjectPool) (objectType : ℤ) (tagOffset : ℕ) (tag : Bytes) : List Bytes :=
  ((pool.rows.filter fun row => row.objectType = objectType ∧ (row.payload.drop tagOffset).take 32 = tag).mergeSort
    fun row row' => row'.expiresTime ≤ row.expiresTime).filterMap fun row =>
      if row.hash.length = 32 then some row.hash else none

section

variable (P : PqCrypto)

/-- The row that `bm_object_sync_resolve_pq_pubkey_from_pool` writes: the tag is looked for where it
stands behind a header with the stream of the address. -/
def poolPubkeyRow (pool : ObjectPool) (address : PqCandidate) (now : ℤ) : Option PqPubkeyRow :=
  let tagOffset := 8 + 8 + 4 + varintSize pqPubkeyObjectVersion + varintSize address.stream
  (objectStoreListHashesByTag pool objectPubkey tagOffset (address.tag P)).findSome? fun hash =>
    (objectStoreGet pool hash).bind fun object =>
      (pqParsed (pqParsePubkey P address object)).map fun parsed => pqPubkeyRow P address.id parsed now

/-- `bm_object_sync_resolve_pq_pubkey_from_pool`. -/
def resolvePqPubkeyFromPool (pool : ObjectPool) (store : PqPubkeyStore) (address : PqCandidate) (now : ℤ) :
    Option PqPubkeyStore :=
  (poolPubkeyRow P pool address now).map fun row =>
    ⟨store.cache.replace row, pqPubkeyCacheClearRequest store.requests (address.tag P)⟩

/-! ### Objects that arrive -/

/-- The row that `handle_incoming_pubkey_v5` writes: the tag is what stands behind the header as it
was parsed, and only what was asked for is opened. -/
def incomingPubkeyRow (requests : PqRequestTable) (hdr : ObjectHeader) (object : Buf) (now : ℤ) :
    Option PqPubkeyRow :=
  if object.size - hdr.headerLen < 32 then none
  else
    (pqPubkeyCacheFindRequest requests (object.slice hdr.headerLen 32)).bind fun request =>
      (pqParsed (pqParsePubkey P request.candidate object)).map fun parsed => pqPubkeyRow P request.id parsed now

/-- `handle_incoming_pubkey_v5`. -/
def handleIncomingPubkeyV5 (store : PqPubkeyStore) (hdr : ObjectHeader) (object : Buf) (now : ℤ) : PqPubkeyStore :=
  match incomingPubkeyRow P store.requests hdr object now with
  | none => store
  | some row =>
    ⟨store.cache.replace row, pqPubkeyCacheClearRequest store.requests (object.slice hdr.headerLen 32)⟩

/-- The sender's keys in a message. -/
def PqMsgParsed.senderPubkey (parsed : PqMsgParsed) : PqPubkeyParsed :=
  ⟨parsed.fromAddressVersion, parsed.fromStream, parsed.bitfield, parsed.fromSigPk, parsed.fromKemPk,
    parsed.nonceTrialsPerByte, parsed.payloadLengthExtraBytes⟩

/-- The sender's keys in a broadcast: version and stream are those of the subscription. -/
def PqBroadcastParsed.senderPubkey (parsed : PqBroadcastParsed) (address : PqCandidate) : PqPubkeyParsed :=
  ⟨address.version, address.stream, parsed.bitfield, parsed.fromSigPk, parsed.fromKemPk,
    parsed.nonceTrialsPerByte, parsed.payloadLengthExtraBytes⟩

variable (H : Hashes)

/-- The sender's address, unless it does not fit into the column. -/
def pqSenderAddress (version stream : ℕ) (id : Bytes) : Option Bytes :=
  (pqv5AddressEncode H version stream id).filter fun address => address.length < addressStrMax

/-- What `bm_pq_trial_decrypt_and_store` does to the public keys. `stored` says if the row of the
message went into the inbox. -/
def pqTrialDecryptAndStore (identities : List UnlockedPqIdentity) (stored : Bool) (store : PqPubkeyStore) (object : Buf)
    (now : ℤ) : PqPubkeyStore :=
  match pqKeyringOpenMsg P identities object with
  | none => store
  | some (_, parsed) =>
    if (pqSenderAddress H parsed.fromAddressVersion parsed.fromStream parsed.fromId).isSome ∧ stored then
      pqPubkeyCacheStoreSender P store parsed.fromId parsed.senderPubkey now
    else store

/-- What `bm_pq_trial_decrypt_broadcast_and_store` does to the public keys, if it succeeds. -/
def pqTrialDecryptBroadcastAndStore (address : PqCandidate) (stored : Bool) (store : PqPubkeyStore) (object : Buf)
    (now : ℤ) : Option PqPubkeyStore :=
  (pqParsed (pqParseBroadcast P address object)).bind fun parsed =>
    if (pqSenderAddress H address.version address.stream address.id).isSome ∧ stored then
      some (pqPubkeyCacheStoreSender P store address.id (parsed.senderPubkey address) now)
    else none

/-- What `handle_incoming_broadcast_v6` does to the public keys: the first subscription of version 5
that can read the broadcast. -/
def pqBroadcastForSubscriptions (subscriptions : List Bytes) (stored : Bool) (store : PqPubkeyStore) (object : Buf)
    (now : ℤ) : PqPubkeyStore :=
  (subscriptions.findSome? fun address =>
    (pqv5AddressDecode H address).bind fun (version, stream, id) =>
      pqTrialDecryptBroadcastAndStore P H ⟨version, stream, id⟩ stored store object now).getD store

/-- What the handlers read: the unlocked identities and the subscriptions, and if a row goes into
the inbox. -/
structure PqReceivers where
  identities : List UnlockedPqIdentity
  subscriptions : List Bytes
  stored : Bool

/-- The branches of `handle_object` for address version 5. They are taken when the post-quantum
support is switched on. -/
def pqHandleObject (R : PqReceivers) (store : PqPubkeyStore) (hdr : ObjectHeader) (object : Buf) (now : ℤ) :
    PqPubkeyStore :=
  if hdr.objectType = objectMsg then
    if hdr.version = pqMsgObjectVersion then pqTrialDecryptAndStore P H R.identities R.stored store object now else store
  else if hdr.objectType = objectPubkey then
    if hdr.version = pqPubkeyObjectVersion then handleIncomingPubkeyV5 P store hdr object now else store
  else if hdr.objectType = objectBroadcast then
    if hdr.version = pqBroadcastObjectVersion then
      pqBroadcastForSubscriptions P H R.subscriptions R.stored store object now
    else store
  else store

/-! ### Messages that are sent -/

/-- `pq_request_pubkey_if_unknown`: an address of its own is not asked for, nor one whose key is
known or in the pool. `own` are the addresses of the table of identities. -/
def pqRequestPubkeyIfUnknown (M : Allocator) (own : List Bytes) (pool : ObjectPool) (store : PqPubkeyStore)
    (toAddress : Bytes) (now : ℤ) : PqPubkeyStore :=
  match pqv5AddressDecode H toAddress with
  | none => store
  | some (version, stream, id) =>
    let address : PqCandidate := ⟨version, stream, id⟩
    if toAddress ∈ own ∨ (pqPubkeyCacheLookup P store.cache address).isSome then store
    else
      match resolvePqPubkeyFromPool P pool store address now with
      | some resolved => resolved
      | none =>
        if pqPubkeyCacheHasRecentRequest store.requests (address.tag P) now getpubkeyRequestCooldown then store
        else
          match pqBuildGetpubkey P M version stream id (addW (ofInt64 now) getpubkeyRequestTtl) with
          | none => store
          | some _ => { store with requests := pqPubkeyCacheRecordRequest P store.requests address now }

inductive PqPubkeyEvent
  | receive (R : PqReceivers) (object : Buf) (now : ℤ)
  | backfill (R : PqReceivers) (object : Buf) (now : ℤ)
  | sendMessage (M : Allocator) (own : List Bytes) (pool : ObjectPool) (toAddress : Bytes) (now : ℤ)

/-- An object arrives, a message in the pool is tried again for an identity that was unlocked, or a
message is sent. -/
def pqPubkeyNext (store : PqPubkeyStore) : PqPubkeyEvent → PqPubkeyStore
  | .receive R object now => object.header.elim store fun hdr => pqHandleObject P H R store hdr object now
  | .backfill R object now => pqTrialDecryptAndStore P H R.identities R.stored store object now
  | .sendMessage M own pool toAddress now => pqRequestPubkeyIfUnknown P H M own pool store toAddress now

def pqPubkeyStep (store : PqPubkeyStore) (e : PqPubkeyEvent) : Option PqPubkeyStore := some (pqPubkeyNext P H store e)

end

def emptyPqPubkeyStore : PqPubkeyStore := ⟨KeyedTable.empty, KeyedTable.empty⟩

/-! ### Integrity -/

section

variable (P : PqCrypto)

/-- The row is of version 5, its id is the hash of its keys, and its tag is that of its address. -/
structure PqPubkeyRow.Bound (row : PqPubkeyRow) : Prop where
  version : row.pubkey.addressVersion = pqv5AddressVersion
  id : row.id = pqv5CalcId P row.pubkey.sigPk row.pubkey.kemPk
  tag : row.tag = row.candidate.tag P

/-- The request is for an address of version 5 and filed under its tag. -/
structure PqPubkeyRequest.Bound (request : PqPubkeyRequest) : Prop where
  version : request.addressVersion = pqv5AddressVersion
  length_id : request.id.length = pqv5IdLen
  tag : request.tag = request.candidate.tag P

/-- Every row is bound to its address. -/
structure PqPubkeyStore.Integrity (store : PqPubkeyStore) : Prop where
  cache : ∀ row ∈ store.cache.rows, row.Bound P
  requests : ∀ request ∈ store.requests.rows, request.Bound P

end

section

variable {P : PqCrypto} {H : Hashes} {store : PqPubkeyStore} {row : PqPubkeyRow}

theorem bound_pqPubkeyRow {id : Bytes} {pubkey : PqPubkeyParsed} {now : ℤ}
    (hversion : pubkey.addressVersion = pqv5AddressVersion) (hid : pqv5CalcId P pubkey.sigPk pubkey.kemPk = id) :
    (pqPubkeyRow P id pubkey now).Bound P :=
  ⟨hversion, hid.symm, rfl⟩

/-- A bound row may be written, and any request be cleared. -/
theorem PqPubkeyStore.Integrity.write (h : store.Integrity P) (hrow : row.Bound P) (tag : Bytes) :
    PqPubkeyStore.Integrity P ⟨store.cache.replace row, pqPubkeyCacheClearRequest store.requests tag⟩ where
  cache := by
    intro row' hrow'
    rcases KeyedTable.mem_replace.mp hrow' with rfl | ⟨hmem, -⟩
    · exact hrow
    · exact h.cache row' hmem
  requests request hrequest := h.requests request (KeyedTable.mem_delete.mp hrequest).1

/-- The parser of a `pubkey` answers with the address it was asked about, and keys that belong to it. -/
theorem pqParsePubkey_bound {address : PqCandidate} {object : Buf} {parsed : PqPubkeyParsed} {now : ℤ}
    (hversion : address.version = pqv5AddressVersion) (h : pqParsed (pqParsePubkey P address object) = some parsed) :
    (pqPubkeyRow P address.id parsed now).Bound P ∧ (pqPubkeyRow P address.id parsed now).candidate = address := by
  obtain ⟨u, hresult⟩ := pqParsed_eq_some h
  unfold pqParsePubkey at hresult
  obtain ⟨inner, s₀, h₀, g₀⟩ := result_bind_eq_some.mp hresult
  obtain ⟨keys, s₁, h₁, g₁⟩ := result_bind_eq_some.mp g₀
  obtain ⟨_, s₂, h₂, g₂⟩ := result_bind_eq_some.mp g₁
  obtain ⟨_, s₃, h₃, g₃⟩ := result_bind_eq_some.mp g₂
  have hid := (result_require_eq_some.mp h₃).1
  rw [result_pure] at g₃
  cases g₃
  exact ⟨bound_pqPubkeyRow hversion hid, rfl⟩

theorem pqPubkeyCacheFindRequest_eq_some {requests : PqRequestTable} {tag : Bytes} {request : PqPubkeyRequest}
    (h : pqPubkeyCacheFindRequest requests tag = some request) : request ∈ requests.rows ∧ request.tag = tag := by
  obtain ⟨hfind, -⟩ := Option.filter_eq_some_iff.mp h
  exact KeyedTable.find?_eq_some.mp hfind

/-- What arrives is stored for an address that was asked for. -/
theorem incomingPubkeyRow_eq_some {hdr : ObjectHeader} {object : Buf} {now : ℤ}
    (h : incomingPubkeyRow P store.requests hdr object now = some row) :
    ∃ request ∈ store.requests.rows, request.tag = object.slice hdr.headerLen 32 ∧
      ∃ parsed, pqParsed (pqParsePubkey P request.candidate object) = some parsed ∧
        row = pqPubkeyRow P request.id parsed now := by
  unfold incomingPubkeyRow at h
  split_ifs at h with hshort
  obtain ⟨request, hrequest, h⟩ := Option.bind_eq_some_iff.mp h
  obtain ⟨parsed, hparsed, hrow⟩ := Option.map_eq_some_iff.mp h
  obtain ⟨hmem, htag⟩ := pqPubkeyCacheFindRequest_eq_some hrequest
  exact ⟨request, hmem, htag, parsed, hparsed, hrow.symm⟩

theorem poolPubkeyRow_eq_some {pool : ObjectPool} {address : PqCandidate} {now : ℤ}
    (h : poolPubkeyRow P pool address now = some row) :
    ∃ object parsed, pqParsed (pqParsePubkey P address object) = some parsed ∧
      row = pqPubkeyRow P address.id parsed now := by
  obtain ⟨hash, -, h⟩ := List.exists_of_findSome?_eq_some h
  obtain ⟨object, -, h⟩ := Option.bind_eq_some_iff.mp h
  obtain ⟨parsed, hparsed, hrow⟩ := Option.map_eq_some_iff.mp h
  exact ⟨object, parsed, hparsed, hrow.symm⟩

/-! Each writer keeps the integrity. -/

theorem integrity_handleIncomingPubkeyV5 (h : store.Integrity P) (hdr : ObjectHeader) (object : Buf) (now : ℤ) :
    (handleIncomingPubkeyV5 P store hdr object now).Integrity P := by
  unfold handleIncomingPubkeyV5
  cases hrow : incomingPubkeyRow P store.requests hdr object now with
  | none => exact h
  | some row =>
    obtain ⟨request, hmem, -, parsed, hparsed, rfl⟩ := incomingPubkeyRow_eq_some hrow
    apply h.write
    exact (pqParsePubkey_bound (h.requests request hmem).version hparsed).1

theorem integrity_resolvePqPubkeyFromPool (h : store.Integrity P) {pool : ObjectPool} {address : PqCandidate} {now : ℤ}
    (hversion : address.version = pqv5AddressVersion) {store' : PqPubkeyStore}
    (hstore : resolvePqPubkeyFromPool P pool store address now = some store') : store'.Integrity P := by
  obtain ⟨row, hrow, rfl⟩ := Option.map_eq_some_iff.mp hstore
  obtain ⟨object, parsed, hparsed, rfl⟩ := poolPubkeyRow_eq_some hrow
  apply h.write
  exact (pqParsePubkey_bound hversion hparsed).1

/-- The parser of a message computes the id of the sender, and the keyring wants version 5. -/
theorem integrity_pqTrialDecryptAndStore (h : store.Integrity P) (identities : List UnlockedPqIdentity) (stored : Bool)
    (object : Buf) (now : ℤ) : (pqTrialDecryptAndStore P H identities stored store object now).Integrity P := by
  unfold pqTrialDecryptAndStore
  cases hopen : pqKeyringOpenMsg P identities object with
  | none => exact h
  | some opened =>
    obtain ⟨identity, parsed⟩ := opened
    obtain ⟨-, kemSk, -, hparsed, hversion, -⟩ := pqKeyringOpenMsg_eq_some hopen
    obtain ⟨u, hresult⟩ := pqParsed_eq_some hparsed
    obtain ⟨-, -, -, -, -, -, -, -, -, hid⟩ := pqParseMsg_eq_some hresult
    dsimp only
    split
    · exact h.write (bound_pqPubkeyRow hversion hid.symm) _
    · exact h

/-- The parser of a broadcast compares the id with that of the subscription. -/
theorem integrity_pqTrialDecryptBroadcastAndStore (h : store.Integrity P) {address : PqCandidate} {stored : Bool}
    {object : Buf} {now : ℤ} (hversion : address.version = pqv5AddressVersion) {store' : PqPubkeyStore}
    (hstore : pqTrialDecryptBroadcastAndStore P H address stored store object now = some store') :
    store'.Integrity P := by
  obtain ⟨parsed, hparsed, hstore⟩ := Option.bind_eq_some_iff.mp hstore
  obtain ⟨u, hresult⟩ := pqParsed_eq_some hparsed
  obtain ⟨inner, q, off, -, -, hfrom, -⟩ := pqParseBroadcast_eq_some hresult
  split at hstore
  · cases hstore
    exact h.write (bound_pqPubkeyRow hversion hfrom.2.2.2) _
  · cases hstore

theorem integrity_pqBroadcastForSubscriptions (h : store.Integrity P) (subscriptions : List Bytes) (stored : Bool)
    (object : Buf) (now : ℤ) :
    (pqBroadcastForSubscriptions P H subscriptions stored store object now).Integrity P := by
  unfold pqBroadcastForSubscriptions
  cases hfirst : subscriptions.findSome? fun address =>
      (pqv5AddressDecode H address).bind fun (version, stream, id) =>
        pqTrialDecryptBroadcastAndStore P H ⟨version, stream, id⟩ stored store object now with
  | none => exact h
  | some store' =>
    obtain ⟨address, -, hstore⟩ := List.exists_of_findSome?_eq_some hfirst
    obtain ⟨⟨version, stream, id⟩, hdecode, hstore⟩ := Option.bind_eq_some_iff.mp hstore
    exact integrity_pqTrialDecryptBroadcastAndStore h (pqv5AddressDecode_eq_some hdecode).1 hstore

theorem integrity_pqHandleObject (h : store.Integrity P) (R : PqReceivers) (hdr : ObjectHeader) (object : Buf) (now : ℤ) :
    (pqHandleObject P H R store hdr object now).Integrity P := by
  unfold pqHandleObject
  split_ifs
  · exact integrity_pqTrialDecryptAndStore h _ _ _ _
  · exact h
  · exact integrity_handleIncomingPubkeyV5 h _ _ _
  · exact h
  · exact integrity_pqBroadcastForSubscriptions h _ _ _ _
  · exact h
  · exact h

/-- A request is filed under the tag of its address, and keeps it when it is made again. -/
theorem integrity_recordRequest (h : store.Integrity P) {address : PqCandidate} (now : ℤ)
    (hversion : address.version = pqv5AddressVersion) (hid : address.id.length = pqv5IdLen) :
    PqPubkeyStore.Integrity P ⟨store.cache, pqPubkeyCacheRecordRequest P store.requests address now⟩ where
  cache := h.cache
  requests := by
    intro request hrequest
    have hfind : (pqPubkeyCacheRecordRequest P store.requests address now).find? request.tag = some request :=
      KeyedTable.find?_eq_some.mpr ⟨hrequest, rfl⟩
    by_cases htag : request.tag = address.tag P
    · rw [htag, pqPubkeyCacheRecordRequest, KeyedTable.find?_upsert_self] at hfind
      cases hold : store.requests.find? (address.tag P) with
      | none =>
        rw [hold] at hfind
        cases hfind
        exact ⟨hversion, hid, rfl⟩
      | some old =>
        rw [hold] at hfind
        cases hfind
        obtain ⟨hver, hlen, htag⟩ := h.requests old (KeyedTable.find?_eq_some.mp hold).1
        exact ⟨hver, hlen, htag⟩
    · rw [pqPubkeyCacheRecordRequest, KeyedTable.find?_upsert_of_ne store.requests] at hfind
      · exact h.requests request (KeyedTable.find?_eq_some.mp hfind).1
      · exact htag

theorem integrity_pqRequestPubkeyIfUnknown (h : store.Integrity P) (M : Allocator) (own : List Bytes) (pool : ObjectPool)
    (toAddress : Bytes) (now : ℤ) : (pqRequestPubkeyIfUnknown P H M own pool store toAddress now).Integrity P := by
  unfold pqRequestPubkeyIfUnknown
  cases hdecode : pqv5AddressDecode H toAddress with
  | none => exact h
  | some address =>
    obtain ⟨version, stream, id⟩ := address
    obtain ⟨hversion, hid⟩ := pqv5AddressDecode_eq_some hdecode
    dsimp only
    split
    · exact h
    · cases hresolve : resolvePqPubkeyFromPool P pool store ⟨version, stream, id⟩ now with
      | some store' => exact integrity_resolvePqPubkeyFromPool h hversion hresolve
      | none =>
        dsimp only
        split_ifs with hrecent
        · exact h
        · cases pqBuildGetpubkey P M version stream id (addW (ofInt64 now) getpubkeyRequestTtl) with
          | none => exact h
          | some payload => exact integrity_recordRequest h now hversion hid

theorem integrity_pqPubkeyStep {e : PqPubkeyEvent} {store' : PqPubkeyStore} (h : store.Integrity P)
    (hstep : pqPubkeyStep P H store e = some store') : store'.Integrity P := by
  cases hstep
  cases e with
  | receive R object now =>
    simp only [pqPubkeyNext]
    cases object.header with
    | none => exact h
    | some hdr => exact integrity_pqHandleObject h R hdr object now
  | backfill R object now => exact integrity_pqTrialDecryptAndStore h _ _ _ _
  | sendMessage M own pool toAddress now => exact integrity_pqRequestPubkeyIfUnknown h M own pool toAddress now

theorem integrity_run {es : List PqPubkeyEvent} (hrun : run (pqPubkeyStep P H) emptyPqPubkeyStore es = some store) :
    store.Integrity P := by
  have hempty : emptyPqPubkeyStore.Integrity P :=
    ⟨fun _ h => absurd h List.not_mem_nil, fun _ h => absurd h List.not_mem_nil⟩
  exact run_invariant (fun _ _ _ hs hstep => integrity_pqPubkeyStep hs hstep) hempty hrun

theorem pqPubkeyCacheLookup_eq_some {cache : PqPubkeyTable} {address : PqCandidate} {pubkey : PqPubkeyParsed}
    (h : pqPubkeyCacheLookup P cache address = some pubkey) : ∃ row ∈ cache.rows, row.tag = address.tag P ∧
      pubkey = { row.pubkey with addressVersion := address.version, stream := address.stream } := by
  obtain ⟨row, hfind, h⟩ := Option.bind_eq_some_iff.mp h
  obtain ⟨hmem, htag⟩ := KeyedTable.find?_eq_some.mp hfind
  split_ifs at h with hlengths
  cases h
  exact ⟨row, hmem, htag, rfl⟩

end

/-- In every run every row of the cache is bound to its address, and a lookup answers with the keys
of a row under the tag of the address. These are keys of the address itself unless the tag of
another address is the same. -/
theorem pq_pubkey_cache_integrity (P : PqCrypto) (H : Hashes) {es : List PqPubkeyEvent} {store : PqPubkeyStore}
    (hrun : run (pqPubkeyStep P H) emptyPqPubkeyStore es = some store) :
    (∀ row ∈ store.cache.rows, row.Bound P) ∧
      ∀ address pubkey, pqPubkeyCacheLookup P store.cache address = some pubkey →
        (∃ row ∈ store.cache.rows, row.Bound P ∧ row.tag = address.tag P ∧
          pubkey = { row.pubkey with addressVersion := address.version, stream := address.stream }) ∧
        (address.version = pqv5AddressVersion ∧ address.id = pqv5CalcId P pubkey.sigPk pubkey.kemPk ∨
          ∃ other : PqCandidate, other ≠ address ∧ other.tag P = address.tag P) := by
  have hintegrity := integrity_run hrun
  refine ⟨hintegrity.cache, ?_⟩
  intro address pubkey hlookup
  obtain ⟨row, hmem, htag, hpubkey⟩ := pqPubkeyCacheLookup_eq_some hlookup
  have hbound := hintegrity.cache row hmem
  refine ⟨⟨row, hmem, hbound, htag, hpubkey⟩, ?_⟩
  by_cases hsame : row.candidate = address
  · left
    rw [← hsame, hpubkey]
    exact ⟨hbound.version, hbound.id⟩
  · right
    exact ⟨row.candidate, hsame, hbound.tag.symm.trans htag⟩

/-- The recipient of the message from the sender of ones. -/
def sevensIdentity : UnlockedPqIdentity := ⟨[], List.replicate pqv5IdLen 7, some []⟩

/-- The message is in the pool when its recipient is unlocked. -/
def onesBackfill : List PqPubkeyEvent := [.backfill ⟨[sevensIdentity], [], true⟩ onesObject 0]

theorem rows_pqPubkeyCacheStoreSender_empty (P : PqCrypto) (id : Bytes) (pubkey : PqPubkeyParsed) (now : ℤ) :
    (pqPubkeyCacheStoreSender P emptyPqPubkeyStore id pubkey now).cache.rows = [pqPubkeyRow P id pubkey now] := rfl

theorem run_backfill (P : PqCrypto) (H : Hashes) (store : PqPubkeyStore) (R : PqReceivers) (object : Buf) (now : ℤ) :
    run (pqPubkeyStep P H) store [.backfill R object now] =
      some (pqTrialDecryptAndStore P H R.identities R.stored store object now) := rfl

theorem pqKeyringOpenMsg_singleton {P : PqCrypto} {identity : UnlockedPqIdentity} {kemSk : Bytes} {object : Buf}
    {parsed : PqMsgParsed} (hsk : identity.kemSk = some kemSk)
    (hparsed : pqParsed (pqParseMsg P kemSk object) = some parsed)
    (hversion : parsed.fromAddressVersion = pqv5AddressVersion) (hid : parsed.toId = identity.id) :
    pqKeyringOpenMsg P [identity] object = some (identity, parsed) := by
  simp only [pqKeyringOpenMsg, List.findSome?_cons, pqOpenAs, hsk, Option.bind_some, hparsed, hversion, hid, ne_eq,
    not_true_eq_false, or_self, if_false]

theorem pqTrialDecryptAndStore_opened {P : PqCrypto} {H : Hashes} {identities : List UnlockedPqIdentity}
    {identity : UnlockedPqIdentity} {parsed : PqMsgParsed} {store : PqPubkeyStore} {object : Buf} {now : ℤ}
    (hopened : pqKeyringOpenMsg P identities object = some (identity, parsed))
    (haddress : (pqSenderAddress H parsed.fromAddressVersion parsed.fromStream parsed.fromId).isSome = true) :
    pqTrialDecryptAndStore P H identities true store object now =
      pqPubkeyCacheStoreSender P store parsed.fromId parsed.senderPubkey now := by
  simp only [pqTrialDecryptAndStore, hopened, haddress, and_self, if_true]

theorem onesObject_opened : ∃ parsed, pqKeyringOpenMsg plainPqCrypto [sevensIdentity] onesObject = some (sevensIdentity, parsed) ∧
    parsed.fromAddressVersion = 5 ∧ parsed.fromStream = 1 ∧ parsed.fromId = List.replicate pqv5IdLen 1 := by
  obtain ⟨b, -, -, hparsed⟩ := onesMsg_round_trip
  exact ⟨_, pqKeyringOpenMsg_singleton rfl hparsed rfl rfl, rfl, rfl, rfl⟩

/-- The sender of a message is cached. -/
theorem ones_sender_cached : ∃ store,
    run (pqPubkeyStep plainPqCrypto prefixHashes) emptyPqPubkeyStore onesBackfill = some store ∧
      store.cache.rows.length = 1 ∧ (∀ row ∈ store.cache.rows, row.Bound plainPqCrypto) ∧
      ∀ address pubkey, pqPubkeyCacheLookup plainPqCrypto store.cache address = some pubkey →
        (∃ row ∈ store.cache.rows, row.Bound plainPqCrypto ∧ row.tag = address.tag plainPqCrypto ∧
          pubkey = { row.pubkey with addressVersion := address.version, stream := address.stream }) ∧
        (address.version = pqv5AddressVersion ∧ address.id = pqv5CalcId plainPqCrypto pubkey.sigPk pubkey.kemPk ∨
          ∃ other : PqCandidate, other ≠ address ∧ other.tag plainPqCrypto = address.tag plainPqCrypto) := by
  obtain ⟨parsed, hopened, hversion, hstream, hid⟩ := onesObject_opened
  have haddress : (pqSenderAddress prefixHashes parsed.fromAddressVersion parsed.fromStream parsed.fromId).isSome = true := by
    rw [hversion, hstream, hid]
    decide +kernel
  have hrun : run (pqPubkeyStep plainPqCrypto prefixHashes) emptyPqPubkeyStore onesBackfill =
      some (pqPubkeyCacheStoreSender plainPqCrypto emptyPqPubkeyStore parsed.fromId parsed.senderPubkey 0) := by
    rw [onesBackfill, run_backfill, pqTrialDecryptAndStore_opened hopened haddress]
  refine ⟨_, hrun, ?_, pq_pubkey_cache_integrity plainPqCrypto prefixHashes hrun⟩
  rw [rows_pqPubkeyCacheStoreSender_empty, List.length_singleton]

end Bitmessage
