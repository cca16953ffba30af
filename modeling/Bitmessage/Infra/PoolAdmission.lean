import Bitmessage.Infra.MsgDelivery
import Bitmessage.Pq.Incoming
import Bitmessage.Pq.ObjectRoundTrip

/-! What comes into the object pool from the network, over runs in which objects arrive
and garbage is collected in any order. Every row was admitted by the checks at the time it
was received. The pool is also the memory of what was handled already: the collector
forgets an object only when the acceptance test would refuse it, so that nothing is
handled twice as long as the clock does not run backwards. -/

namespace Bitmessage

open Transition Traced BufParser

/-- `BM_OBJECT_GC_GRACE_PERIOD_SECONDS`. -/
def objectGcGracePeriod : ℤ := 3 * 60 * 60

/-- `BM_OBJECT_SYNC_GC_INTERVAL_SECONDS`. -/
def objectSyncGcInterval : ℤ := 300

/-- `bm_object_store_delete_expired`: the pool and the number of rows removed. -/
def objectStoreDeleteExpired (pool : ObjectPool) (now : ℤ) : ObjectPool × ℕ :=
  let kept := pool.deleteWhere fun row => decide (row.expiresTime < now)
  (kept, pool.rows.length - kept.rows.length)

/-- The tables and the time of the last collection. -/
structure SyncState where
  sync : ObjectSync
  lastGc : ℤ

/-- `bm_object_sync_gc`. -/
def objectSyncGc (s : SyncState) (now : ℤ) : SyncState × ℕ :=
  let (pool, deleted) := objectStoreDeleteExpired s.sync.pool (now - objectGcGracePeriod)
  (⟨{ s.sync with pool := pool }, now⟩, deleted)

/-- `maybe_run_gc`. -/
def maybeRunGc (s : SyncState) (now : ℤ) : SyncState :=
  if objectSyncGcInterval ≤ now - s.lastGc then (objectSyncGc s now).1 else s

/-- The cryptography of a node and the network it is on. -/
structure Node extends Crypto where
  pq : PqCrypto
  magic : Bytes

/-- What the node has unlocked and subscribed to when an object arrives. -/
structure Receivers where
  unlocked : List UnlockedIdentity
  subscriptions : List Bytes
  pqEnabled : Bool
  pqIdentities : List UnlockedPqIdentity
  pqBroadcast : Buf → Option DecodedBroadcast

variable (N : Node)

/-- What `handle_object` then reads. -/
def Node.context (K : Receivers) : SyncContext where
  toCrypto := N.toCrypto
  magic := N.magic
  unlocked := K.unlocked
  subscriptions := K.subscriptions
  pqMsg object := if K.pqEnabled then pqDecodedMsg N.toCrypto N.pq K.pqIdentities object else none
  pqBroadcast object := if K.pqEnabled then K.pqBroadcast object else none

inductive PoolEvent
  | receive (K : Receivers) (r : Receipt)
  | gc (now : ℤ)
  | maybeGc (now : ℤ)

/-- The times that are read, in order. -/
def PoolEvent.times : PoolEvent → List ℤ
  | receive _ r => [r.now, r.storedAt, r.ackNow]
  | gc now | maybeGc now => [now]

def poolNext (s : SyncState) : PoolEvent → SyncState
  | .receive K r => { s with sync := handleObject (N.context K) s.sync r }
  | .gc now => (objectSyncGc s now).1
  | .maybeGc now => maybeRunGc s now

def poolStep (s : SyncState) (e : PoolEvent) : Option SyncState := some (poolNext N s e)

/-- The hash of the object that the event handles according to its type. -/
def handledBy (s : SyncState) : PoolEvent → List Bytes
  | .receive K r => if (s.sync.dispatched (N.context K) r).isSome then [r.hash (N.context K)] else []
  | .gc _ | .maybeGc _ => []

/-- The hashes of the objects that are handled according to their type, in a run. -/
def handledIn : SyncState → List PoolEvent → List Bytes
  | _, [] => []
  | s, e :: es => handledBy N s e ++ handledIn (poolNext N s e) es

/-- A row with the object it was made of: keyed by the hash of its bytes, not too long, not expired
for longer than the grace period and worked for when it was received. -/
structure Admitted (H : Hashes) (row : PoolObject) (object : Buf) (hdr : ObjectHeader) : Prop where
  payload : row.payload = object.bytes
  hash : row.hash = inventoryHash H row.payload
  size : row.payload.length ≤ maxObjectPayloadSize
  header : object.header = some hdr
  expiresTime : row.expiresTime = toInt64 hdr.expiresTime
  expired : row.receivedTime - objectExpireGracePeriod ≤ row.expiresTime
  pow : objectPowIsValid H object hdr row.receivedTime = true

/-- A decrypted text is not longer than the ciphertext. -/
structure Node.OpensWithin : Prop where
  ecies : ∀ ciphertext priv body, N.eciesDecrypt ciphertext priv = some body → body.size ≤ ciphertext.length
  pq : N.pq.OpensWithin

/-! ### Admission -/

section

variable {N} {H : Hashes} {X : SyncContext} {s : ObjectSync} {r : Receipt}

theorem admitted_poolObject {object : Buf} {hdr : ObjectHeader} {now : ℤ} (hsize : object.size ≤ maxObjectPayloadSize)
    (h : objectCheck H object now = some hdr) : Admitted H (poolObject H object hdr now) object hdr := by
  obtain ⟨hdr', hheader, hcheck⟩ := Option.bind_eq_some_iff.mp h
  split_ifs at hcheck with hexpired hpow
  cases hcheck
  refine ⟨rfl, rfl, ?_, hheader, rfl, not_lt.mp hexpired, hpow⟩
  show object.bytes.length ≤ maxObjectPayloadSize
  rwa [Buf.length_bytes]

theorem objectAccept_eq_some {object : Buf} {hdr : ObjectHeader} {now : ℤ}
    (h : objectAccept H object now = some hdr) :
    object.size ≤ maxObjectPayloadSize ∧ objectCheck H object now = some hdr := by
  unfold objectAccept at h
  split_ifs at h with hsize
  exact ⟨not_lt.mp hsize, h⟩

/-- A parsed packet is as long as its header and its payload. -/
theorem consumed_parseMessage_ok {magic data : Bytes} {msg : Message} {n : ℕ}
    (h : parseMessage H magic data = .ok msg n) : n = messageHeaderSize + msg.payload.length := by
  unfold parseMessage at h
  simp only at h
  split_ifs at h with hheader hmagic hmax htotal hsum
  cases h
  simp only [messageHeaderSize, List.length_take, List.length_drop] at htotal ⊢
  omega

/-- The object of an acknowledgement is a part of it. -/
theorem admitted_validatedAck {magic ackPayload : Bytes} {now : ℤ} {row : PoolObject}
    (hlen : ackPayload.length ≤ maxObjectPayloadSize ∨ 2 ^ 63 ≤ ackPayload.length)
    (h : validatedAck H magic ackPayload now = some row) :
    (∃ object hdr, Admitted H row object hdr) ∧ row.receivedTime = now := by
  unfold validatedAck at h
  split at h
  · next msg consumed hparse =>
    split_ifs at h with hwhole
    rw [not_or, not_not] at hwhole
    obtain ⟨hdr, hcheck, rfl⟩ := Option.map_eq_some_iff.mp h
    have hconsumed := consumed_parseMessage_ok hparse
    have hmax := msg.payload_length
    have hsize : msg.buffer.size = msg.payload.length := rfl
    refine ⟨⟨msg.buffer, hdr, admitted_poolObject ?_ hcheck⟩, rfl⟩
    unfold maxMessageLength messageHeaderSize at *
    omega
  · cases h

/-! ### The acknowledgement in a plaintext -/

theorem cursor_senderDifficulty {body : Buf} {fromVer p q : ℕ} {u : Unit} (hp : p ≤ body.size)
    (h : (senderDifficulty body fromVer).result p = some (u, q)) : q ≤ body.size := by
  unfold senderDifficulty at h
  split_ifs at h
  · obtain ⟨_, p₁, h₁, h⟩ := result_bind_eq_some.mp h
    obtain ⟨_, p₂, h₂, h⟩ := result_bind_eq_some.mp h
    rw [result_varint hp] at h₁
    have hp₁ := (Buf.varintAt_eq_some h₁ hp).2.1
    rw [result_varint hp₁] at h₂
    rw [result_pure] at h
    cases h
    exact (Buf.varintAt_eq_some h₂ hp₁).2.1
  · rw [result_pure] at h
    cases h
    exact hp

/-- A length field that passes its check leaves the cursor inside, even if the sum has wrapped. -/
theorem lengthField_eq_some {body : Buf} {r : Region} {p q : ℕ} {field : ℕ × ℕ} (hp : p ≤ body.size)
    (h : (lengthField r body).result p = some (field, q)) :
    q ≤ body.size ∧ addW q field.2 ≤ body.size ∧ (field.2 ≤ body.size ∨ 2 ^ 63 ≤ field.2) := by
  have hw := body.size_lt
  rw [result_lengthField hp] at h
  obtain ⟨d, hd, h⟩ := Option.bind_eq_some_iff.mp h
  obtain ⟨-, hq, -⟩ := Buf.varintAt_eq_some hd hp
  split_ifs at h with hfit
  cases h
  refine ⟨hq, hfit, ?_⟩
  by_cases hlt : d.2 + d.1 < wordSize
  · rw [addW_of_lt hlt] at hfit
    exact .inl (by show d.1 ≤ body.size; omega)
  · exact .inr (by show 2 ^ 63 ≤ d.1; unfold wordSize at hlt; omega)

/-- The acknowledgement in a plaintext is a part of it, or its length field has wrapped. -/
theorem length_ackPayload_trialDecryptBody {C : Crypto} {identity : UnlockedIdentity} {hdr : ObjectHeader}
    {object body : Buf} {p q : ℕ} {msg : DecodedMsg}
    (h : (trialDecryptBody C identity hdr object body).result p = some (msg, q)) :
    msg.ackPayload.length ≤ body.size ∨ 2 ^ 63 ≤ msg.ackPayload.length := by
  unfold trialDecryptBody at h
  rw [result_bind_of_result (result_set _ _)] at h
  obtain ⟨fromVer, p₁, h₁, g₁⟩ := result_bind_eq_some.mp h
  obtain ⟨fromStream, p₂, h₂, g₂⟩ := result_bind_eq_some.mp g₁
  obtain ⟨keys, p₃, h₃, g₃⟩ := result_bind_eq_some.mp g₂
  obtain ⟨_, p₄, h₄, g₄⟩ := result_bind_eq_some.mp g₃
  obtain ⟨_, p₅, h₅, g₅⟩ := result_bind_eq_some.mp g₄
  obtain ⟨toRipe, p₆, h₆, g₆⟩ := result_bind_eq_some.mp g₅
  obtain ⟨_, p₇, h₇, g₇⟩ := result_bind_eq_some.mp g₆
  obtain ⟨encoding, p₈, h₈, g₈⟩ := result_bind_eq_some.mp g₇
  obtain ⟨text, p₉, h₉, g₉⟩ := result_bind_eq_some.mp g₈
  rw [result_bind_of_result (result_advance _)] at g₉
  obtain ⟨ack, p₁₀, h₁₀, g₁₀⟩ := result_bind_eq_some.mp g₉
  rw [result_bind_of_result (result_advance _), result_bind_of_result (result_get _)] at g₁₀
  obtain ⟨sig, p₁₁, h₁₁, g₁₁⟩ := result_bind_eq_some.mp g₁₀
  rw [result_bind_of_result (result_emit _ _), result_bind_of_result (result_emit _ _),
    result_bind_of_result (result_emit _ _)] at g₁₁
  obtain ⟨_, p₁₂, h₁₂, g₁₂⟩ := result_bind_eq_some.mp g₁₁
  rw [result_bind_of_result (result_emit _ _), result_bind_of_result (result_emit _ _), result_pure] at g₁₂
  have hmsg := congrArg DecodedMsg.ackPayload (Prod.mk.inj (Option.some.inj g₁₂)).1
  -- the cursor stays inside the plaintext up to the length field
  rw [result_varint (Nat.zero_le _)] at h₁
  have hp₁ := (Buf.varintAt_eq_some h₁ (Nat.zero_le _)).2.1
  rw [result_varint hp₁] at h₂
  have hp₂ := (Buf.varintAt_eq_some h₂ hp₁).2.1
  have hp₄ := cursor_senderDifficulty (senderKeys_eq_some hp₂ h₃).2 h₄
  rw [result_room hp₄ (by norm_num)] at h₅
  split_ifs at h₅ with hripe
  cases h₅
  have hw := body.size_lt
  rw [result_bytes (by unfold wordSize; omega)] at h₆
  cases h₆
  cases (result_require_eq_some.mp h₇).2
  rw [result_varint hripe] at h₈
  have hp₈ := (Buf.varintAt_eq_some h₈ hripe).2.1
  have hack := (lengthField_eq_some (lengthField_eq_some hp₈ h₉).2.1 h₁₀).2.2
  rw [← hmsg]
  show (if identity.isChan then [] else body.slice ack.1 ack.2).length ≤ body.size ∨
    2 ^ 63 ≤ (if identity.isChan then [] else body.slice ack.1 ack.2).length
  split_ifs
  · exact .inl (Nat.zero_le _)
  · rwa [Buf.length_slice]

theorem length_ackPayload_decodedMsg (hN : N.OpensWithin) {unlocked : List UnlockedIdentity} {object : Buf}
    {msg : DecodedMsg} (h : decodedMsg N.toCrypto unlocked object = some msg) :
    msg.ackPayload.length ≤ object.size ∨ 2 ^ 63 ≤ msg.ackPayload.length := by
  have hw := object.size_lt
  obtain ⟨hdr, identity, body, q, hhdr, -, hopen, hresult⟩ := decodedMsg_eq_some h
  obtain ⟨-, -, hle⟩ := Buf.header_eq_some hhdr
  have hbody := hN.ecies _ _ _ (trialOpen_eq_some hopen).2
  have hsub : subW object.size hdr.headerLen = object.size - hdr.headerLen :=
    subW_of_le (by unfold wordSize; omega) hle
  rw [msgCiphertext, Buf.length_slice, hsub] at hbody
  exact (length_ackPayload_trialDecryptBody hresult).imp_left fun hlen => by omega

/-- Neither receiver returns an acknowledgement that is longer than the object. -/
theorem length_ackPayload_incomingMsg (hN : N.OpensWithin) {K : Receivers} {hdr : ObjectHeader} {object : Buf}
    {msg : DecodedMsg} (h : incomingMsg (N.context K) hdr object = some msg) :
    msg.ackPayload.length ≤ object.size ∨ 2 ^ 63 ≤ msg.ackPayload.length := by
  unfold incomingMsg at h
  split_ifs at h
  · have hpq : (if K.pqEnabled then pqDecodedMsg N.toCrypto N.pq K.pqIdentities object else none) = some msg := h
    split_ifs at hpq
    exact .inl (length_ackPayload_pqDecodedMsg hN.pq hpq)
  · exact length_ackPayload_decodedMsg hN h

/-! ### The rows of the pool -/

/-- The pool after an object that is handled: first its own row, then that of its acknowledgement. -/
theorem pool_handleObject {hdr : ObjectHeader} (h : s.dispatched X r = some hdr) {pool : ObjectPool}
    (hpool : pool = objectStoreInsert s.pool (poolObject X.toHashes r.object hdr r.now)) :
    (handleObject X s r).pool = (s.ackStored X r).elim pool (objectStoreInsert pool) := by
  rw [handleObject_of_dispatched h, ← hpool, ObjectSync.ackStored, h, Option.bind_some]
  unfold dispatchObject
  by_cases hmsg : hdr.objectType = objectMsg
  · rw [if_pos hmsg, if_neg (not_not.mpr hmsg)]
    rcases hm : incomingMsg X hdr r.object with _ | msg
    · rw [handleIncomingMsg, hm]
      rfl
    · rw [handleIncomingMsg_of_some hm, Option.bind_some]
      show (if msg.ackPayload.length = 0 then pool
        else validateAndStoreAck X.toHashes X.magic pool msg.ackPayload r.ackNow) = _
      unfold validateAndStoreAck
      split_ifs
      · rfl
      · rcases validatedAck X.toHashes X.magic msg.ackPayload r.ackNow <;> rfl
  · rw [if_neg hmsg, if_pos hmsg]
    split_ifs <;> rfl

theorem mem_pool_insert {pool : ObjectPool} {row row' : PoolObject} (h : row' ∈ (objectStoreInsert pool row).rows) :
    row' ∈ pool.rows ∨ row' = row :=
  (KeyedTable.mem_insertOrIgnore.mp h).imp_right fun hnew => hnew.2

theorem mem_pool_of_mem {pool : ObjectPool} {row row' : PoolObject} (h : row' ∈ pool.rows) :
    row' ∈ (objectStoreInsert pool row).rows :=
  KeyedTable.mem_insertOrIgnore.mpr (.inl h)

/-- Where the rows of the pool come from. -/
theorem mem_pool_handleObject {row : PoolObject} (h : row ∈ (handleObject X s r).pool.rows) :
    row ∈ s.pool.rows ∨ (∃ hdr, s.dispatched X r = some hdr ∧ row = poolObject X.toHashes r.object hdr r.now) ∨
      s.ackStored X r = some row := by
  rcases hd : s.dispatched X r with _ | hdr
  · rw [(handleObject_of_not_dispatched hd).1] at h
    exact .inl h
  · rw [pool_handleObject hd rfl] at h
    have hmain : row ∈ (objectStoreInsert s.pool (poolObject X.toHashes r.object hdr r.now)).rows →
        row ∈ s.pool.rows ∨ row = poolObject X.toHashes r.object hdr r.now := mem_pool_insert
    rcases hack : s.ackStored X r with _ | ack
    · rw [hack] at h
      exact (hmain h).imp_right fun he => .inl ⟨hdr, rfl, he⟩
    · rw [hack] at h
      rcases mem_pool_insert h with hrow | rfl
      · exact (hmain hrow).imp_right fun he => .inl ⟨hdr, rfl, he⟩
      · exact .inr (.inr rfl)

/-- An object removes no row. -/
theorem pool_subset_handleObject {row : PoolObject} (h : row ∈ s.pool.rows) :
    row ∈ (handleObject X s r).pool.rows := by
  rcases hd : s.dispatched X r with _ | hdr
  · rwa [(handleObject_of_not_dispatched hd).1]
  · rw [pool_handleObject hd rfl]
    rcases s.ackStored X r with _ | ack
    · exact mem_pool_of_mem h
    · exact mem_pool_of_mem (mem_pool_of_mem h)

/-- An object that is handled has its row afterwards. -/
theorem mem_pool_of_dispatched {hdr : ObjectHeader} (h : s.dispatched X r = some hdr) :
    poolObject X.toHashes r.object hdr r.now ∈ (handleObject X s r).pool.rows := by
  have hnew : (poolObject X.toHashes r.object hdr r.now).hash ∉ s.pool.rows.map PoolObject.hash :=
    (dispatched_eq_some.mp h).1
  rw [pool_handleObject h rfl]
  have hmem : poolObject X.toHashes r.object hdr r.now ∈
      (objectStoreInsert s.pool (poolObject X.toHashes r.object hdr r.now)).rows :=
    KeyedTable.mem_insertOrIgnore.mpr (.inr ⟨hnew, rfl⟩)
  rcases s.ackStored X r with _ | ack
  · exact hmem
  · exact mem_pool_of_mem hmem

/-! ### One event -/

/-- The rows that one event adds are admitted at a time that it reads. -/
theorem poolNext_admitted (hN : N.OpensWithin) (s : SyncState) (e : PoolEvent) {row : PoolObject}
    (h : row ∈ (poolNext N s e).sync.pool.rows) :
    row ∈ s.sync.pool.rows ∨
      (∃ object hdr, Admitted N.toHashes row object hdr) ∧ row.receivedTime ∈ e.times := by
  have hgc : ∀ now, row ∈ (objectSyncGc s now).1.sync.pool.rows → row ∈ s.sync.pool.rows :=
    fun now hrow => (KeyedTable.mem_deleteWhere.mp hrow).1
  cases e with
  | receive K r =>
    rcases mem_pool_handleObject h with hrow | ⟨hdr, hd, rfl⟩ | hack
    · exact .inl hrow
    · obtain ⟨hsize, hcheck⟩ := objectAccept_eq_some (dispatched_eq_some.mp hd).2
      exact .inr ⟨⟨r.object, hdr, admitted_poolObject hsize hcheck⟩, List.mem_cons_self⟩
    · obtain ⟨hdr, hd, hack⟩ := Option.bind_eq_some_iff.mp hack
      obtain ⟨hsize, -⟩ := objectAccept_eq_some (dispatched_eq_some.mp hd).2
      split_ifs at hack
      obtain ⟨msg, hmsg, hack⟩ := Option.bind_eq_some_iff.mp hack
      split_ifs at hack
      have hlen := (length_ackPayload_incomingMsg hN hmsg).imp_left fun hle => hle.trans hsize
      obtain ⟨hadmitted, htime⟩ := admitted_validatedAck hlen hack
      exact .inr ⟨hadmitted, by rw [htime]; simp [PoolEvent.times]⟩
  | gc now => exact .inl (hgc now h)
  | maybeGc now =>
    simp only [poolNext, maybeRunGc] at h
    split_ifs at h
    · exact .inl (hgc now h)
    · exact .inl h

theorem poolRun_admitted (hN : N.OpensWithin) {s t : SyncState} {es : List PoolEvent}
    (hrun : run (poolStep N) s es = some t) {row : PoolObject} (hrow : row ∈ t.sync.pool.rows) :
    row ∈ s.sync.pool.rows ∨
      (∃ object hdr, Admitted N.toHashes row object hdr) ∧ row.receivedTime ∈ es.flatMap PoolEvent.times := by
  induction es generalizing s with
  | nil =>
    cases hrun
    exact .inl hrow
  | cons e es ih =>
    obtain ⟨u, hu, ht⟩ := run_cons hrun
    cases hu
    rw [List.flatMap_cons]
    rcases ih ht with hrow | ⟨hadmitted, htime⟩
    · rcases poolNext_admitted hN s e hrow with hrow | ⟨hadmitted, htime⟩
      · exact .inl hrow
      · exact .inr ⟨hadmitted, List.mem_append_left _ htime⟩
    · exact .inr ⟨hadmitted, List.mem_append_right _ htime⟩

/-! ### What the pool remembers -/

/-- The expiry time in the bytes of an object. -/
def expiryOf (bytes : Bytes) : ℤ := toInt64 (Radix.beNat ((bytes.drop 8).take 8))

theorem expiryOf_bytes {object : Buf} {hdr : ObjectHeader} (h : object.header = some hdr) :
    expiryOf object.bytes = toInt64 hdr.expiresTime := by
  obtain ⟨hresult, hlen, hle⟩ := Buf.header_eq_some h
  rw [result_objectParseHeader] at hresult
  split_ifs at hresult with h20
  obtain ⟨v, -, hresult⟩ := Option.bind_eq_some_iff.mp hresult
  obtain ⟨w, -, hresult⟩ := Option.map_eq_some_iff.mp hresult
  cases hresult
  rw [expiryOf, ← Buf.slice_eq object (by omega)]

/-- The bytes of the objects that arrive in a run. -/
def receivedBytes : List PoolEvent → List Bytes
  | [] => []
  | .receive _ r :: es => r.object.bytes :: receivedBytes es
  | .gc _ :: es | .maybeGc _ :: es => receivedBytes es

/-- The hash with the expiry time is in the pool, or it is too old to be accepted from the time
`clock` on. -/
def SyncState.Remembers (s : SyncState) (hash : Bytes) (expiry clock : ℤ) : Prop :=
  (∃ row ∈ s.sync.pool.rows, row.hash = hash ∧ row.expiresTime = expiry) ∨ expiry < clock - objectExpireGracePeriod

/-- The last time that an event reads. -/
def PoolEvent.last : PoolEvent → ℤ
  | receive _ r => r.ackNow
  | gc now | maybeGc now => now

theorem PoolEvent.last_mem (e : PoolEvent) : e.last ∈ e.times := by
  cases e <;> simp [PoolEvent.last, PoolEvent.times]

/-- The collector deletes only what has become too old to be accepted. -/
theorem remembers_gc {s : SyncState} {hash : Bytes} {expiry clock now : ℤ} (h : s.Remembers hash expiry clock)
    (hle : clock ≤ now) : (objectSyncGc s now).1.Remembers hash expiry now := by
  rcases h with ⟨row, hrow, hhash, hexpiry⟩ | hold
  · by_cases hexpired : row.expiresTime < now - objectGcGracePeriod
    · right
      unfold objectGcGracePeriod at hexpired
      unfold objectExpireGracePeriod
      omega
    · exact .inl ⟨row, KeyedTable.mem_deleteWhere.mpr ⟨hrow, decide_eq_false hexpired⟩, hhash, hexpiry⟩
  · exact .inr (by omega)

theorem SyncState.Remembers.mono {s : SyncState} {hash : Bytes} {expiry clock clock' : ℤ}
    (h : s.Remembers hash expiry clock) (hle : clock ≤ clock') : s.Remembers hash expiry clock' :=
  h.imp_right fun hold => by omega

theorem remembers_poolNext {s : SyncState} {hash : Bytes} {expiry clock : ℤ} (h : s.Remembers hash expiry clock)
    {e : PoolEvent} (hle : clock ≤ e.last) : (poolNext N s e).Remembers hash expiry e.last := by
  cases e with
  | receive K r =>
    rcases h with ⟨row, hrow, hkey⟩ | hold
    · exact .inl ⟨row, pool_subset_handleObject hrow, hkey⟩
    · exact .inr (by omega)
  | gc now => exact remembers_gc h hle
  | maybeGc now =>
    simp only [poolNext, maybeRunGc]
    split_ifs
    · exact remembers_gc h hle
    · exact h.mono hle

/-- What an event handles is new in the pool and accepted, and it is remembered afterwards. -/
theorem handledBy_spec {s : SyncState} {e : PoolEvent} {hash : Bytes} (h : hash ∈ handledBy N s e) :
    ∃ bytes time, receivedBytes [e] = [bytes] ∧ time ∈ e.times ∧ hash = inventoryHash N.toHashes bytes ∧
      hash ∉ s.sync.poolHashes ∧ time - objectExpireGracePeriod ≤ expiryOf bytes ∧
      (poolNext N s e).Remembers hash (expiryOf bytes) e.last := by
  cases e with
  | receive K r =>
    simp only [handledBy] at h
    split_ifs at h with hd
    · obtain ⟨hdr, hd⟩ := Option.isSome_iff_exists.mp hd
      obtain ⟨hnew, haccept⟩ := dispatched_eq_some.mp hd
      cases List.mem_singleton.mp h
      have hadmitted := admitted_poolObject (objectAccept_eq_some haccept).1 (objectAccept_eq_some haccept).2
      have hexpiry := expiryOf_bytes hadmitted.header
      refine ⟨r.object.bytes, r.now, rfl, List.mem_cons_self, rfl, hnew, ?_, .inl ⟨_, mem_pool_of_dispatched hd, rfl, ?_⟩⟩
      · rw [hexpiry]
        exact hadmitted.expired
      · exact hexpiry.symm
    · cases h
  | gc now => cases h
  | maybeGc now => cases h

/-- What is remembered is not handled again. -/
theorem notMem_handledIn {bytes : Bytes} (es : List PoolEvent) {s : SyncState} {clock : ℤ}
    (h : s.Remembers (inventoryHash N.toHashes bytes) (expiryOf bytes) clock)
    (hclock : (es.flatMap PoolEvent.times).Pairwise (· ≤ ·)) (hle : ∀ t ∈ es.flatMap PoolEvent.times, clock ≤ t)
    (hinj : ∀ bytes' ∈ receivedBytes es,
      inventoryHash N.toHashes bytes' = inventoryHash N.toHashes bytes → bytes' = bytes) :
    inventoryHash N.toHashes bytes ∉ handledIn N s es := by
  induction es generalizing s clock with
  | nil => exact List.not_mem_nil
  | cons e es ih =>
    rw [List.flatMap_cons, List.pairwise_append] at hclock
    obtain ⟨hhere, hrest, hbefore⟩ := hclock
    rw [List.flatMap_cons] at hle
    have hreceived : receivedBytes (e :: es) = receivedBytes [e] ++ receivedBytes es := by cases e <;> rfl
    rw [hreceived] at hinj
    unfold handledIn
    rw [List.mem_append, not_or]
    constructor
    · intro hmem
      obtain ⟨bytes', time, hbytes, htime, hhash, hnew, hfresh, -⟩ := handledBy_spec hmem
      have hsame : bytes' = bytes :=
          hinj bytes' (List.mem_append_left _ (by rw [hbytes]; exact List.mem_singleton_self _)) hhash.symm
      have hlate := hle time (List.mem_append_left _ htime)
      rcases h with ⟨row, hrow, hkey, -⟩ | hold
      · exact hnew (List.mem_map.mpr ⟨row, hrow, hkey⟩)
      · rw [hsame] at hfresh
        omega
    · refine ih (remembers_poolNext h (hle _ (List.mem_append_left _ e.last_mem))) hrest ?_ ?_
      · exact fun t ht => hbefore _ e.last_mem t ht
      · exact fun bytes' hmem => hinj bytes' (List.mem_append_right _ hmem)

theorem nodup_handledIn (es : List PoolEvent) (s : SyncState)
    (hclock : (es.flatMap PoolEvent.times).Pairwise (· ≤ ·))
    (hinj : Set.InjOn (inventoryHash N.toHashes) {bytes | bytes ∈ receivedBytes es}) : (handledIn N s es).Nodup := by
  induction es generalizing s with
  | nil => exact List.nodup_nil
  | cons e es ih =>
    rw [List.flatMap_cons, List.pairwise_append] at hclock
    obtain ⟨hhere, hrest, hbefore⟩ := hclock
    have hreceived : receivedBytes (e :: es) = receivedBytes [e] ++ receivedBytes es := by cases e <;> rfl
    rw [hreceived] at hinj
    unfold handledIn
    refine List.Nodup.append ?_ (ih _ hrest fun a ha b hb => ?_) ?_
    · cases e with
      | receive K r =>
        simp only [handledBy]
        split_ifs
        · exact List.nodup_singleton _
        · exact List.nodup_nil
      | gc now => exact List.nodup_nil
      | maybeGc now => exact List.nodup_nil
    · exact hinj (List.mem_append_right _ ha) (List.mem_append_right _ hb)
    · rintro hash hmem hmem'
      obtain ⟨bytes, time, hbytes, -, rfl, -, -, hremembers⟩ := handledBy_spec hmem
      refine notMem_handledIn es hremembers hrest (fun t ht => hbefore _ e.last_mem t ht) ?_ hmem'
      intro bytes' hmem₁ hhash
      refine hinj (List.mem_append_right _ hmem₁) (List.mem_append_left _ ?_) hhash
      rw [hbytes]
      exact List.mem_singleton_self _

end

/-- Over every run whose clock does not run backwards, a row of the pool was there at the start or
was admitted at one of the times read, and no hash is handled according to its type twice: different
objects that arrive in the run have different hashes. -/
theorem pool_admission (hN : N.OpensWithin) {s t : SyncState} {es : List PoolEvent}
    (hclock : (es.flatMap PoolEvent.times).Pairwise (· ≤ ·))
    (hinj : Set.InjOn (inventoryHash N.toHashes) {bytes | bytes ∈ receivedBytes es})
    (hrun : run (poolStep N) s es = some t) :
    (∀ row ∈ t.sync.pool.rows, row ∈ s.sync.pool.rows ∨
      (∃ object hdr, Admitted N.toHashes row object hdr) ∧ row.receivedTime ∈ es.flatMap PoolEvent.times) ∧
    (handledIn N s es).Nodup :=
  ⟨fun _ hrow => poolRun_admitted hN hrun hrow, nodup_handledIn es s hclock hinj⟩

/-! ### An object that comes back -/

/-- The node of the main network, with libraries without secrets. -/
def exampleNode : Node where
  toCrypto := plainCrypto
  pq := plainPqCrypto
  magic := exampleContext.magic

def exampleReceivers : Receivers := ⟨[recipient], [], false, [], fun _ => none⟩

/-- A message arrives, is collected three hours after it expired, and arrives again. -/
def comingBack : List PoolEvent :=
  [.receive exampleReceivers arrival, .gc 10801, .receive exampleReceivers ⟨arrival.object, 10801, 10801, 10801⟩]

theorem exampleNode_opensWithin : exampleNode.OpensWithin where
  ecies ciphertext priv body h := by
    simp only [exampleNode, plainCrypto] at h
    split_ifs at h
    cases h
    exact le_rfl
  pq sk aad sealed inner h := by
    simp only [exampleNode, plainPqCrypto] at h
    split_ifs at h
    cases h
    show (sealed.drop pqv5SealOverhead).length ≤ sealed.length
    rw [List.length_drop]
    exact Nat.sub_le _ _

theorem comingBack_handled_once : ∃ t, run (poolStep exampleNode) ⟨emptySync, 0⟩ comingBack = some t ∧
    (∀ row ∈ t.sync.pool.rows, row ∈ emptySync.pool.rows ∨
      (∃ object hdr, Admitted exampleNode.toHashes row object hdr) ∧
        row.receivedTime ∈ comingBack.flatMap PoolEvent.times) ∧
    (handledIn exampleNode ⟨emptySync, 0⟩ comingBack).Nodup := by
  have hclock : (comingBack.flatMap PoolEvent.times).Pairwise (· ≤ ·) := by decide
  have hsame : ∀ bytes ∈ receivedBytes comingBack, bytes = arrival.object.bytes := by
    intro bytes hmem
    rcases List.mem_cons.mp hmem with he | hmem
    · exact he
    · exact List.mem_singleton.mp hmem
  refine ⟨_, rfl, pool_admission exampleNode exampleNode_opensWithin hclock ?_ rfl⟩
  intro a ha b hb _
  rw [hsame a ha, hsame b hb]

end Bitmessage
