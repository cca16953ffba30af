import Bitmessage.Core.Incoming
import Bitmessage.Infra.Message
import Bitmessage.Infra.ObjectChecks
import Bitmessage.Lib.Transition
import Bitmessage.Pq.Crypto

/-! Objects that arrive from the network. An object that passes the checks and is not in
the pool yet is stored there and then handled according to its type. A `msg` that one of
the unlocked identities can read may carry an acknowledgement, a complete packet with an
object in it: that object is checked and stored as well, and not handled. -/

namespace Bitmessage

/-- A row of `objects`. -/
structure PoolObject where
  hash : Bytes
  objectType : ℤ
  stream : ℤ
  payload : Bytes
  expiresTime : ℤ
  receivedTime : ℤ

/-- The object pool; `hash` is its primary key. -/
abbrev ObjectPool := KeyedTable PoolObject.hash

/-- `bm_object_store_has`. -/
def objectStoreHas (pool : ObjectPool) (hash : Bytes) : Bool := (pool.find? hash).isSome

/-- `bm_object_store_insert`: `INSERT OR IGNORE`. -/
def objectStoreInsert (pool : ObjectPool) (row : PoolObject) : ObjectPool := pool.insertOrIgnore row

/-- The row of an object. -/
def poolObject (H : Hashes) (object : Buf) (hdr : ObjectHeader) (now : ℤ) : PoolObject where
  hash := inventoryHash H object.bytes
  objectType := toInt32 hdr.objectType
  stream := toInt32 hdr.stream
  payload := object.bytes
  expiresTime := toInt64 hdr.expiresTime
  receivedTime := now

/-- The type in a row is that of the header, as far as it is a small one. -/
theorem objectType_poolObject_iff {H : Hashes} {object : Buf} {hdr : ObjectHeader} {now : ℤ} {objectType : ℕ}
    (hhdr : hdr.objectType < 2 ^ 32) (htype : objectType < 2 ^ 31) :
    (poolObject H object hdr now).objectType = (objectType : ℤ) ↔ hdr.objectType = objectType := by
  show toInt32 hdr.objectType = (objectType : ℤ) ↔ _
  unfold toInt32
  split_ifs <;> omega

/-- The command `object`. -/
def objectCommand : Bytes := [0x6f, 0x62, 0x6a, 0x65, 0x63, 0x74]

/-- The checks of `validate_and_store_ack`: the payload is one whole packet with the command
`object`, and its object passes the checks that every object has to pass. -/
def validatedAck (H : Hashes) (magic ackPayload : Bytes) (now : ℤ) : Option PoolObject :=
  match parseMessage H magic ackPayload with
  | .ok msg consumed =>
    if consumed ≠ ackPayload.length ∨ cString msg.command ≠ objectCommand then none
    else (objectCheck H msg.buffer now).map fun hdr => poolObject H msg.buffer hdr now
  | _ => none

/-- `validate_and_store_ack`. -/
def validateAndStoreAck (H : Hashes) (magic : Bytes) (pool : ObjectPool) (ackPayload : Bytes) (now : ℤ) : ObjectPool :=
  match validatedAck H magic ackPayload now with
  | none => pool
  | some row => objectStoreInsert pool row

/-- What `handle_object` reads and does not write. The post-quantum receivers are built on a
library of their own; they return nothing in a build without it. -/
structure SyncContext extends Crypto where
  magic : Bytes
  unlocked : List UnlockedIdentity
  subscriptions : List Bytes
  pqMsg : Buf → Option DecodedMsg
  pqBroadcast : Buf → Option DecodedBroadcast

/-- The tables that `handle_object` writes. -/
structure ObjectSync where
  pool : ObjectPool
  inbox : List InboxRow
  sent : SentTable

/-- An object that arrives, with the times read by `handle_object`, when a message is stored and
when an acknowledgement is checked. -/
structure Receipt where
  object : Buf
  now : ℤ
  storedAt : ℤ
  ackNow : ℤ

variable (X : SyncContext)

/-- `bm_messages_store_try_mark_ack_received`. -/
def messagesStoreTryMarkAckReceived (H : Hashes) (sent : SentTable) (receivedHash : Bytes) : SentTable :=
  match messagesStoreSelectAck H sent receivedHash with
  | none => sent
  | some ackData => messagesStoreUpdateAck sent ackData

/-- The receiver that the version of a `msg` calls for. -/
def incomingMsg (hdr : ObjectHeader) (object : Buf) : Option DecodedMsg :=
  if hdr.version = pqMsgObjectVersion then X.pqMsg object else decodedMsg X.toCrypto X.unlocked object

/-- The branch of `handle_object` for a `msg`. -/
def handleIncomingMsg (s : ObjectSync) (hdr : ObjectHeader) (r : Receipt) : ObjectSync :=
  match incomingMsg X hdr r.object with
  | none => s
  | some msg =>
    let storedAt := if hdr.version = pqMsgObjectVersion then r.now else r.storedAt
    let (inbox, ackPayload) := storeDecodedMsg X.toCrypto s.inbox r.object storedAt msg
    let s := { s with inbox := inbox }
    if ackPayload.length = 0 then s
    else { s with pool := validateAndStoreAck X.toHashes X.magic s.pool ackPayload r.ackNow }

/-- The inbox with a broadcast that the subscription to an address can read. -/
def storedForSubscription (inbox : List InboxRow) (object : Buf) (now : ℤ) (address : Bytes) :
    Option (List InboxRow) :=
  (addressDecode X.toHashes address).bind fun (version, stream, ripe) =>
    trialDecryptBroadcastAndStore X.toCrypto ⟨version, stream, ripe⟩ inbox object now

/-- `handle_incoming_broadcast`: the first subscription that can read it. -/
def handleIncomingBroadcast (inbox : List InboxRow) (object : Buf) (now : ℤ) : List InboxRow :=
  (X.subscriptions.findSome? (storedForSubscription X inbox object now)).getD inbox

/-- `handle_incoming_broadcast_v6`. -/
def handleIncomingBroadcastV6 (inbox : List InboxRow) (object : Buf) (now : ℤ) : List InboxRow :=
  ((X.pqBroadcast object).map (storeDecodedBroadcast X.toCrypto inbox object now)).getD inbox

/-- The handling by type. The handlers of the other types write none of these tables. -/
def dispatchObject (s : ObjectSync) (hdr : ObjectHeader) (r : Receipt) : ObjectSync :=
  if hdr.objectType = objectMsg then handleIncomingMsg X s hdr r
  else if hdr.objectType = objectBroadcast then
    if hdr.version = pqBroadcastObjectVersion then
      { s with inbox := handleIncomingBroadcastV6 X s.inbox r.object r.now }
    else { s with inbox := handleIncomingBroadcast X s.inbox r.object r.storedAt }
  else s

/-- `handle_object`. The acknowledgement is matched before the object is looked up in the pool. -/
def handleObject (s : ObjectSync) (r : Receipt) : ObjectSync :=
  match objectAccept X.toHashes r.object r.now with
  | none => s
  | some hdr =>
    let hash := inventoryHash X.toHashes r.object.bytes
    let s := { s with sent := messagesStoreTryMarkAckReceived X.toHashes s.sent hash }
    if objectStoreHas s.pool hash then s
    else
      let s := { s with pool := objectStoreInsert s.pool (poolObject X.toHashes r.object hdr r.now) }
      dispatchObject X s hdr r

def syncStep (s : ObjectSync) (r : Receipt) : Option ObjectSync := some (handleObject X s r)

/-! ### What one object changes -/

/-- The hash of the object. -/
def Receipt.hash (r : Receipt) : Bytes := inventoryHash X.toHashes r.object.bytes

/-- The hashes in the pool. -/
def ObjectSync.poolHashes (s : ObjectSync) : List Bytes := s.pool.rows.map PoolObject.hash

/-- The identifiers in the inbox. -/
def ObjectSync.inboxIds (s : ObjectSync) : List Bytes := s.inbox.map InboxRow.msgId

/-- The header of the object when it is handled according to its type. -/
def ObjectSync.dispatched (s : ObjectSync) (r : Receipt) : Option ObjectHeader :=
  if objectStoreHas s.pool (r.hash X) then none else objectAccept X.toHashes r.object r.now

/-- The object that is stored from the acknowledgement of a `msg`. -/
def ObjectSync.ackStored (s : ObjectSync) (r : Receipt) : Option PoolObject :=
  (s.dispatched X r).bind fun hdr =>
    if hdr.objectType ≠ objectMsg then none
    else (incomingMsg X hdr r.object).bind fun msg =>
      if msg.ackPayload.length = 0 then none else validatedAck X.toHashes X.magic msg.ackPayload r.ackNow

section

variable {X} {s : ObjectSync} {r : Receipt}

theorem objectStoreHas_iff {hash : Bytes} : objectStoreHas s.pool hash = true ↔ hash ∈ s.poolHashes :=
  KeyedTable.find?_isSome

theorem dispatched_eq_some {hdr : ObjectHeader} :
    s.dispatched X r = some hdr ↔ r.hash X ∉ s.poolHashes ∧ objectAccept X.toHashes r.object r.now = some hdr := by
  unfold ObjectSync.dispatched
  split_ifs with h
  · simp [objectStoreHas_iff.mp h]
  · rw [objectStoreHas_iff] at h
    simp [h]

/-- An object that is not handled changes the sent messages at most. -/
theorem handleObject_of_not_dispatched (h : s.dispatched X r = none) :
    (handleObject X s r).pool = s.pool ∧ (handleObject X s r).inbox = s.inbox := by
  unfold handleObject
  rcases ha : objectAccept X.toHashes r.object r.now with _ | hdr
  · exact ⟨rfl, rfl⟩
  · unfold ObjectSync.dispatched Receipt.hash at h
    rw [ha] at h
    split_ifs at h with hhas
    simp only [hhas, if_true]
    exact ⟨trivial, trivial⟩

theorem handleObject_of_dispatched {hdr : ObjectHeader} (h : s.dispatched X r = some hdr) :
    handleObject X s r = dispatchObject X
      { s with
        sent := messagesStoreTryMarkAckReceived X.toHashes s.sent (r.hash X)
        pool := objectStoreInsert s.pool (poolObject X.toHashes r.object hdr r.now) } hdr r := by
  obtain ⟨hnew, ha⟩ := dispatched_eq_some.mp h
  unfold handleObject
  rw [ha]
  have hhas : objectStoreHas s.pool (inventoryHash X.toHashes r.object.bytes) = false := by
    rw [Bool.eq_false_iff]
    exact fun hh => hnew (objectStoreHas_iff.mp hh)
  simp only [hhas, Bool.false_eq_true, if_false]
  rfl

end

end Bitmessage
