import Bitmessage.Infra.ObjectSync

/-! Whether a message arrives depends on what came before it. Every object that is
handled when it arrives files its message under its own hash. An object that was stored
from the acknowledgement of an earlier message is in the pool when it arrives, is taken
for a duplicate and is never handled. -/

namespace Bitmessage

open Transition

variable (X : SyncContext)

/-- The tables after a sequence of objects. -/
def handleObjects (s : ObjectSync) (rs : List Receipt) : ObjectSync := rs.foldl (handleObject X) s

/-- The hashes of the objects that are handled according to their type, in a sequence. -/
def handledHashes : ObjectSync → List Receipt → List Bytes
  | _, [] => []
  | s, r :: rs =>
    (if (s.dispatched X r).isSome then [r.hash X] else []) ++ handledHashes (handleObject X s r) rs

/-! ### The pool and the inbox after one object -/

section

variable {X} {s : ObjectSync} {r : Receipt} {hash : Bytes}

theorem mem_poolHashes_insert {pool : ObjectPool} {row : PoolObject} :
    hash ∈ (objectStoreInsert pool row).rows.map PoolObject.hash ↔
      hash = row.hash ∨ hash ∈ pool.rows.map PoolObject.hash :=
  KeyedTable.mem_keys_insertOrIgnore

theorem mem_poolHashes_validateAndStoreAck {H : Hashes} {magic : Bytes} {pool : ObjectPool} {ackPayload : Bytes}
    {now : ℤ} :
    hash ∈ (validateAndStoreAck H magic pool ackPayload now).rows.map PoolObject.hash ↔
      (∃ row, validatedAck H magic ackPayload now = some row ∧ hash = row.hash) ∨
        hash ∈ pool.rows.map PoolObject.hash := by
  unfold validateAndStoreAck
  rcases validatedAck H magic ackPayload now with _ | row
  · simp
  · rw [mem_poolHashes_insert]
    simp

theorem handleIncomingMsg_of_some {hdr : ObjectHeader} {msg : DecodedMsg} (h : incomingMsg X hdr r.object = some msg) :
    handleIncomingMsg X s hdr r =
      { s with
        inbox := (storeDecodedMsg X.toCrypto s.inbox r.object
          (if hdr.version = pqMsgObjectVersion then r.now else r.storedAt) msg).1
        pool := if msg.ackPayload.length = 0 then s.pool
          else validateAndStoreAck X.toHashes X.magic s.pool msg.ackPayload r.ackNow } := by
  have hpayload : (storeDecodedMsg X.toCrypto s.inbox r.object
      (if hdr.version = pqMsgObjectVersion then r.now else r.storedAt) msg).2 = msg.ackPayload := rfl
  unfold handleIncomingMsg
  rw [h]
  simp only [hpayload]
  split_ifs <;> rfl

/-- A `msg` adds the object of its acknowledgement to the pool. -/
theorem mem_poolHashes_handleIncomingMsg {hdr : ObjectHeader} :
    hash ∈ (handleIncomingMsg X s hdr r).poolHashes ↔
      (∃ row, ((incomingMsg X hdr r.object).bind fun msg => if msg.ackPayload.length = 0 then none
        else validatedAck X.toHashes X.magic msg.ackPayload r.ackNow) = some row ∧ hash = row.hash) ∨
        hash ∈ s.poolHashes := by
  rcases h : incomingMsg X hdr r.object with _ | msg
  · rw [handleIncomingMsg, h]
    simp
  · rw [handleIncomingMsg_of_some h, Option.bind_some, ObjectSync.poolHashes]
    by_cases hack : msg.ackPayload.length = 0
    · simp [List.length_eq_zero_iff.mp hack, ObjectSync.poolHashes]
    · simp only [if_neg hack]
      exact mem_poolHashes_validateAndStoreAck

theorem mem_poolHashes_dispatchObject {hdr : ObjectHeader} :
    hash ∈ (dispatchObject X s hdr r).poolHashes ↔
      (∃ row, (if hdr.objectType ≠ objectMsg then none
        else (incomingMsg X hdr r.object).bind fun msg => if msg.ackPayload.length = 0 then none
          else validatedAck X.toHashes X.magic msg.ackPayload r.ackNow) = some row ∧ hash = row.hash) ∨
        hash ∈ s.poolHashes := by
  unfold dispatchObject
  by_cases hmsg : hdr.objectType = objectMsg
  · rw [if_pos hmsg, mem_poolHashes_handleIncomingMsg, if_neg (not_not.mpr hmsg)]
  · rw [if_neg hmsg, if_pos hmsg]
    split_ifs
    all_goals simp [ObjectSync.poolHashes]

/-- The pool after an object: the object itself, when it is handled, and the object that its
acknowledgement carries. -/
theorem mem_poolHashes_handleObject :
    hash ∈ (handleObject X s r).poolHashes ↔
      (∃ row, s.ackStored X r = some row ∧ hash = row.hash) ∨
        ((s.dispatched X r).isSome ∧ hash = r.hash X) ∨ hash ∈ s.poolHashes := by
  unfold ObjectSync.ackStored
  rcases h : s.dispatched X r with _ | hdr
  · rw [ObjectSync.poolHashes, (handleObject_of_not_dispatched h).1]
    simp [ObjectSync.poolHashes]
  · rw [handleObject_of_dispatched h, mem_poolHashes_dispatchObject, Option.bind_some]
    simp only [ObjectSync.poolHashes, mem_poolHashes_insert, Option.isSome_some, true_and]
    rfl

theorem poolHashes_subset_handleObject : s.poolHashes ⊆ (handleObject X s r).poolHashes :=
  fun _ h => mem_poolHashes_handleObject.mpr (.inr (.inr h))

theorem mem_inboxIds_broadcast {inbox : List InboxRow} {object : Buf} {now : ℤ} {id : Bytes}
    (h : id ∈ (handleIncomingBroadcast X inbox object now).map InboxRow.msgId) :
    id = inventoryHash X.toHashes object.bytes ∨ id ∈ inbox.map InboxRow.msgId := by
  unfold handleIncomingBroadcast at h
  rcases hs : X.subscriptions.findSome? (storedForSubscription X inbox object now) with _ | stored
  · rw [hs] at h
    exact .inr h
  · rw [hs] at h
    obtain ⟨address, -, hstored⟩ := List.exists_of_findSome?_eq_some hs
    obtain ⟨decoded, -, hstored⟩ := Option.bind_eq_some_iff.mp hstored
    obtain ⟨msg, -, rfl⟩ := Option.map_eq_some_iff.mp hstored
    exact mem_inboxIds_insert.mp h

theorem mem_inboxIds_broadcastV6 {inbox : List InboxRow} {object : Buf} {now : ℤ} {id : Bytes}
    (h : id ∈ (handleIncomingBroadcastV6 X inbox object now).map InboxRow.msgId) :
    id = inventoryHash X.toHashes object.bytes ∨ id ∈ inbox.map InboxRow.msgId := by
  unfold handleIncomingBroadcastV6 at h
  rcases hb : X.pqBroadcast object with _ | msg
  · rw [hb] at h
    exact .inr h
  · rw [hb] at h
    exact mem_inboxIds_insert.mp h

/-- A new row of the inbox is filed under the hash of the object. -/
theorem mem_inboxIds_handleObject {id : Bytes} (h : id ∈ (handleObject X s r).inboxIds) :
    id = r.hash X ∨ id ∈ s.inboxIds := by
  rcases hd : s.dispatched X r with _ | hdr
  · rw [ObjectSync.inboxIds, (handleObject_of_not_dispatched hd).2] at h
    exact .inr h
  · rw [handleObject_of_dispatched hd] at h
    unfold dispatchObject at h
    split_ifs at h
    · rcases hm : incomingMsg X hdr r.object with _ | msg
      · rw [handleIncomingMsg, hm] at h
        exact .inr h
      · rw [ObjectSync.inboxIds, handleIncomingMsg_of_some hm] at h
        exact mem_inboxIds_insert.mp h
    · exact mem_inboxIds_broadcastV6 h
    · exact mem_inboxIds_broadcast h
    · exact .inr h

/-! ### Sequences of other objects -/

end

/-- Nothing has been seen of an object with the hash. -/
def ObjectSync.Unseen (s : ObjectSync) (hash : Bytes) : Prop := hash ∉ s.poolHashes ∧ hash ∉ s.inboxIds

/-- The object with the hash is in the pool and has no row in the inbox. -/
def ObjectSync.Suppressed (s : ObjectSync) (hash : Bytes) : Prop := hash ∈ s.poolHashes ∧ hash ∉ s.inboxIds

/-- The acknowledgement of a message that is read now carries the object with the hash. -/
def CarriesAsAck (hash : Bytes) (s : ObjectSync) (r : Receipt) : Prop :=
  ∃ row, s.ackStored X r = some row ∧ row.hash = hash

section

variable {X} {s : ObjectSync} {r : Receipt} {hash : Bytes}

theorem ObjectSync.Suppressed.handleObject (h : s.Suppressed hash) (hne : r.hash X ≠ hash) :
    (handleObject X s r).Suppressed hash := by
  refine ⟨poolHashes_subset_handleObject h.1, fun hin => ?_⟩
  rcases mem_inboxIds_handleObject hin with he | hin
  · exact hne he.symm
  · exact h.2 hin

theorem ObjectSync.Unseen.handleObject (h : s.Unseen hash) (hne : r.hash X ≠ hash) :
    (¬ CarriesAsAck X hash s r → (handleObject X s r).Unseen hash) ∧
      (CarriesAsAck X hash s r → (handleObject X s r).Suppressed hash) := by
  have hinbox : hash ∉ (Bitmessage.handleObject X s r).inboxIds := fun hin => by
    rcases mem_inboxIds_handleObject hin with he | hin
    · exact hne he.symm
    · exact h.2 hin
  refine ⟨fun hack => ⟨fun hpool => ?_, hinbox⟩, fun ⟨row, hrow, he⟩ => ⟨?_, hinbox⟩⟩
  · rcases mem_poolHashes_handleObject.mp hpool with ⟨row, hrow, he⟩ | ⟨-, he⟩ | hpool
    · exact hack ⟨row, hrow, he.symm⟩
    · exact hne he.symm
    · exact h.1 hpool
  · exact mem_poolHashes_handleObject.mpr (.inl ⟨row, hrow, he.symm⟩)

theorem ObjectSync.Suppressed.handleObjects (h : s.Suppressed hash) {rs : List Receipt}
    (hother : ∀ r ∈ rs, r.hash X ≠ hash) : (handleObjects X s rs).Suppressed hash := by
  induction rs generalizing s with
  | nil => exact h
  | cons r rs ih =>
    rw [List.forall_mem_cons] at hother
    exact ih (h.handleObject hother.1) hother.2

/-- Other objects leave an unseen object unseen as long as none of them carries it. -/
theorem ObjectSync.Unseen.handleObjects (h : s.Unseen hash) {rs : List Receipt}
    (hother : ∀ r ∈ rs, r.hash X ≠ hash) :
    (Along (syncStep X) (fun s r => ¬ CarriesAsAck X hash s r) s rs → (handleObjects X s rs).Unseen hash) ∧
      (¬ Along (syncStep X) (fun s r => ¬ CarriesAsAck X hash s r) s rs → (handleObjects X s rs).Suppressed hash) := by
  induction rs generalizing s with
  | nil => exact ⟨fun _ => h, fun hn => absurd trivial hn⟩
  | cons r rs ih =>
    rw [List.forall_mem_cons] at hother
    by_cases hack : CarriesAsAck X hash s r
    · refine ⟨fun hal => absurd hack hal.1, fun _ => ?_⟩
      exact ObjectSync.Suppressed.handleObjects ((h.handleObject hother.1).2 hack) hother.2
    · obtain ⟨ih₁, ih₂⟩ := ih ((h.handleObject hother.1).1 hack) hother.2
      refine ⟨fun hal => ih₁ (hal.2 _ rfl), fun hnal => ih₂ fun hal => hnal ⟨hack, ?_⟩⟩
      rintro _ ⟨⟩
      exact hal

/-! ### Objects that are stored and not handled -/

theorem poolHashes_subset_handleObjects (rs : List Receipt) : s.poolHashes ⊆ (handleObjects X s rs).poolHashes := by
  induction rs generalizing s with
  | nil => exact fun _ h => h
  | cons r rs ih => exact fun _ h => ih (poolHashes_subset_handleObject h)

/-- What is in the pool is not handled any more. -/
theorem notMem_handledHashes (rs : List Receipt) (h : hash ∈ s.poolHashes) : hash ∉ handledHashes X s rs := by
  induction rs generalizing s with
  | nil => exact List.not_mem_nil
  | cons r rs ih =>
    unfold handledHashes
    rw [List.mem_append, not_or]
    refine ⟨fun hmem => ?_, ih (poolHashes_subset_handleObject h)⟩
    split_ifs at hmem with hd
    · obtain ⟨hdr, hd⟩ := Option.isSome_iff_exists.mp hd
      rw [List.mem_singleton] at hmem
      exact (dispatched_eq_some.mp hd).1 (hmem ▸ h)
    · cases hmem

/-- Everything that came into the pool was handled exactly when every object from an
acknowledgement was in the pool already. -/
theorem pool_handled_iff (s : ObjectSync) (rs : List Receipt) :
    (∀ hash ∈ (handleObjects X s rs).poolHashes, hash ∈ s.poolHashes ∨ hash ∈ handledHashes X s rs) ↔
      Along (syncStep X) (fun s r => ∀ row, s.ackStored X r = some row →
        row.hash ∈ s.poolHashes ∨ row.hash = r.hash X) s rs := by
  induction rs generalizing s with
  | nil => exact iff_of_true (fun _ h => .inl h) trivial
  | cons r rs ih =>
    have hdisp : ∀ row, s.ackStored X r = some row → (s.dispatched X r).isSome := by
      intro row hrow
      obtain ⟨hdr, hd, -⟩ := Option.bind_eq_some_iff.mp hrow
      rw [hd]
      rfl
    have hhead : ∀ hash, hash ∈ handledHashes X s (r :: rs) ↔
        ((s.dispatched X r).isSome ∧ hash = r.hash X) ∨ hash ∈ handledHashes X (handleObject X s r) rs := by
      intro hash
      rw [handledHashes, List.mem_append]
      split_ifs with hd <;> simp [hd]
    constructor
    · intro h
      refine ⟨fun row hrow => ?_, ?_⟩
      · have hpool : row.hash ∈ (handleObject X s r).poolHashes :=
          mem_poolHashes_handleObject.mpr (.inl ⟨row, hrow, rfl⟩)
        rcases h _ (poolHashes_subset_handleObjects rs hpool) with hin | hin
        · exact .inl hin
        · rcases (hhead _).mp hin with ⟨-, he⟩ | hin
          · exact .inr he
          · exact absurd hin (notMem_handledHashes rs hpool)
      · rintro _ ⟨⟩
        refine (ih _).mp fun hash hin => ?_
        rcases h hash hin with hin | hin
        · exact .inl (poolHashes_subset_handleObject hin)
        · rcases (hhead _).mp hin with hd | hin
          · exact .inl (mem_poolHashes_handleObject.mpr (.inr (.inl hd)))
          · exact .inr hin
    · rintro ⟨hhere, hrest⟩ hash hin
      rcases (ih _).mpr (hrest _ rfl) hash hin with hin | hin
      · rcases mem_poolHashes_handleObject.mp hin with ⟨row, hrow, he⟩ | hd | hin
        · rcases hhere row hrow with hin | hr
          · exact .inl (he ▸ hin)
          · exact .inr ((hhead _).mpr (.inl ⟨hdisp row hrow, he.trans hr⟩))
        · exact .inr ((hhead _).mpr (.inl hd))
        · exact .inl hin
      · exact .inr ((hhead _).mpr (.inr hin))

end

/-! ### The message of a `msg` -/

/-- A valid `msg` for an unlocked recipient: it passes the checks when it arrives, and the
recipient's key alone makes the message out of it. Its ciphertext was made for the recipient's
key: an unlocked identity opens it only with that key. -/
structure MsgTo (recipient : UnlockedIdentity) (r : Receipt) (msg : DecodedMsg) : Prop where
  unlocked : recipient ∈ X.unlocked
  accepted : (objectAccept X.toHashes r.object r.now).isSome
  decoded : decodedMsg X.toCrypto [recipient] r.object = some msg
  opens : ∀ identity ∈ X.unlocked, ∀ hdr body, r.object.header = some hdr →
    X.eciesDecrypt (msgCiphertext hdr r.object) identity.privEncryption = some body →
    identity.privEncryption = recipient.privEncryption

/-- The inbox has the message under the hash. -/
def ObjectSync.Delivered (s : ObjectSync) (hash : Bytes) (msg : DecodedMsg) : Prop :=
  ∃ row ∈ s.inbox, row.msgId = hash ∧ row.fromAddress = msg.fromAddress ∧ row.subject = cString msg.subject ∧
    row.body = cString msg.body

/-- The first unlocked identity whose key opens the object has the recipient's ripe. -/
def OpenedAs (recipient : UnlockedIdentity) (object : Buf) : Prop :=
  ∀ identity body, msgOpened X.toCrypto X.unlocked object = some (identity, body) → identity.ripe = recipient.ripe

section

variable {X} {s : ObjectSync} {r : Receipt} {recipient : UnlockedIdentity} {msg : DecodedMsg}

theorem objectAccept_header {H : Hashes} {object : Buf} {now : ℤ} {hdr : ObjectHeader}
    (h : objectAccept H object now = some hdr) : object.header = some hdr := by
  unfold objectAccept objectCheck at h
  split_ifs at h
  obtain ⟨hdr', hhdr, h⟩ := Option.bind_eq_some_iff.mp h
  split_ifs at h
  cases h
  exact hhdr

/-- The keyring reads the message of the recipient, or none at all when the first identity that
opens the object has another ripe. -/
theorem MsgTo.incomingMsg (h : MsgTo X recipient r msg) :
    ∃ hdr, objectAccept X.toHashes r.object r.now = some hdr ∧ hdr.objectType = objectMsg ∧
      (OpenedAs X recipient r.object → ∃ msg', incomingMsg X hdr r.object = some msg' ∧ msg'.SameText msg) ∧
      (¬ OpenedAs X recipient r.object → incomingMsg X hdr r.object = none) := by
  obtain ⟨hdr, haccept⟩ := Option.isSome_iff_exists.mp h.accepted
  obtain ⟨hdr', identity₀, body, q, hhdr, htype, hopen₀, hr⟩ := decodedMsg_eq_some h.decoded
  cases hhdr.symm.trans (objectAccept_header haccept)
  obtain ⟨hmem₀, hbody⟩ := trialOpen_eq_some hopen₀
  cases List.mem_singleton.mp hmem₀
  -- the identity that opens the object has the recipient's key, so that it sees the same plaintext
  obtain ⟨⟨identity, body'⟩, hopen⟩ := trialOpen_isSome h.unlocked hbody
  obtain ⟨hmem, hbody'⟩ := trialOpen_eq_some hopen
  rw [h.opens identity hmem hdr body' hhdr hbody', hbody] at hbody'
  cases hbody'
  have hopened : msgOpened X.toCrypto X.unlocked r.object = some (identity, body) := by
    rw [msgOpened, hhdr, Option.bind_some, hopen]
  have hiff : OpenedAs X recipient r.object ↔ identity.ripe = recipient.ripe := by
    refine ⟨fun ho => ho identity body hopened, fun he identity' body' ho => ?_⟩
    cases hopened.symm.trans ho
    exact he
  have hincoming : Bitmessage.incomingMsg X hdr r.object =
      ((trialDecryptBody X.toCrypto identity hdr r.object body).result hdr.headerLen).map Prod.fst := by
    rw [Bitmessage.incomingMsg, if_neg (by rw [htype.2]; decide), decodedMsg, result_trialDecryptMsg hhdr,
      if_pos htype, hopen, Option.bind_some]
  refine ⟨hdr, haccept, htype.1, fun ho => ?_, fun ho => ?_⟩
  · obtain ⟨msg', hr', hsame⟩ := (trialDecryptBody_identity identity hr).1 (hiff.mp ho)
    exact ⟨msg', by rw [hincoming, hr', Option.map_some], hsame⟩
  · rw [hincoming, (trialDecryptBody_identity identity hr).2 (fun he => ho (hiff.mpr he)), Option.map_none]

theorem ObjectSync.Delivered.mem {hash : Bytes} (h : s.Delivered hash msg) : hash ∈ s.inboxIds := by
  obtain ⟨row, hrow, hid, -⟩ := h
  exact List.mem_map.mpr ⟨row, hrow, hid⟩

/-- A message whose object is unseen is delivered exactly when it is opened as the recipient's. -/
theorem MsgTo.delivered_iff (h : MsgTo X recipient r msg) (hs : s.Unseen (r.hash X)) :
    (handleObject X s r).Delivered (r.hash X) msg ↔ OpenedAs X recipient r.object := by
  obtain ⟨hdr, haccept, htype, hsome, hnone⟩ := h.incomingMsg
  have hd : s.dispatched X r = some hdr := dispatched_eq_some.mpr ⟨hs.1, haccept⟩
  rw [handleObject_of_dispatched hd, dispatchObject, if_pos htype]
  constructor
  · intro hdel
    by_contra ho
    rw [handleIncomingMsg, hnone ho] at hdel
    exact hs.2 hdel.mem
  · intro ho
    obtain ⟨msg', hmsg', hfrom, hsubject, hbody⟩ := hsome ho
    rw [handleIncomingMsg_of_some hmsg', ObjectSync.Delivered]
    simp only [storeDecodedMsg]
    rw [insertInbox_of_new hs.2]
    refine ⟨_, List.mem_append_right _ (List.mem_singleton.mpr rfl), rfl, hfrom, ?_, ?_⟩
    · rw [hsubject]
    · rw [hbody]

/-- A suppressed message is not delivered when its object arrives. -/
theorem ObjectSync.Suppressed.not_delivered (hs : s.Suppressed (r.hash X)) :
    ¬ (Bitmessage.handleObject X s r).Delivered (r.hash X) msg := by
  intro hdel
  have hd : s.dispatched X r = none := by
    rw [ObjectSync.dispatched, if_pos (objectStoreHas_iff.mpr hs.1)]
  have hmem := hdel.mem
  rw [ObjectSync.inboxIds, (handleObject_of_not_dispatched hd).2] at hmem
  exact hs.2 hmem

end

/-- After any sequence of other objects, a valid `msg` is delivered exactly when the first identity
that opens it has the recipient's ripe and no message before it carried its object as an
acknowledgement; and every object that came into the pool was handled according to its type
exactly when no acknowledgement brought in a new one. -/
theorem msg_delivered_iff (s : ObjectSync) (rs : List Receipt) :
    (∀ recipient r msg, MsgTo X recipient r msg → (∀ r' ∈ rs, r'.hash X ≠ r.hash X) → s.Unseen (r.hash X) →
      ((handleObject X (handleObjects X s rs) r).Delivered (r.hash X) msg ↔
        OpenedAs X recipient r.object ∧
          Along (syncStep X) (fun s r' => ¬ CarriesAsAck X (r.hash X) s r') s rs)) ∧
    ((∀ hash ∈ (handleObjects X s rs).poolHashes, hash ∈ s.poolHashes ∨ hash ∈ handledHashes X s rs) ↔
      Along (syncStep X) (fun s r => ∀ row, s.ackStored X r = some row →
        row.hash ∈ s.poolHashes ∨ row.hash = r.hash X) s rs) := by
  refine ⟨fun recipient r msg hmsg hother hs => ?_, pool_handled_iff s rs⟩
  obtain ⟨hkept, hlost⟩ := hs.handleObjects hother
  by_cases hal : Along (syncStep X) (fun s r' => ¬ CarriesAsAck X (r.hash X) s r') s rs
  · rw [hmsg.delivered_iff (hkept hal), and_iff_left hal]
  · exact iff_of_false (hlost hal).not_delivered fun h => hal h.2

/-! ### A message that another message carries -/

/-- A node of the main network with one unlocked identity. -/
def exampleContext : SyncContext where
  toCrypto := plainCrypto
  magic := [0xe9, 0xbe, 0xb4, 0xd9]
  unlocked := [recipient]
  subscriptions := []
  pqMsg _ := none
  pqBroadcast _ := none

/-- Empty tables. -/
def emptySync : ObjectSync := ⟨KeyedTable.empty, [], KeyedTable.empty⟩

/-- A message to the recipient arrives. -/
def arrival : Receipt := ⟨msgFromVersion 4, 0, 0, 0⟩

/-- The packet with the object of that message. -/
def carriedPacket : Bytes :=
  exampleContext.magic ++ objectCommand ++ List.replicate 6 0 ++ [0, 0, 0, 182] ++ List.replicate 4 0 ++
    msgBytes 4

/-- Another message to the recipient, with the packet as its acknowledgement. -/
def carrier : Receipt where
  object := Buf.ofBytes ([0, 0, 0, 0, 0, 0, 0, 1] ++ List.replicate 8 0 ++ [0, 0, 0, 2, 1, 1] ++ [4, 1] ++
    List.replicate 132 0 ++ [0, 0] ++ List.replicate 20 1 ++ [2, 0, 206] ++ carriedPacket ++ [0])
      (by decide +kernel)
  now := 0
  storedAt := 0
  ackNow := 0

/-- The message is valid and addressed to the recipient. -/
theorem exists_msgTo_arrival : ∃ msg, MsgTo exampleContext recipient arrival msg := by
  have hdecoded : (decodedMsg plainCrypto [recipient] (msgFromVersion 4)).isSome = true := by decide +kernel
  obtain ⟨msg, hmsg⟩ := Option.isSome_iff_exists.mp hdecoded
  refine ⟨msg, List.mem_singleton.mpr rfl, by decide +kernel, hmsg, ?_⟩
  intro identity hmem hdr body _ _
  rw [List.mem_singleton.mp hmem]

theorem emptySync_unseen (hash : Bytes) : emptySync.Unseen hash := ⟨List.not_mem_nil, List.not_mem_nil⟩

/-- Another identity. -/
def bystander : UnlockedIdentity :=
  { recipient with ripe := List.replicate 20 2, privEncryption := [3], ripe_length := rfl }

/-- A node with both identities unlocked, under ciphers that show the key in front. -/
def busyContext : SyncContext where
  toHashes := prefixHashes
  eciesDecrypt ciphertext priv := if priv <+: ciphertext then plainCrypto.eciesDecrypt ciphertext priv else none
  verify _ _ _ := true
  magic := exampleContext.magic
  unlocked := [bystander, recipient]
  subscriptions := []
  pqMsg _ := none
  pqBroadcast _ := none

/-- A message to the other identity, with an acknowledgement of its own. -/
def earlierBytes : Bytes :=
  [0, 0, 0, 0, 0, 0, 0, 1] ++ List.replicate 8 0 ++ [0, 0, 0, 2, 1, 1] ++ [3, 1] ++ List.replicate 132 0 ++ [0, 0] ++
    List.replicate 20 2 ++ [2, 0, 206] ++ exampleContext.magic ++ objectCommand ++ List.replicate 6 0 ++
    [0, 0, 0, 182] ++ List.replicate 4 0 ++ msgBytes 2 ++ [0]

theorem length_earlierBytes : earlierBytes.length < 2 ^ 63 := by decide +kernel

def earlier : Receipt := ⟨Buf.ofBytes earlierBytes length_earlierBytes, 0, 0, 0⟩

/-- Behind a message to the other identity, whose acknowledgement is stored, the message is delivered. -/
theorem msg_delivered_behind : ∃ msg row, MsgTo busyContext recipient arrival msg ∧
    emptySync.ackStored busyContext earlier = some row ∧
    (handleObjects busyContext emptySync [earlier]).inbox.length = 1 ∧
    (handleObject busyContext (handleObjects busyContext emptySync [earlier]) arrival).Delivered
      (arrival.hash busyContext) msg := by
  have hdecoded : (decodedMsg busyContext.toCrypto [recipient] arrival.object).isSome = true := by decide +kernel
  obtain ⟨msg, hmsg⟩ := Option.isSome_iff_exists.mp hdecoded
  have hstored : ((emptySync.ackStored busyContext earlier).any fun row => row.hash ≠ arrival.hash busyContext) =
      true := by
    decide +kernel
  obtain ⟨row, hrow, hne⟩ := (Option.any_eq_true _ _).mp hstored
  have hto : MsgTo busyContext recipient arrival msg := by
    refine ⟨List.mem_cons_of_mem _ List.mem_cons_self, by decide +kernel, hmsg, ?_⟩
    have hshut : (arrival.object.header.bind fun hdr =>
        busyContext.eciesDecrypt (msgCiphertext hdr arrival.object) bystander.privEncryption).isSome = false := by
      decide +kernel
    intro identity hmem hdr body hhdr hopened
    rcases List.mem_cons.mp hmem with rfl | hmem
    · rw [hhdr, Option.bind_some, hopened] at hshut
      cases hshut
    · rw [List.mem_singleton.mp hmem]
  refine ⟨msg, row, hto, hrow, by decide +kernel, ?_⟩
  refine ((msg_delivered_iff busyContext emptySync [earlier]).1 recipient arrival msg hto ?_ (emptySync_unseen _)).mpr
    ⟨?_, ?_, fun _ _ => trivial⟩
  · rintro r' hr'
    rw [List.mem_singleton.mp hr']
    decide +kernel
  · have hripe : ((msgOpened busyContext.toCrypto busyContext.unlocked arrival.object).map fun o => o.1.ripe) =
        some recipient.ripe := by
      decide +kernel
    intro identity body hopened
    rw [hopened] at hripe
    exact Option.some.inj hripe
  · rintro ⟨row', hrow', he⟩
    cases hrow.symm.trans hrow'
    exact of_decide_eq_true hne he

/-- After the message that carries it, the message is not delivered. -/
theorem msg_suppressed_by_carrier : ∃ msg, MsgTo exampleContext recipient arrival msg ∧
    carrier.hash exampleContext ≠ arrival.hash exampleContext ∧
    ¬ (handleObject exampleContext (handleObjects exampleContext emptySync [carrier]) arrival).Delivered
      (arrival.hash exampleContext) msg ∧
    arrival.hash exampleContext ∈ (handleObjects exampleContext emptySync [carrier]).poolHashes ∧
    arrival.hash exampleContext ∉ handledHashes exampleContext emptySync [carrier, arrival] := by
  obtain ⟨msg, hmsg⟩ := exists_msgTo_arrival
  have hother : carrier.hash exampleContext ≠ arrival.hash exampleContext := by decide +kernel
  have hpool : arrival.hash exampleContext ∈ (handleObjects exampleContext emptySync [carrier]).poolHashes := by
    decide +kernel
  have hinbox : arrival.hash exampleContext ∉ (handleObjects exampleContext emptySync [carrier]).inboxIds := by
    decide +kernel
  exact ⟨msg, hmsg, hother, ObjectSync.Suppressed.not_delivered ⟨hpool, hinbox⟩, hpool, by decide +kernel⟩

end Bitmessage
