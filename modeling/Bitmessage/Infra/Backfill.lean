import Bitmessage.Core.StoredIdentity
import Bitmessage.Core.TrialAgreement
import Bitmessage.Infra.MsgDelivery
import Bitmessage.Pq.PubkeyPaths

/-! Messages that arrived while their identities were locked. They stay in the pool, and
after an unlocking the pool is gone through again: with the whole keyring, which commits
to the first identity that opens an object just as the receiver does, or with one
identity after the other for a list of addresses. In an inbox every message is filed
under the hash of its object, so that the ways can be compared by these identifiers. -/

namespace Bitmessage

open Transition FirstMatch

/-! ### Going through the pool again -/

/-- `bm_object_store_list_hashes_by_type`. -/
def objectStoreListHashesByType (pool : ObjectPool) (objectType : ℤ) : List Bytes :=
  (pool.rows.filter fun row => row.objectType = objectType).filterMap fun row =>
    if row.hash.length = 32 then some row.hash else none

/-- `bm_keyring_t` with both of its lists. The secret keys of the identities of version 5 have been
expanded, as far as they can be. -/
structure FullKeyring extends Keyring where
  pq : List UnlockedPqIdentity

/-- `bm_pq_keyring_find_by_address`. -/
def FullKeyring.findPq (kr : FullKeyring) (address : Bytes) : Bool :=
  kr.pq.any fun identity => identity.address = address

section

variable (C : Crypto) (P : PqCrypto) (kr : FullKeyring)

/-- `bm_trial_decrypt_and_store_single`. -/
def trialDecryptAndStoreSingle (identity : UnlockedIdentity) (inbox : List InboxRow) (object : Buf) (now : ℤ) :
    Option (List InboxRow × Bytes) :=
  (decodedMsgSingle C identity object).map (storeDecodedMsg C inbox object now)

/-- The identities of version 5 that `bm_pq_keyring_open_msg` tries for an address, or for none. -/
def FullKeyring.pqFor (address : Option Bytes) : List UnlockedPqIdentity :=
  kr.pq.filter fun identity => address.all fun a => identity.address = a

/-- What `bm_pq_trial_decrypt_and_store` does to the inbox. -/
def pqTrialDecryptAndStoreInbox (address : Option Bytes) (inbox : List InboxRow) (object : Buf) (now : ℤ) :
    Option (List InboxRow × Bytes) :=
  (pqDecodedMsg C P (kr.pqFor address) object).map (storeDecodedMsg C inbox object now)

/-- One object of the pool: `tryStore` is the inbox with its message, and the messages are counted. -/
def backfillOne (pool : ObjectPool) (tryStore : List InboxRow → Buf → Option (List InboxRow × Bytes))
    (st : List InboxRow × ℕ) (hash : Bytes) : List InboxRow × ℕ :=
  match objectStoreGet pool hash with
  | none => st
  | some object =>
    match tryStore st.1 object with
    | none => st
    | some (inbox, _) => (inbox, st.2 + 1)

/-- The loop over the objects of the type `msg`. -/
def backfillLoop (pool : ObjectPool) (tryStore : List InboxRow → Buf → Option (List InboxRow × Bytes))
    (inbox : List InboxRow) : List InboxRow × ℕ :=
  (objectStoreListHashesByType pool objectMsg).foldl (backfillOne pool tryStore) (inbox, 0)

/-- The addresses that name identities of version 5. -/
def FullKeyring.pqTargets (addresses : List Bytes) : List Bytes := addresses.filter kr.findPq

/-- The identities before version 5 that the other addresses name; what is not found is left out. -/
def FullKeyring.targets (addresses : List Bytes) : List UnlockedIdentity :=
  addresses.filterMap fun a => if kr.findPq a then none else keyringFindByAddress kr.toKeyring a

/-- `bm_object_sync_backfill_trial_decrypt_addresses`: the inbox and the number of messages. -/
def backfillTrialDecryptAddresses (pool : ObjectPool) (inbox : List InboxRow) (addresses : List Bytes) (now : ℤ) :
    List InboxRow × ℕ :=
  if (kr.targets addresses).length + (kr.pqTargets addresses).length = 0 then (inbox, 0)
  else
    backfillLoop pool (fun inbox object =>
      ((kr.targets addresses).findSome? fun identity => trialDecryptAndStoreSingle C identity inbox object now).or
        ((kr.pqTargets addresses).findSome? fun a => pqTrialDecryptAndStoreInbox C P kr (some a) inbox object now))
      inbox

/-- `bm_object_sync_backfill_trial_decrypt`; `storedAt` is the time read when the message of an object is
stored. -/
def backfillTrialDecrypt (pool : ObjectPool) (inbox : List InboxRow) (addressFilter : Option Bytes)
    (storedAt : Buf → ℤ) (now : ℤ) : List InboxRow × ℕ :=
  match addressFilter with
  | some a => backfillTrialDecryptAddresses C P kr pool inbox [a] now
  | none =>
    backfillLoop pool (fun inbox object =>
      (trialDecryptAndStore C kr.entries inbox object (storedAt object)).or
        (pqTrialDecryptAndStoreInbox C P kr none inbox object now)) inbox

end

/-! ### Receiving and catching up -/

section

variable (X : SyncContext) (P : PqCrypto) (kr : FullKeyring)

/-- The receiver while the identities of a keyring are unlocked. -/
def SyncContext.withKeyring : SyncContext :=
  { X with unlocked := kr.entries, pqMsg := pqDecodedMsg X.toCrypto P kr.pq }

/-- The receiver while all identities are locked. -/
def SyncContext.locked : SyncContext := { X with unlocked := [], pqMsg := fun _ => none }

/-- The objects are received: each of them passes the checks and is not in the pool yet. -/
def Received (s : ObjectSync) (rs : List Receipt) : Prop :=
  Along (syncStep X) (fun s r => (s.dispatched X r).isSome) s rs

/-- The addresses name every unlocked identity; of those before version 5 an entry with the same key and
ripe is found. -/
structure FullKeyring.NamedBy (addresses : List Bytes) : Prop where
  older : ∀ identity ∈ kr.entries, ∃ a ∈ addresses, kr.findPq a = false ∧ ∃ found,
    keyringFindByAddress kr.toKeyring a = some found ∧ found.privEncryption = identity.privEncryption ∧
      found.ripe = identity.ripe
  pq : ∀ identity ∈ kr.pq, identity.address ∈ addresses

/-- The same messages are in the inbox after objects are received with the identities unlocked, and after
they are received with the identities locked and the pool is gone through again in either way. -/
structure SameInbox (addresses : List Bytes) (s : ObjectSync) (rs : List Receipt) (storedAt : Buf → ℤ) (now : ℤ) :
    Prop where
  keyring : ∀ id, id ∈ (handleObjects (X.withKeyring P kr) s rs).inboxIds ↔
    id ∈ (backfillTrialDecrypt X.toCrypto P kr (handleObjects X.locked s rs).pool (handleObjects X.locked s rs).inbox
      none storedAt now).1.map InboxRow.msgId
  addresses : ∀ id, id ∈ (handleObjects (X.withKeyring P kr) s rs).inboxIds ↔
    id ∈ (backfillTrialDecryptAddresses X.toCrypto P kr (handleObjects X.locked s rs).pool
      (handleObjects X.locked s rs).inbox addresses now).1.map InboxRow.msgId

end

/-! ### What is in the inbox after the loop -/

section

variable {C : Crypto} {P : PqCrypto} {kr : FullKeyring} {pool : ObjectPool} {inbox : List InboxRow} {id : Bytes}

/-- A message that is decoded is stored under the hash of its object, and nothing else is. -/
structure StoresDecoded (C : Crypto) (tryStore : List InboxRow → Buf → Option (List InboxRow × Bytes))
    (decodes : Buf → Prop) : Prop where
  decoded : ∀ inbox object stored, tryStore inbox object = some stored → decodes object ∧
    ∀ id, id ∈ stored.1.map InboxRow.msgId ↔
      id = inventoryHash C.toHashes object.bytes ∨ id ∈ inbox.map InboxRow.msgId
  refused : ∀ inbox object, tryStore inbox object = none → ¬ decodes object

theorem mem_ids_storeDecodedMsg {object : Buf} {now : ℤ} {msg : DecodedMsg} :
    id ∈ (storeDecodedMsg C inbox object now msg).1.map InboxRow.msgId ↔
      id = inventoryHash C.toHashes object.bytes ∨ id ∈ inbox.map InboxRow.msgId := mem_inboxIds_insert

/-- A function that decodes and stores. -/
theorem storesDecoded_map (decode : Buf → Option DecodedMsg) (time : Buf → ℤ) :
    StoresDecoded C (fun inbox object => (decode object).map (storeDecodedMsg C inbox object (time object)))
      fun object => (decode object).isSome where
  decoded inbox object stored h := by
    obtain ⟨msg, hmsg, rfl⟩ := Option.map_eq_some_iff.mp h
    exact ⟨by rw [hmsg]; rfl, fun id => mem_ids_storeDecodedMsg⟩
  refused inbox object h := by
    rw [Option.map_eq_none_iff.mp h]
    exact Bool.false_ne_true

/-- Two such functions, the second when the first refuses. -/
theorem StoresDecoded.or {first second : List InboxRow → Buf → Option (List InboxRow × Bytes)} {d e : Buf → Prop}
    (hfirst : StoresDecoded C first d) (hsecond : StoresDecoded C second e) :
    StoresDecoded C (fun inbox object => (first inbox object).or (second inbox object)) fun object =>
      d object ∨ e object where
  decoded inbox object stored h := by
    rcases Option.or_eq_some_iff.mp h with h | ⟨-, h⟩
    · obtain ⟨hd, hids⟩ := hfirst.decoded inbox object stored h
      exact ⟨.inl hd, hids⟩
    · obtain ⟨he, hids⟩ := hsecond.decoded inbox object stored h
      exact ⟨.inr he, hids⟩
  refused inbox object h := by
    obtain ⟨hf, hs⟩ := Option.or_eq_none_iff.mp h
    rw [not_or]
    exact ⟨hfirst.refused inbox object hf, hsecond.refused inbox object hs⟩

/-- A list of such functions, each when those before it refuse. -/
theorem storesDecoded_findSome? {α : Type} (xs : List α) {f : α → List InboxRow → Buf → Option (List InboxRow × Bytes)}
    {d : α → Buf → Prop} (h : ∀ x, StoresDecoded C (f x) (d x)) :
    StoresDecoded C (fun inbox object => xs.findSome? fun x => f x inbox object) fun object =>
      ∃ x ∈ xs, d x object where
  decoded inbox object stored hstored := by
    obtain ⟨x, hx, hstored⟩ := List.exists_of_findSome?_eq_some hstored
    obtain ⟨hd, hids⟩ := (h x).decoded inbox object stored hstored
    exact ⟨⟨x, hx, hd⟩, hids⟩
  refused inbox object hnone := by
    rintro ⟨x, hx, hd⟩
    exact (h x).refused inbox object (List.findSome?_eq_none_iff.mp hnone x hx) hd

/-- One object adds its hash if its message is decoded. -/
theorem mem_ids_backfillOne {tryStore : List InboxRow → Buf → Option (List InboxRow × Bytes)} {decodes : Buf → Prop}
    (h : StoresDecoded C tryStore decodes) (st : List InboxRow × ℕ) (hash : Bytes) :
    id ∈ (backfillOne pool tryStore st hash).1.map InboxRow.msgId ↔ id ∈ st.1.map InboxRow.msgId ∨
      ∃ object, objectStoreGet pool hash = some object ∧ decodes object ∧
        id = inventoryHash C.toHashes object.bytes := by
  unfold backfillOne
  rcases hget : objectStoreGet pool hash with _ | object
  · simp
  rcases hstored : tryStore st.1 object with _ | ⟨inbox, ack⟩
  · have hrefused := h.refused st.1 object hstored
    simp [hstored, hrefused]
  · obtain ⟨hdecodes, hids⟩ := h.decoded st.1 object (inbox, ack) hstored
    simp only [hstored]
    rw [hids id, or_comm]
    simp [hdecodes]

theorem mem_ids_backfillLoop {tryStore : List InboxRow → Buf → Option (List InboxRow × Bytes)} {decodes : Buf → Prop}
    (h : StoresDecoded C tryStore decodes) :
    id ∈ (backfillLoop pool tryStore inbox).1.map InboxRow.msgId ↔ id ∈ inbox.map InboxRow.msgId ∨
      ∃ hash ∈ objectStoreListHashesByType pool objectMsg, ∃ object, objectStoreGet pool hash = some object ∧
        decodes object ∧ id = inventoryHash C.toHashes object.bytes := by
  have hfold (hashes : List Bytes) (st : List InboxRow × ℕ) :
      id ∈ (hashes.foldl (backfillOne pool tryStore) st).1.map InboxRow.msgId ↔ id ∈ st.1.map InboxRow.msgId ∨
        ∃ hash ∈ hashes, ∃ object, objectStoreGet pool hash = some object ∧ decodes object ∧
          id = inventoryHash C.toHashes object.bytes := by
    induction hashes generalizing st with
    | nil => simp
    | cons hash hashes ih =>
      rw [List.foldl_cons, ih, mem_ids_backfillOne h, List.exists_mem_cons_iff, or_assoc]
  exact hfold _ _

/-- The message of an object is decoded with the whole keyring. -/
def FullKeyring.Decodes (kr : FullKeyring) (C : Crypto) (P : PqCrypto) (object : Buf) : Prop :=
  (decodedMsg C kr.entries object).isSome ∨ (pqDecodedMsg C P kr.pq object).isSome

/-- The message of an object is decoded with one of the identities that addresses name. -/
def FullKeyring.DecodesFor (kr : FullKeyring) (C : Crypto) (P : PqCrypto) (addresses : List Bytes) (object : Buf) :
    Prop :=
  (∃ identity ∈ kr.targets addresses, (decodedMsgSingle C identity object).isSome) ∨
    ∃ a ∈ kr.pqTargets addresses, (pqDecodedMsg C P (kr.pqFor (some a)) object).isSome

theorem mem_ids_backfillTrialDecrypt (storedAt : Buf → ℤ) (now : ℤ) :
    id ∈ (backfillTrialDecrypt C P kr pool inbox none storedAt now).1.map InboxRow.msgId ↔
      id ∈ inbox.map InboxRow.msgId ∨ ∃ hash ∈ objectStoreListHashesByType pool objectMsg, ∃ object,
        objectStoreGet pool hash = some object ∧ kr.Decodes C P object ∧
          id = inventoryHash C.toHashes object.bytes := by
  have hall : kr.pqFor none = kr.pq := List.filter_eq_self.mpr fun _ _ => rfl
  have hstores := (storesDecoded_map (C := C) (decodedMsg C kr.entries) storedAt).or
    (storesDecoded_map (pqDecodedMsg C P (kr.pqFor none)) fun _ => now)
  have hloop := @mem_ids_backfillLoop C pool inbox id _ _ hstores
  simp only [FullKeyring.Decodes]
  rw [hall] at hloop
  rw [← hloop, ← hall]
  rfl

theorem mem_ids_backfillTrialDecryptAddresses (addresses : List Bytes) (now : ℤ) :
    id ∈ (backfillTrialDecryptAddresses C P kr pool inbox addresses now).1.map InboxRow.msgId ↔
      id ∈ inbox.map InboxRow.msgId ∨ ∃ hash ∈ objectStoreListHashesByType pool objectMsg, ∃ object,
        objectStoreGet pool hash = some object ∧ kr.DecodesFor C P addresses object ∧
          id = inventoryHash C.toHashes object.bytes := by
  unfold backfillTrialDecryptAddresses
  split_ifs with hnone
  · -- without a target there is nothing to try
    obtain ⟨hold, hpq⟩ := Nat.add_eq_zero_iff.mp hnone
    simp [FullKeyring.DecodesFor, List.length_eq_zero_iff.mp hold, List.length_eq_zero_iff.mp hpq]
  · exact mem_ids_backfillLoop ((storesDecoded_findSome? (kr.targets addresses) fun identity =>
      storesDecoded_map (decodedMsgSingle C identity) fun _ => now).or
        (storesDecoded_findSome? (kr.pqTargets addresses) fun a =>
          storesDecoded_map (pqDecodedMsg C P (kr.pqFor (some a))) fun _ => now))

end

/-! ### What is in the inbox after a run -/

section

variable (X : SyncContext)

/-- The subscription to one of the addresses can read the broadcast. -/
def ReadsBroadcast (object : Buf) : Prop :=
  ∃ address ∈ X.subscriptions, ∃ version stream ripe, addressDecode X.toHashes address = some (version, stream, ripe) ∧
    (decodedBroadcast X.toCrypto ⟨version, stream, ripe⟩ object).isSome

/-- The handling of an object by its type puts a row into the inbox. -/
def StoresRow (hdr : ObjectHeader) (object : Buf) : Prop :=
  if hdr.objectType = objectMsg then (incomingMsg X hdr object).isSome = true
  else if hdr.objectType = objectBroadcast then
    if hdr.version = pqBroadcastObjectVersion then (X.pqBroadcast object).isSome = true else ReadsBroadcast X object
  else False

end

section

variable {X : SyncContext} {s t : ObjectSync} {r : Receipt} {rs : List Receipt} {hdr : ObjectHeader} {id : Bytes}

theorem received_cons : Received X s (r :: rs) ↔
    (∃ hdr, s.dispatched X r = some hdr) ∧ Received X (handleObject X s r) rs := by
  unfold Received
  rw [← Option.isSome_iff_exists]
  refine and_congr_right fun _ => ⟨fun h => h _ rfl, fun h t ht => ?_⟩
  cases ht
  exact h

theorem handleObjects_cons (X : SyncContext) (s : ObjectSync) (r : Receipt) (rs : List Receipt) :
    handleObjects X s (r :: rs) = handleObjects X (handleObject X s r) rs := rfl

theorem mem_ids_handleIncomingBroadcast {inbox : List InboxRow} {object : Buf} {now : ℤ} :
    id ∈ (handleIncomingBroadcast X inbox object now).map InboxRow.msgId ↔
      (id = inventoryHash X.toHashes object.bytes ∧ ReadsBroadcast X object) ∨ id ∈ inbox.map InboxRow.msgId := by
  unfold handleIncomingBroadcast
  rcases hs : X.subscriptions.findSome? (storedForSubscription X inbox object now) with _ | stored
  · have hreads : ¬ ReadsBroadcast X object := by
      rintro ⟨address, hmem, version, stream, ripe, hdecode, hdecoded⟩
      have hnone := List.findSome?_eq_none_iff.mp hs address hmem
      rw [storedForSubscription, hdecode, Option.bind_some] at hnone
      have hdecodedNone := Option.map_eq_none_iff.mp hnone
      rw [hdecodedNone] at hdecoded
      cases hdecoded
    simp [hreads]
  · obtain ⟨address, hmem, hstored⟩ := List.exists_of_findSome?_eq_some hs
    obtain ⟨⟨version, stream, ripe⟩, hdecode, hstored⟩ := Option.bind_eq_some_iff.mp hstored
    obtain ⟨msg, hmsg, rfl⟩ := Option.map_eq_some_iff.mp hstored
    have hreads : ReadsBroadcast X object :=
      ⟨address, hmem, version, stream, ripe, hdecode, Option.isSome_iff_exists.mpr ⟨msg, hmsg⟩⟩
    rw [and_iff_left hreads]
    exact mem_inboxIds_insert

/-- An object that is handled adds its hash, if its row is stored. -/
theorem mem_inboxIds_of_dispatched (h : s.dispatched X r = some hdr) :
    id ∈ (handleObject X s r).inboxIds ↔ (id = r.hash X ∧ StoresRow X hdr r.object) ∨ id ∈ s.inboxIds := by
  rw [handleObject_of_dispatched h]
  unfold dispatchObject StoresRow
  by_cases hmsg : hdr.objectType = objectMsg
  · rw [if_pos hmsg, if_pos hmsg]
    rcases hincoming : incomingMsg X hdr r.object with _ | msg
    · rw [handleIncomingMsg, hincoming]
      simp [ObjectSync.inboxIds]
    · rw [ObjectSync.inboxIds, handleIncomingMsg_of_some hincoming]
      simp only [Option.isSome_some, and_true]
      exact mem_inboxIds_insert
  · rw [if_neg hmsg, if_neg hmsg]
    by_cases hbroadcast : hdr.objectType = objectBroadcast
    · rw [if_pos hbroadcast, if_pos hbroadcast]
      by_cases hversion : hdr.version = pqBroadcastObjectVersion
      · rw [if_pos hversion, if_pos hversion]
        unfold ObjectSync.inboxIds handleIncomingBroadcastV6
        rcases hread : X.pqBroadcast r.object with _ | msg
        · simp
        · simp only [Option.map_some, Option.getD_some, Option.isSome_some, and_true]
          exact mem_inboxIds_insert
      · rw [if_neg hversion, if_neg hversion]
        exact mem_ids_handleIncomingBroadcast
    · rw [if_neg hbroadcast, if_neg hbroadcast]
      simp [ObjectSync.inboxIds]

theorem mem_inboxIds_handleObjects (h : Received X s rs) : id ∈ (handleObjects X s rs).inboxIds ↔ id ∈ s.inboxIds ∨
    ∃ r ∈ rs, ∃ hdr, objectAccept X.toHashes r.object r.now = some hdr ∧ StoresRow X hdr r.object ∧ id = r.hash X := by
  induction rs generalizing s with
  | nil => simp [handleObjects]
  | cons r rs ih =>
    obtain ⟨⟨hdr, hd⟩, hrest⟩ := received_cons.mp h
    obtain ⟨-, haccept⟩ := dispatched_eq_some.mp hd
    have hhead : (∃ hdr', some hdr = some hdr' ∧ StoresRow X hdr' r.object ∧ id = r.hash X) ↔
        (id = r.hash X ∧ StoresRow X hdr r.object) := by
      simp [and_comm]
    rw [handleObjects_cons, ih hrest, mem_inboxIds_of_dispatched hd, List.exists_mem_cons_iff, haccept, hhead, or_assoc,
      or_left_comm]

theorem notMem_of_received {hash : Bytes} (h : Received X s rs) (hpool : hash ∈ s.poolHashes) :
    hash ∉ rs.map (Receipt.hash X) := by
  induction rs generalizing s with
  | nil => exact List.not_mem_nil
  | cons r rs ih =>
    obtain ⟨⟨hdr, hd⟩, hrest⟩ := received_cons.mp h
    rw [List.map_cons, List.mem_cons, not_or]
    refine ⟨?_, ih hrest (poolHashes_subset_handleObject hpool)⟩
    rintro rfl
    exact (dispatched_eq_some.mp hd).1 hpool

/-- No two received objects have one hash. -/
theorem nodup_of_received (h : Received X s rs) : (rs.map (Receipt.hash X)).Nodup := by
  induction rs generalizing s with
  | nil => exact List.nodup_nil
  | cons r rs ih =>
    obtain ⟨⟨hdr, hd⟩, hrest⟩ := received_cons.mp h
    rw [List.map_cons, List.nodup_cons]
    refine ⟨notMem_of_received hrest ?_, ih hrest⟩
    exact mem_poolHashes_handleObject.mpr (.inr (.inl ⟨by rw [hd]; rfl, rfl⟩))

theorem accepted_of_received (h : Received X s rs) (hr : r ∈ rs) :
    ∃ hdr, objectAccept X.toHashes r.object r.now = some hdr := by
  induction rs generalizing s with
  | nil => cases hr
  | cons r' rs ih =>
    obtain ⟨⟨hdr, hd⟩, hrest⟩ := received_cons.mp h
    rcases List.mem_cons.mp hr with rfl | hr
    · exact ⟨hdr, (dispatched_eq_some.mp hd).2⟩
    · exact ih hrest hr

/-! ### The pool of a node whose identities are locked -/

theorem incomingMsg_locked (hdr : ObjectHeader) (object : Buf) : incomingMsg X.locked hdr object = none := by
  unfold incomingMsg
  split_ifs
  · rfl
  · rcases h : decodedMsg X.locked.toCrypto X.locked.unlocked object with _ | msg
    · rfl
    · obtain ⟨identity, hmem, -⟩ := exists_single_of_keyring h
      cases hmem

/-- An object that arrives while the identities are locked is added to the pool, and nothing else is. -/
theorem pool_handleObject_locked (h : s.dispatched X.locked r = some hdr) :
    (handleObject X.locked s r).pool = objectStoreInsert s.pool (poolObject X.toHashes r.object hdr r.now) := by
  rw [handleObject_of_dispatched h]
  unfold dispatchObject
  split_ifs
  · rw [handleIncomingMsg, incomingMsg_locked]
    rfl
  · rfl
  · rfl
  · rfl

theorem mem_rows_handleObjects_locked {row : PoolObject} (h : Received X.locked s rs) :
    row ∈ (handleObjects X.locked s rs).pool.rows ↔ row ∈ s.pool.rows ∨
      ∃ r ∈ rs, ∃ hdr, objectAccept X.toHashes r.object r.now = some hdr ∧
        row = poolObject X.toHashes r.object hdr r.now := by
  induction rs generalizing s with
  | nil => simp [handleObjects]
  | cons r rs ih =>
    obtain ⟨⟨hdr, hd⟩, hrest⟩ := received_cons.mp h
    obtain ⟨hnew, haccept⟩ := dispatched_eq_some.mp hd
    have haccept : objectAccept X.toHashes r.object r.now = some hdr := haccept
    have hkey : (poolObject X.toHashes r.object hdr r.now).hash ∉ s.pool.rows.map PoolObject.hash := hnew
    rw [handleObjects_cons, ih hrest, pool_handleObject_locked hd, objectStoreInsert, KeyedTable.mem_insertOrIgnore,
      and_iff_right hkey, List.exists_mem_cons_iff, haccept, or_assoc]
    simp

/-- What is received with the identities unlocked is received with the identities locked as well. -/
theorem received_locked {P : PqCrypto} {kr : FullKeyring} (h : Received (X.withKeyring P kr) s rs)
    (hsub : t.poolHashes ⊆ s.poolHashes) : Received X.locked t rs := by
  induction rs generalizing s t with
  | nil => trivial
  | cons r rs ih =>
    obtain ⟨⟨hdr, hd⟩, hrest⟩ := received_cons.mp h
    obtain ⟨hnew, haccept⟩ := dispatched_eq_some.mp hd
    have hd' : t.dispatched X.locked r = some hdr := dispatched_eq_some.mpr ⟨fun hmem => hnew (hsub hmem), haccept⟩
    refine received_cons.mpr ⟨⟨hdr, hd'⟩, ih hrest fun hash hmem => ?_⟩
    rw [ObjectSync.poolHashes, pool_handleObject_locked hd', mem_poolHashes_insert] at hmem
    rcases hmem with hhash | hmem
    · exact mem_poolHashes_handleObject.mpr (.inr (.inl ⟨by rw [hd]; rfl, hhash⟩))
    · exact poolHashes_subset_handleObject (hsub hmem)

/-- The messages that wait in the pool are the ones that were received. -/
theorem waiting_iff {D : Buf → Prop} (hD : ∀ object object', object.bytes = object'.bytes → D object → D object')
    (hpool : ∀ row ∈ s.pool.rows, row.objectType ≠ objectMsg) (h : Received X.locked s rs) :
    (∃ hash ∈ objectStoreListHashesByType (handleObjects X.locked s rs).pool objectMsg, ∃ object,
      objectStoreGet (handleObjects X.locked s rs).pool hash = some object ∧ D object ∧
        id = inventoryHash X.toHashes object.bytes) ↔
    ∃ r ∈ rs, ∃ hdr, objectAccept X.toHashes r.object r.now = some hdr ∧ hdr.objectType = objectMsg ∧ D r.object ∧
      id = r.hash X := by
  unfold objectStoreListHashesByType
  simp only [List.mem_filterMap, List.mem_filter, decide_eq_true_eq]
  constructor
  · rintro ⟨hash, ⟨row, ⟨hrow, htype⟩, hhash⟩, object, hget, hdecodes, rfl⟩
    split_ifs at hhash
    cases hhash
    rcases (mem_rows_handleObjects_locked h).mp hrow with hold | ⟨r, hr, hdr, haccept, rfl⟩
    · exact absurd htype (hpool row hold)
    · obtain ⟨read, hread, hbytes⟩ := objectStoreGet_of_mem hrow
      cases hread.symm.trans hget
      have hbounds := Buf.header_bounds (objectAccept_header haccept)
      have hmsg : hdr.objectType = objectMsg := (objectType_poolObject_iff hbounds.2 (by decide)).mp htype
      refine ⟨r, hr, hdr, haccept, hmsg, hD _ _ hbytes hdecodes, ?_⟩
      rw [hbytes]
      rfl
  · rintro ⟨r, hr, hdr, haccept, htype, hdecodes, rfl⟩
    have hrow : poolObject X.toHashes r.object hdr r.now ∈ (handleObjects X.locked s rs).pool.rows :=
      (mem_rows_handleObjects_locked h).mpr (.inr ⟨r, hr, hdr, haccept, rfl⟩)
    obtain ⟨read, hread, hbytes⟩ := objectStoreGet_of_mem hrow
    have hbounds := Buf.header_bounds (objectAccept_header haccept)
    have hmsg : (poolObject X.toHashes r.object hdr r.now).objectType = (objectMsg : ℤ) :=
      (objectType_poolObject_iff hbounds.2 (by decide)).mpr htype
    refine ⟨_, ⟨_, ⟨hrow, hmsg⟩, if_pos (length_inventoryHash _)⟩, read, hread, hD _ _ hbytes.symm hdecodes, ?_⟩
    rw [hbytes]
    rfl

end

/-! ### The same messages -/

section

variable {X : SyncContext} {P : PqCrypto} {kr : FullKeyring} {object object' : Buf} {hdr : ObjectHeader}
  {publicKey madeFor pqPublicKey pqMadeFor : Bytes → Bytes}

/-- The receiver asks the identities of the version, and the search through the pool all of them, which
makes no difference. -/
theorem incomingMsg_withKeyring_iff (h : object.header = some hdr) :
    (incomingMsg (X.withKeyring P kr) hdr object).isSome ↔ kr.Decodes X.toCrypto P object := by
  unfold incomingMsg FullKeyring.Decodes
  by_cases hversion : hdr.version = pqMsgObjectVersion
  · have hold : decodedMsg X.toCrypto kr.entries object = none := by
      rw [decodedMsg_eq_committed h, if_neg]
      rintro ⟨-, hone⟩
      exact absurd (hversion.symm.trans hone) (by decide)
    rw [if_pos hversion, hold]
    simp [SyncContext.withKeyring]
  · have hpq : pqDecodedMsg X.toCrypto P kr.pq object = none := by
      refine pqDecodedMsg_of_version fun hdr' hheader' => ?_
      cases h.symm.trans hheader'
      exact hversion
    rw [if_neg hversion, hpq]
    simp [SyncContext.withKeyring]

/-- What a node with unlocked identities stores is what it stores with locked ones, and the messages that
the keyring decodes. -/
theorem storesRow_withKeyring_iff (h : object.header = some hdr) : StoresRow (X.withKeyring P kr) hdr object ↔
    StoresRow X.locked hdr object ∨ (hdr.objectType = objectMsg ∧ kr.Decodes X.toCrypto P object) := by
  unfold StoresRow
  by_cases hmsg : hdr.objectType = objectMsg
  · rw [if_pos hmsg, if_pos hmsg, incomingMsg_locked, incomingMsg_withKeyring_iff h]
    simp [hmsg]
  · rw [if_neg hmsg, if_neg hmsg, or_iff_left fun hn => hmsg hn.1]
    rfl

theorem decodes_congr (h : object.bytes = object'.bytes) (hd : kr.Decodes X.toCrypto P object) :
    kr.Decodes X.toCrypto P object' := by
  unfold FullKeyring.Decodes at hd ⊢
  rwa [← decodedMsg_congr h, ← pqDecodedMsg_congr h]

theorem decodesFor_congr {addresses : List Bytes} (h : object.bytes = object'.bytes)
    (hd : kr.DecodesFor X.toCrypto P addresses object) : kr.DecodesFor X.toCrypto P addresses object' := by
  unfold FullKeyring.DecodesFor at hd ⊢
  simp only [← decodedMsgSingle_congr h, ← pqDecodedMsg_congr h]
  exact hd

/-- With the addresses of all the unlocked identities, each of them is tried alone. -/
theorem decodesFor_iff (hP : P.OpensOwn pqPublicKey pqMadeFor) {addresses : List Bytes}
    (hnamed : kr.NamedBy addresses) :
    kr.DecodesFor X.toCrypto P addresses object ↔
      (∃ identity ∈ kr.entries, (decodedMsgSingle X.toCrypto identity object).isSome) ∨
        (pqDecodedMsg X.toCrypto P kr.pq object).isSome := by
  unfold FullKeyring.DecodesFor FullKeyring.targets FullKeyring.pqTargets
  refine or_congr ⟨?_, ?_⟩ ⟨?_, ?_⟩
  · rintro ⟨identity, hmem, hdecoded⟩
    obtain ⟨a, -, hfound⟩ := List.mem_filterMap.mp hmem
    split_ifs at hfound
    exact ⟨identity, List.mem_of_find?_eq_some hfound, hdecoded⟩
  · rintro ⟨identity, hmem, hdecoded⟩
    obtain ⟨a, ha, hold, found, hfound, hkey, hripe⟩ := hnamed.older identity hmem
    refine ⟨found, List.mem_filterMap.mpr ⟨a, ha, ?_⟩, decodedMsgSingle_isSome_of_keys hkey.symm hripe.symm hdecoded⟩
    rw [hold, if_neg Bool.false_ne_true, hfound]
  · rintro ⟨a, -, hdecoded⟩
    obtain ⟨identity, hmem, halone⟩ := (pqDecodedMsg_isSome_iff hP).mp hdecoded
    exact (pqDecodedMsg_isSome_iff hP).mpr ⟨identity, (List.mem_filter.mp hmem).1, halone⟩
  · intro hdecoded
    obtain ⟨identity, hmem, halone⟩ := (pqDecodedMsg_isSome_iff hP).mp hdecoded
    refine ⟨identity.address, List.mem_filter.mpr ⟨hnamed.pq identity hmem, ?_⟩, ?_⟩
    · exact List.any_eq_true.mpr ⟨identity, hmem, decide_eq_true rfl⟩
    · refine (pqDecodedMsg_isSome_iff hP).mpr ⟨identity, List.mem_filter.mpr ⟨hmem, ?_⟩, halone⟩
      exact decide_eq_true rfl

/-- Without duplicates, the addresses of the entries name the unlocked identities. -/
theorem FullKeyring.namedBy_addresses (h : kr.addresses.Nodup) (hpq : kr.pq = []) : kr.NamedBy kr.addresses where
  older identity hmem := by
    have hfound : keyringFindByAddress kr.toKeyring identity.address = some identity :=
      (@KeyedTable.find?_eq_some _ _ _ _ ⟨kr.entries, h⟩ _ _).mpr ⟨hmem, rfl⟩
    refine ⟨identity.address, List.mem_map_of_mem hmem, ?_, identity, hfound, rfl, rfl⟩
    rw [FullKeyring.findPq, hpq]
    rfl
  pq identity hmem := by
    rw [hpq] at hmem
    cases hmem

variable {s : ObjectSync} {rs : List Receipt} {addresses : List Bytes} {id : Bytes}

/-- The inbox of a node with unlocked identities, beside that of a node with locked ones. -/
theorem mem_inboxIds_withKeyring (h : Received (X.withKeyring P kr) s rs) :
    id ∈ (handleObjects (X.withKeyring P kr) s rs).inboxIds ↔ id ∈ (handleObjects X.locked s rs).inboxIds ∨
      ∃ r ∈ rs, ∃ hdr, objectAccept X.toHashes r.object r.now = some hdr ∧ hdr.objectType = objectMsg ∧
        kr.Decodes X.toCrypto P r.object ∧ id = r.hash X := by
  rw [mem_inboxIds_handleObjects h, mem_inboxIds_handleObjects (received_locked h fun _ hmem => hmem), or_assoc]
  refine or_congr_right ⟨?_, ?_⟩
  · rintro ⟨r, hr, hdr, haccept, hstores, rfl⟩
    rcases (storesRow_withKeyring_iff (objectAccept_header haccept)).mp hstores with hstores | ⟨htype, hdecodes⟩
    · exact .inl ⟨r, hr, hdr, haccept, hstores, rfl⟩
    · exact .inr ⟨r, hr, hdr, haccept, htype, hdecodes, rfl⟩
  · rintro (⟨r, hr, hdr, haccept, hstores, rfl⟩ | ⟨r, hr, hdr, haccept, htype, hdecodes, rfl⟩)
    · exact ⟨r, hr, hdr, haccept, (storesRow_withKeyring_iff (objectAccept_header haccept)).mpr (.inl hstores), rfl⟩
    · refine ⟨r, hr, hdr, haccept, ?_, rfl⟩
      exact (storesRow_withKeyring_iff (objectAccept_header haccept)).mpr (.inr ⟨htype, hdecodes⟩)

/-- With the whole keyring the pool gives what would have been received. -/
theorem sameInbox_keyring (hpool : ∀ row ∈ s.pool.rows, row.objectType ≠ objectMsg)
    (h : Received (X.withKeyring P kr) s rs) (storedAt : Buf → ℤ) (now : ℤ) :
    id ∈ (handleObjects (X.withKeyring P kr) s rs).inboxIds ↔
      id ∈ (backfillTrialDecrypt X.toCrypto P kr (handleObjects X.locked s rs).pool (handleObjects X.locked s rs).inbox
        none storedAt now).1.map InboxRow.msgId := by
  rw [mem_ids_backfillTrialDecrypt, mem_inboxIds_withKeyring h,
    ← waiting_iff (fun _ _ => decodes_congr) hpool (received_locked h fun _ hmem => hmem)]
  rfl

/-- With the addresses it gives the same exactly when every received message that was not in the inbox is
opened by its recipient first. -/
theorem sameInbox_iff (hC : OpensOwn X.eciesDecrypt publicKey madeFor) (hP : P.OpensOwn pqPublicKey pqMadeFor)
    (hpool : ∀ row ∈ s.pool.rows, row.objectType ≠ objectMsg) (h : Received (X.withKeyring P kr) s rs)
    (hnamed : kr.NamedBy addresses) (storedAt : Buf → ℤ) (now : ℤ) :
    SameInbox X P kr addresses s rs storedAt now ↔
      ∀ r ∈ rs, r.hash X ∉ s.inboxIds → FirstIsRecipient X.toCrypto kr.entries r.object := by
  have hlocked : Received X.locked s rs := received_locked h fun _ hmem => hmem
  have hkept : ∀ id ∈ s.inboxIds, id ∈ (handleObjects X.locked s rs).inboxIds := fun id hid =>
    (mem_inboxIds_handleObjects hlocked).mpr (.inl hid)
  have hids (id : Bytes) : id ∈ (backfillTrialDecryptAddresses X.toCrypto P kr (handleObjects X.locked s rs).pool
      (handleObjects X.locked s rs).inbox addresses now).1.map InboxRow.msgId ↔
        id ∈ (handleObjects X.locked s rs).inboxIds ∨
        ∃ r ∈ rs, ∃ hdr, objectAccept X.toHashes r.object r.now = some hdr ∧ hdr.objectType = objectMsg ∧
          kr.DecodesFor X.toCrypto P addresses r.object ∧ id = r.hash X := by
    rw [mem_ids_backfillTrialDecryptAddresses, ← waiting_iff (fun _ _ => decodesFor_congr) hpool hlocked]
    rfl
  constructor
  · intro hsame r hr hfresh
    rw [firstIsRecipient_iff hC]
    intro identity hmem hsingle
    obtain ⟨hdr, haccept⟩ := accepted_of_received h hr
    have hheader := objectAccept_header haccept
    have htype : hdr.objectType = objectMsg ∧ hdr.version = 1 := by
      by_contra hn
      rw [decodedMsgSingle_eq_alone hheader, if_neg hn] at hsingle
      cases hsingle
    have hfor : kr.DecodesFor X.toCrypto P addresses r.object :=
      (decodesFor_iff hP hnamed).mpr (.inl ⟨identity, hmem, hsingle⟩)
    have hin := (hsame.addresses (r.hash X)).mpr ((hids _).mpr (.inr ⟨r, hr, hdr, haccept, htype.1, hfor, rfl⟩))
    rw [mem_inboxIds_handleObjects h] at hin
    rcases hin with hold | ⟨r', hr', hdr', haccept', hstores, hhash⟩
    · exact absurd hold hfresh
    · -- the row is that of this object, since no two have one hash
      obtain rfl : r = r' := List.inj_on_of_nodup_map (nodup_of_received h) hr hr' hhash
      cases haccept.symm.trans haccept'
      rw [StoresRow, if_pos htype.1, incomingMsg_withKeyring_iff hheader] at hstores
      rcases hstores with hdecoded | hpq
      · exact hdecoded
      · rw [pqDecodedMsg_of_version] at hpq
        · cases hpq
        · intro hdr' hheader'
          cases hheader.symm.trans hheader'
          rw [htype.2]
          decide
  · intro hfirst
    refine ⟨fun id => sameInbox_keyring hpool h storedAt now, fun id => ?_⟩
    rw [hids, mem_inboxIds_withKeyring h]
    constructor
    · rintro (hin | ⟨r, hr, hdr, haccept, htype, hdecodes, rfl⟩)
      · exact .inl hin
      · refine .inr ⟨r, hr, hdr, haccept, htype, (decodesFor_iff hP hnamed).mpr ?_, rfl⟩
        rcases hdecodes with hdecoded | hpq
        · obtain ⟨msg, hmsg⟩ := Option.isSome_iff_exists.mp hdecoded
          obtain ⟨identity, hmem, hsingle⟩ := exists_single_of_keyring hmsg
          exact .inl ⟨identity, hmem, Option.isSome_iff_exists.mpr ⟨msg, hsingle⟩⟩
        · exact .inr hpq
    · rintro (hin | ⟨r, hr, hdr, haccept, htype, hdecodes, rfl⟩)
      · exact .inl hin
      · by_cases hfresh : r.hash X ∈ s.inboxIds
        · exact .inl (hkept _ hfresh)
        · refine .inr ⟨r, hr, hdr, haccept, htype, ?_, rfl⟩
          rcases (decodesFor_iff hP hnamed).mp hdecodes with ⟨identity, hmem, hsingle⟩ | hpq
          · exact .inl ((firstIsRecipient_iff hC).mp (hfirst r hr hfresh) identity hmem hsingle)
          · exact .inr hpq

end

/-- On every object the keyring and the single identities agree exactly when the first identity that opens
it is its recipient, if an unlocked identity with that key is. Receiving objects with the identities
unlocked then leaves the same messages in the inbox as going through the pool later, with the keyring
or with the addresses, exactly when this holds of every object whose message was not there before. -/
theorem trial_decryption_agrees_iff (X : SyncContext) (P : PqCrypto) (kr : FullKeyring)
    {publicKey madeFor pqPublicKey pqMadeFor : Bytes → Bytes} (hC : OpensOwn X.eciesDecrypt publicKey madeFor)
    (hP : P.OpensOwn pqPublicKey pqMadeFor) :
    (∀ object, TrialsAgree X.toCrypto kr.entries object ↔ FirstIsRecipient X.toCrypto kr.entries object) ∧
    ∀ (s : ObjectSync) rs addresses, (∀ row ∈ s.pool.rows, row.objectType ≠ (objectMsg : ℤ)) →
      Received (X.withKeyring P kr) s rs → kr.NamedBy addresses → ∀ storedAt now,
        SameInbox X P kr addresses s rs storedAt now ↔
          ∀ r ∈ rs, r.hash X ∉ s.inboxIds → FirstIsRecipient X.toCrypto kr.entries r.object :=
  ⟨fun _ => trialsAgree_iff hC, fun _ _ _ hpool h hnamed => sameInbox_iff hC hP hpool h hnamed⟩

/-! ### Two identities with one encryption key -/

/-- A library in which a ciphertext is the public key and the plaintext. -/
def markedCrypto : AddressCrypto where
  toSenderCrypto :=
    { plainSender with
      eciesDecrypt := fun ciphertext priv =>
        if ciphertext.take 65 = uncompressed (priv ++ priv) then plainSender.eciesDecrypt (ciphertext.drop 65) priv
        else none
      eciesEncrypt := fun _ plaintext pub => some (pub ++ plaintext) }
  doubleSha256 := plainAddressCrypto.doubleSha256
  length_doubleSha256 := plainAddressCrypto.length_doubleSha256

theorem markedCrypto_opensOwn :
    OpensOwn markedCrypto.eciesDecrypt (fun priv => uncompressed (priv ++ priv))
      fun ciphertext => ciphertext.take 65 where
  own ciphertext key plaintext h := by
    simp only [markedCrypto] at h
    split_ifs at h with hmade
    exact hmade
  same ciphertext key key' h := by
    simp only [markedCrypto, h]
    rfl

/-- Where there are no keys, all of them are one. -/
theorem plainPqCrypto_opensOwn : plainPqCrypto.OpensOwn (fun _ => []) fun _ => [] :=
  fun _ => ⟨fun _ _ _ _ => rfl, fun _ _ _ _ => rfl⟩

/-- The keys of an old client with another signing key. -/
def twinKeys : PrivateKeys := ⟨List.replicate 32 5, oldKeys.encryption⟩

/-- Their ripe. -/
def twinRipe : Bytes :=
  addressCalcRipe prefixHashes (uncompressed (twinKeys.signing ++ twinKeys.signing))
    (uncompressed (twinKeys.encryption ++ twinKeys.encryption))

/-- Their address. -/
def twinAddress : Bytes := (addressEncode prefixHashes 4 1 twinRipe).getD []

/-- Their import. -/
def twinImport : ImportAddressParams :=
  { oldImport twinAddress with signingWif := addressEncodeWif plainAddressCrypto twinKeys.signing }

/-- The databases after the two imports. -/
def oldStore : IdentityStore :=
  (importAddress markedCrypto framedWrapping lowDefaults emptyStore (oldImport oldAddress) zeroFresh).1
def twinStore : IdentityStore := (importAddress markedCrypto framedWrapping lowDefaults oldStore twinImport zeroFresh).1

/-- Both are imported and unlocked, the twin last. -/
def twinOps : List KeyringOp :=
  [.store oldStore, .store twinStore, .unlock oldAddress [0x70, 0x77] 0, .unlock twinAddress [0x70, 0x77] 0]

def twinKeyring : FullKeyring where
  toKeyring := twinOps.foldl (keyringApply markedCrypto.toCrypto framedWrapping) (keyringInit emptyStore)
  pq := []

/-- A message for a ripe, sealed with the encryption key that both have. -/
def sharedBytes (ripe : Bytes) : Bytes :=
  List.replicate 16 0 ++ [0, 0, 0, 2, 1, 1] ++ uncompressed (oldKeys.encryption ++ oldKeys.encryption) ++ [4, 1] ++
    List.replicate 132 0 ++ [0, 0] ++ ripe ++ [2, 0, 0, 0]

def forOld : Receipt := ⟨Buf.ofBytes (sharedBytes oldRipe) (by decide +kernel), 0, 0, 0⟩
def forTwin : Receipt := ⟨Buf.ofBytes (sharedBytes twinRipe) (by decide +kernel), 0, 0, 0⟩

/-- A node of the main network. -/
def markedContext : SyncContext := { exampleContext with toCrypto := markedCrypto.toCrypto }

/-- The entry of keys whose encryption key is shared. -/
def sharedEntry (keys : PrivateKeys) (address : Bytes) : UnlockedIdentity where
  address := address
  ripe := addressCalcRipe prefixHashes (uncompressed (keys.signing ++ keys.signing))
    (uncompressed (keys.encryption ++ keys.encryption))
  privSigning := keys.signing
  privEncryption := keys.encryption
  pubSigning := uncompressed (keys.signing ++ keys.signing)
  pubEncryption := uncompressed (keys.encryption ++ keys.encryption)
  addressVersion := 4
  stream := 1
  nonceTrialsPerByte := 1000
  payloadLengthExtraBytes := 1000
  isChan := false
  unlockedAt := 0
  ripe_length := length_addressCalcRipe _ _ _

theorem run_keyringStep (C : Crypto) (W : KeyWrapping) (kr : Keyring) (ops : List KeyringOp) :
    run (keyringStep C W) kr ops = some (ops.foldl (keyringApply C W) kr) := by
  induction ops generalizing kr with
  | nil => rfl
  | cons op ops ih => rw [run_cons_of (u := keyringApply C W kr op) rfl, ih, List.foldl_cons]

/-- The imports are acknowledged, and the twin stands in front of the other. -/
theorem twinKeyring_reached :
    importAddress markedCrypto framedWrapping lowDefaults emptyStore (oldImport oldAddress) zeroFresh =
        (oldStore, .ok true) ∧
      importAddress markedCrypto framedWrapping lowDefaults oldStore twinImport zeroFresh = (twinStore, .ok true) ∧
      run (keyringStep markedCrypto.toCrypto framedWrapping) (keyringInit emptyStore) twinOps =
        some twinKeyring.toKeyring ∧
      twinKeyring.entries = [sharedEntry twinKeys twinAddress, sharedEntry oldKeys oldAddress] := by
  have hall : (importAddress markedCrypto framedWrapping lowDefaults emptyStore (oldImport oldAddress) zeroFresh).2 =
        .ok true ∧
      (importAddress markedCrypto framedWrapping lowDefaults oldStore twinImport zeroFresh).2 = .ok true ∧
      twinKeyring.entries = [sharedEntry twinKeys twinAddress, sharedEntry oldKeys oldAddress] := by
    decide +kernel
  obtain ⟨hold, htwin, hentries⟩ := hall
  refine ⟨?_, ?_, ?_, hentries⟩
  · rw [oldStore, ← hold, Prod.mk.eta]
  · rw [twinStore, ← htwin, Prod.mk.eta]
  · rw [run_keyringStep, twinKeyring]

theorem twinKeyring_entries :
    twinKeyring.entries = [sharedEntry twinKeys twinAddress, sharedEntry oldKeys oldAddress] :=
  twinKeyring_reached.2.2.2

theorem twinKeyring_namedBy : twinKeyring.NamedBy [twinAddress, oldAddress] := by
  have haddresses : twinKeyring.addresses = [twinAddress, oldAddress] := by
    rw [Keyring.addresses, twinKeyring_entries]
    rfl
  rw [← haddresses]
  refine FullKeyring.namedBy_addresses ?_ rfl
  rw [haddresses]
  decide +kernel

theorem received_one {r : Receipt}
    (h : (emptySync.dispatched (markedContext.withKeyring plainPqCrypto twinKeyring) r).isSome) :
    Received (markedContext.withKeyring plainPqCrypto twinKeyring) emptySync [r] := ⟨h, fun _ _ => trivial⟩

/-- The message for the twin is found in every way. -/
theorem twin_message_found :
    TrialsAgree markedCrypto.toCrypto twinKeyring.entries forTwin.object ∧
      (decodedMsg markedCrypto.toCrypto twinKeyring.entries forTwin.object).isSome ∧
      SameInbox markedContext plainPqCrypto twinKeyring [twinAddress, oldAddress] emptySync [forTwin] (fun _ => 0)
        0 := by
  have hdecoded : (decodedMsg markedCrypto.toCrypto twinKeyring.entries forTwin.object).isSome = true := by
    rw [twinKeyring_entries]
    decide +kernel
  have hfirst : FirstIsRecipient markedCrypto.toCrypto twinKeyring.entries forTwin.object :=
    (firstIsRecipient_iff markedCrypto_opensOwn).mpr fun _ _ _ => hdecoded
  obtain ⟨hagree, hsame⟩ := trial_decryption_agrees_iff markedContext plainPqCrypto twinKeyring markedCrypto_opensOwn
    plainPqCrypto_opensOwn
  refine ⟨(hagree forTwin.object).mpr hfirst, hdecoded, ?_⟩
  refine (hsame emptySync [forTwin] _ (fun _ hrow => absurd hrow List.not_mem_nil) (received_one (by decide +kernel))
    twinKeyring_namedBy (fun _ => 0) 0).mpr ?_
  intro r hr _
  rw [List.mem_singleton.mp hr]
  exact hfirst

/-- The message for the other is found by its own identity and not by the keyring, and the two ways through
the pool leave different messages in the inbox. -/
theorem old_message_lost_by_keyring :
    importAddress markedCrypto framedWrapping lowDefaults emptyStore (oldImport oldAddress) zeroFresh =
        (oldStore, .ok true) ∧
      importAddress markedCrypto framedWrapping lowDefaults oldStore twinImport zeroFresh = (twinStore, .ok true) ∧
      run (keyringStep markedCrypto.toCrypto framedWrapping) (keyringInit emptyStore) twinOps =
        some twinKeyring.toKeyring ∧
      decodedMsg markedCrypto.toCrypto twinKeyring.entries forOld.object = none ∧
      (∃ identity ∈ twinKeyring.entries, (decodedMsgSingle markedCrypto.toCrypto identity forOld.object).isSome) ∧
      ¬ TrialsAgree markedCrypto.toCrypto twinKeyring.entries forOld.object ∧
      twinKeyring.NamedBy [twinAddress, oldAddress] ∧
      ¬ SameInbox markedContext plainPqCrypto twinKeyring [twinAddress, oldAddress] emptySync [forOld] (fun _ => 0)
        0 := by
  obtain ⟨hold, htwin, hrun, -⟩ := twinKeyring_reached
  have hnone : decodedMsg markedCrypto.toCrypto twinKeyring.entries forOld.object = none := by
    rw [twinKeyring_entries, ← Option.isNone_iff_eq_none]
    decide +kernel
  have hsingle : ∃ identity ∈ twinKeyring.entries,
      (decodedMsgSingle markedCrypto.toCrypto identity forOld.object).isSome = true := by
    rw [twinKeyring_entries]
    decide +kernel
  have hnot : ¬ FirstIsRecipient markedCrypto.toCrypto twinKeyring.entries forOld.object := by
    intro hfirst
    obtain ⟨identity, hmem, hdecoded⟩ := hsingle
    have hkeyring := (firstIsRecipient_iff markedCrypto_opensOwn).mp hfirst identity hmem hdecoded
    rw [hnone] at hkeyring
    cases hkeyring
  refine ⟨hold, htwin, hrun, hnone, hsingle, fun h => hnot ((trialsAgree_iff markedCrypto_opensOwn).mp h),
    twinKeyring_namedBy, fun hsame => hnot ?_⟩
  have hreceived := received_one (r := forOld) (by decide +kernel)
  exact (@sameInbox_iff markedContext plainPqCrypto twinKeyring _ _ _ _ emptySync [forOld] _ markedCrypto_opensOwn
    plainPqCrypto_opensOwn (fun _ hrow => absurd hrow List.not_mem_nil) hreceived twinKeyring_namedBy (fun _ => 0) 0).mp
      hsame forOld (List.mem_singleton.mpr rfl) List.not_mem_nil

end Bitmessage
