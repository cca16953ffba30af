import Bitmessage.Core.ConversionSteps
import Bitmessage.Core.Incoming
import Bitmessage.Core.SendPipeline
import Bitmessage.Lib.Transition

/-! A conversion while the other threads go on. The network thread decodes a message with
the identity that opens it and stores the row afterwards; a send that was queued from the
address writes its row when its proof of work is done, and a message to oneself also goes
to the inbox. None of them looks at the identity again. A row that is written in front of
the rename is renamed with the others, and one that is written behind it keeps the old
address for good. -/

namespace Bitmessage

open ConvertState Transition

/-- Where the API thread is in `convert_one_v3_to_v4`. -/
inductive ConvertPc
  | begin
  | prepared (v4Address : Bytes)
  | inboxRenamed (v4Address : Bytes)
  | sentRenamed
  | locked
  | pqDeleted
  | finished
  deriving DecidableEq

/-- The address of the sibling, as long as the thread works with it. -/
def ConvertPc.sibling? : ConvertPc → Option Bytes
  | .prepared v4Address | .inboxRenamed v4Address => some v4Address
  | _ => none

/-- The three threads: `received` are decoded messages that are not stored yet, `queued` sends whose
proof of work is not done, and `copying` messages to oneself between the two tables. -/
structure ConvertSys where
  entries : List UnlockedIdentity
  store : ConvertStore
  pc : ConvertPc
  received : List (Buf × DecodedMsg)
  queued : List SendMsgJob
  copying : List (SendMsgJob × Bytes × ℤ)

inductive ConvertLabel
  /-- `bm_keyring_ensure_v4_sibling` -/
  | prepare (session : ConvertSession) (fresh : Fresh)
  /-- the two statements of `bm_messages_store_rename_own_address` -/
  | renameInbox
  | renameSent
  /-- `bm_keyring_delete_identity` -/
  | lock
  | deletePq
  | deleteV3
  /-- `bm_trial_decrypt_msg` -/
  | receive (object : Buf)
  /-- `store_decoded_msg` -/
  | storeReceived (i : ℕ) (now : ℤ)
  /-- `msg_pow_done`; without an object the send has failed -/
  | complete (i : ℕ) (object : Option Bytes) (now : ℤ)
  /-- its copy to the inbox -/
  | copy (i : ℕ)

namespace ConvertSys

variable (C : Crypto) (W : KeyWrapping) (v3Address : Bytes)

/-- The row that `store_decoded_msg` inserts. -/
def receivedRow (r : Buf × DecodedMsg) (now : ℤ) : InboxRow :=
  ⟨inventoryHash C.toHashes r.1.bytes, r.2.toAddress, r.2.fromAddress, r.2.subject, r.2.body, now⟩

/-- The row that `msg_pow_done` inserts for a message to oneself. -/
def copyRow (c : SendMsgJob × Bytes × ℤ) : InboxRow :=
  ⟨inventoryHash C.toHashes c.2.1, c.1.toAddress, c.1.fromAddress, c.1.subject, c.1.body, c.2.2⟩

def withInbox (s : ConvertSys) (inbox : List InboxRow) : ConvertSys := { s with store := { s.store with inbox := inbox } }

def withSent (s : ConvertSys) (sent : SentTable) : ConvertSys := { s with store := { s.store with sent := sent } }

/-- The next step of the API thread. -/
def apiStep (s : ConvertSys) : ConvertLabel → Option ConvertSys
  | .prepare session fresh =>
    match s.pc with
    | .begin =>
      match ensureV4Sibling C.toHashes W allWork v3Address session fresh (s.store.start s.entries) with
      | (_, _, .error _) => none
      | (t, _, .ok (v4Address, _)) =>
        some { s with entries := t.entries, store := t.store, pc := .prepared v4Address }
    | _ => none
  | .renameInbox =>
    match s.pc with
    | .prepared v4Address => some { s.withInbox (messagesStoreRenameInbox s.store.inbox v3Address v4Address) with
        pc := .inboxRenamed v4Address }
    | _ => none
  | .renameSent =>
    match s.pc with
    | .inboxRenamed v4Address => some { s.withSent (messagesStoreRenameOwnAddress s.store.sent v3Address v4Address) with
        pc := .sentRenamed }
    | _ => none
  | .lock =>
    match s.pc with
    | .sentRenamed => some { s with
        entries := (keyringLock ⟨s.entries, s.store.identities⟩ v3Address).1.entries
        pc := .locked }
    | _ => none
  | .deletePq =>
    match s.pc with
    | .locked => some { s with
        store := { s.store with pqIdentities := s.store.pqIdentities.delete v3Address }
        pc := .pqDeleted }
    | _ => none
  | .deleteV3 =>
    match s.pc with
    | .pqDeleted => some { s with
        store := { s.store with identities := identityStoreDelete s.store.identities v3Address }
        pc := .finished }
    | _ => none
  | _ => none

def step (s : ConvertSys) : ConvertLabel → Option ConvertSys
  | .receive object =>
    match decodedMsg C s.entries object with
    | none => some s
    | some msg => some { s with received := s.received ++ [(object, msg)] }
  | .storeReceived i now => s.received[i]?.map fun r =>
      { s.withInbox (messagesStoreInsertInbox s.store.inbox (receivedRow C r now)) with
        received := s.received.eraseIdx i }
  | .complete i object now => s.queued[i]?.map fun job =>
      match object with
      | none => { s with queued := s.queued.eraseIdx i }
      | some object =>
        { s.withSent (messagesStoreInsertSent s.store.sent (job.sentRow now)) with
          queued := s.queued.eraseIdx i
          copying := if job.isSelf then s.copying ++ [(job, object, now)] else s.copying }
  | .copy i => s.copying[i]?.map fun c =>
      { s.withInbox (messagesStoreInsertInbox s.store.inbox (copyRow C c)) with copying := s.copying.eraseIdx i }
  | l => s.apiStep C W v3Address l

/-! ### What is asked of a run -/

/-- Every thread is through. -/
structure Finished (s : ConvertSys) : Prop where
  pc : s.pc = .finished
  received : s.received = []
  queued : s.queued = []
  copying : s.copying = []

/-- A row that `bm_messages_store_list_resend_candidates` may still list. -/
def needsResend (row : SentRow) : Prop := ∃ now, row.resendDue now resendMaxAttempts = true

/-- The conversion is about to begin on a version 3 row; the sends in the queue are from its address,
new or again, and every sent message that is still to be sent has an identity. -/
structure Begins (H : Hashes) (v3 : IdentityRow) (s : ConvertSys) : Prop where
  pc : s.pc = .begin
  isV3 : IsV3 H v3
  row : identityStoreLoad s.store.identities v3.address = some v3
  queued : ∀ job ∈ s.queued, job.fromAddress = v3.address ∧
    ∀ row, s.store.sent.find? job.msgId = some row → row.fromAddress = v3.address
  resends : ∀ row ∈ s.store.sent.rows, needsResend row →
    (identityStoreLoad s.store.identities row.fromAddress).isSome

/-- The steps, one constructor for each. -/
inductive Moves (s : ConvertSys) : ConvertLabel → ConvertSys → Prop
  | prepare {session session' : ConvertSession} {fresh : Fresh} {t : ConvertState} {v4Address : Bytes} {created : Bool}
      (hpc : s.pc = .begin)
      (ht : ensureV4Sibling C.toHashes W allWork v3Address session fresh (s.store.start s.entries) =
        (t, session', .ok (v4Address, created))) :
      Moves s (.prepare session fresh) { s with entries := t.entries, store := t.store, pc := .prepared v4Address }
  | renameInbox {v4Address : Bytes} (hpc : s.pc = .prepared v4Address) :
      Moves s .renameInbox { s.withInbox (messagesStoreRenameInbox s.store.inbox v3Address v4Address) with
        pc := .inboxRenamed v4Address }
  | renameSent {v4Address : Bytes} (hpc : s.pc = .inboxRenamed v4Address) :
      Moves s .renameSent { s.withSent (messagesStoreRenameOwnAddress s.store.sent v3Address v4Address) with
        pc := .sentRenamed }
  | lock (hpc : s.pc = .sentRenamed) :
      Moves s .lock { s with
        entries := (keyringLock ⟨s.entries, s.store.identities⟩ v3Address).1.entries
        pc := .locked }
  | deletePq (hpc : s.pc = .locked) :
      Moves s .deletePq { s with
        store := { s.store with pqIdentities := s.store.pqIdentities.delete v3Address }
        pc := .pqDeleted }
  | deleteV3 (hpc : s.pc = .pqDeleted) :
      Moves s .deleteV3 { s with
        store := { s.store with identities := identityStoreDelete s.store.identities v3Address }
        pc := .finished }
  | ignore {object : Buf} : Moves s (.receive object) s
  | receive {object : Buf} {msg : DecodedMsg} (hmsg : decodedMsg C s.entries object = some msg) :
      Moves s (.receive object) { s with received := s.received ++ [(object, msg)] }
  | storeReceived {i : ℕ} {now : ℤ} {r : Buf × DecodedMsg} (hr : s.received[i]? = some r) :
      Moves s (.storeReceived i now)
        { s.withInbox (messagesStoreInsertInbox s.store.inbox (receivedRow C r now)) with
          received := s.received.eraseIdx i }
  | fail {i : ℕ} {now : ℤ} {job : SendMsgJob} (hjob : s.queued[i]? = some job) :
      Moves s (.complete i none now) { s with queued := s.queued.eraseIdx i }
  | complete {i : ℕ} {object : Bytes} {now : ℤ} {job : SendMsgJob} (hjob : s.queued[i]? = some job) :
      Moves s (.complete i (some object) now)
        { s.withSent (messagesStoreInsertSent s.store.sent (job.sentRow now)) with
          queued := s.queued.eraseIdx i
          copying := if job.isSelf then s.copying ++ [(job, object, now)] else s.copying }
  | copy {i : ℕ} {c : SendMsgJob × Bytes × ℤ} (hc : s.copying[i]? = some c) :
      Moves s (.copy i) { s.withInbox (messagesStoreInsertInbox s.store.inbox (copyRow C c)) with
        copying := s.copying.eraseIdx i }

variable {C W v3Address} {s t : ConvertSys} {l : ConvertLabel}

theorem moves_of_step (h : step C W v3Address s l = some t) : Moves C W v3Address s l t := by
  cases l with
  | prepare session fresh =>
    simp only [step, apiStep] at h
    split at h
    · next hpc =>
      split at h
      · cases h
      · next ht =>
        cases h
        exact .prepare hpc ht
    · cases h
  | renameInbox =>
    simp only [step, apiStep] at h
    split at h
    · next hpc =>
      cases h
      exact .renameInbox hpc
    · cases h
  | renameSent =>
    simp only [step, apiStep] at h
    split at h
    · next hpc =>
      cases h
      exact .renameSent hpc
    · cases h
  | lock =>
    simp only [step, apiStep] at h
    split at h
    · next hpc =>
      cases h
      exact .lock hpc
    · cases h
  | deletePq =>
    simp only [step, apiStep] at h
    split at h
    · next hpc =>
      cases h
      exact .deletePq hpc
    · cases h
  | deleteV3 =>
    simp only [step, apiStep] at h
    split at h
    · next hpc =>
      cases h
      exact .deleteV3 hpc
    · cases h
  | receive object =>
    simp only [step] at h
    split at h
    · cases h
      exact .ignore
    · next hmsg =>
      cases h
      exact .receive hmsg
  | storeReceived i now =>
    obtain ⟨r, hr, rfl⟩ := Option.map_eq_some_iff.mp h
    exact .storeReceived hr
  | complete i object now =>
    obtain ⟨job, hjob, rfl⟩ := Option.map_eq_some_iff.mp h
    cases object with
    | none => exact .fail hjob
    | some object => exact .complete hjob
  | copy i =>
    obtain ⟨c, hc, rfl⟩ := Option.map_eq_some_iff.mp h
    exact .copy hc

/-! ### The renamed tables -/

/-- The sender of a row is the converted address or has an identity. -/
def Named (v3Address : Bytes) (s : ConvertSys) (address : Bytes) : Prop :=
  address = v3Address ∨ (identityStoreLoad s.store.identities address).isSome

structure Sound (v3 : IdentityRow) (s : ConvertSys) : Prop where
  begins : s.pc = .begin → identityStoreLoad s.store.identities v3.address = some v3
  sibling : ∀ a ∈ s.pc.sibling?, a ≠ v3.address ∧ (identityStoreLoad s.store.identities a).isSome
  jobs : ∀ job ∈ s.queued, job.fromAddress = v3.address ∧
    ∀ row, s.store.sent.find? job.msgId = some row → Named v3.address s row.fromAddress
  resends : ∀ row ∈ s.store.sent.rows, needsResend row → Named v3.address s row.fromAddress

theorem Begins.sound {H : Hashes} {v3 : IdentityRow} (h : Begins H v3 s) : Sound v3 s where
  begins _ := h.row
  sibling := by
    rw [h.pc]
    rintro a ⟨⟩
  jobs job hjob := ⟨(h.queued job hjob).1, fun row hrow => .inl ((h.queued job hjob).2 row hrow)⟩
  resends row hrow hneeds := .inr (h.resends row hrow hneeds)

/-- A step that writes to no sent message and queues nothing. -/
theorem Sound.frame {v3 : IdentityRow} (hs : Sound v3 s) (hsent : t.store.sent = s.store.sent)
    (hqueued : ∀ job ∈ t.queued, job ∈ s.queued)
    (hnamed : ∀ a, Named v3.address s a → Named v3.address t a)
    (hbegin : t.pc = .begin → identityStoreLoad t.store.identities v3.address = some v3)
    (hsibling : ∀ a ∈ t.pc.sibling?, a ≠ v3.address ∧ (identityStoreLoad t.store.identities a).isSome) :
    Sound v3 t where
  begins := hbegin
  sibling := hsibling
  jobs job hjob := by
    obtain ⟨hfrom, hrow⟩ := hs.jobs job (hqueued job hjob)
    rw [hsent]
    exact ⟨hfrom, fun row h => hnamed _ (hrow row h)⟩
  resends row hrow hneeds := by
    rw [hsent] at hrow
    exact hnamed _ (hs.resends row hrow hneeds)

/-- Preparing the sibling takes no identity away. -/
theorem Sound.prepare {v3 : IdentityRow} (hv3 : IsV3 C.toHashes v3) (hs : Sound v3 s) (hpc : s.pc = .begin)
    {session session' : ConvertSession} {fresh : Fresh} {t : ConvertState} {v4Address : Bytes} {created : Bool}
    (ht : ensureV4Sibling C.toHashes W allWork v3.address session fresh (s.store.start s.entries) =
      (t, session', .ok (v4Address, created))) :
    Sound v3 { s with entries := t.entries, store := t.store, pc := .prepared v4Address } := by
  have hbegin := hs.begins hpc
  obtain ⟨address, haddress, hne⟩ := hv3.sibling
  have hother : ∀ row a, identityStoreLoad (s.store.start s.entries).store.identities v3.address = some row →
      v4SiblingAddress C.toHashes row = some a → v3.address ≠ a := by
    intro row a hload ha
    obtain rfl := Option.some.inj (hbegin.symm.trans hload)
    rw [haddress] at ha
    cases ha
    exact hne.symm
  obtain ⟨row, keys, v4, db, hopens, hbase, hstore⟩ := ensureV4Sibling_ok hother ht
  have hsame : v4Address ≠ v3.address := (hother row v4Address hopens.row hopens.address).symm
  have hlen := length_v4SiblingAddress hopens.address
  have hsibling : identityStoreLoad t.store.identities v4Address = some (completedRow allWork row v4) := by
    rw [hstore]
    exact load_completedTable_self allWork (hbase.row hlen).1
  have hload (a : Bytes) (ha : a ≠ v4Address) :
      identityStoreLoad t.store.identities a = identityStoreLoad s.store.identities a := by
    rw [hstore]
    exact (load_completedTable_of_ne allWork ha).trans (hbase.load_of_ne hlen ha).1
  have hsent : t.store.sent = s.store.sent := by
    rw [hstore]
    rfl
  refine hs.frame hsent (fun _ h => h) ?_ (fun h => by cases h) ?_
  · rintro a (rfl | ha)
    · exact .inl rfl
    · right
      by_cases hv4 : a = v4Address
      · rw [hv4, hsibling]
        rfl
      · rw [hload a hv4]
        exact ha
  · rintro a ⟨⟩
    exact ⟨hsame, by rw [hsibling]; rfl⟩

/-- Renaming the sent messages gives them the identity of the sibling. -/
theorem Sound.renameSent {v3 : IdentityRow} (hs : Sound v3 s) {v4Address : Bytes}
    (hpc : s.pc = .inboxRenamed v4Address) :
    Sound v3 { s.withSent (messagesStoreRenameOwnAddress s.store.sent v3.address v4Address) with
      pc := .sentRenamed } := by
  have hsome : (identityStoreLoad s.store.identities v4Address).isSome :=
    (hs.sibling v4Address (by rw [hpc]; rfl)).2
  have hrename (row : SentRow) (h : Named v3.address s row.fromAddress) :
      Named v3.address s (if row.fromAddress = v3.address then { row with fromAddress := v4Address } else row).fromAddress := by
    split_ifs
    · exact .inr hsome
    · exact h
  refine ⟨(fun h => by cases h), (fun a ha => by cases ha), fun job hjob => ?_, fun row hrow hneeds => ?_⟩
  · obtain ⟨hfrom, hrow⟩ := hs.jobs job hjob
    refine ⟨hfrom, fun row h => ?_⟩
    unfold withSent messagesStoreRenameOwnAddress at h
    rw [KeyedTable.find?_update] at h
    obtain ⟨r, hr, rfl⟩ := Option.map_eq_some_iff.mp h
    exact hrename r (hrow r hr)
  · obtain ⟨r, hr, rfl⟩ := List.mem_map.mp hrow
    refine hrename r (hs.resends r hr ?_)
    obtain ⟨now, hdue⟩ := hneeds
    refine ⟨now, ?_⟩
    split_ifs at hdue
    · exact hdue
    · exact hdue

/-- The row of a completed send is from the address or keeps its sender. -/
theorem Sound.complete {v3 : IdentityRow} (hs : Sound v3 s) {i : ℕ} {object : Bytes} {now : ℤ} {job : SendMsgJob}
    (hjob : s.queued[i]? = some job) :
    Sound v3 { s.withSent (messagesStoreInsertSent s.store.sent (job.sentRow now)) with
      queued := s.queued.eraseIdx i
      copying := if job.isSelf then s.copying ++ [(job, object, now)] else s.copying } := by
  obtain ⟨hfrom, hown⟩ := hs.jobs job (List.mem_of_getElem? hjob)
  refine ⟨hs.begins, hs.sibling, fun job' hjob' => ?_, fun row hrow hneeds => ?_⟩
  · obtain ⟨hfrom', hrow'⟩ := hs.jobs job' (List.mem_of_mem_eraseIdx hjob')
    refine ⟨hfrom', fun row h => ?_⟩
    have hfind : (messagesStoreInsertSent s.store.sent (job.sentRow now)).find? job'.msgId = some row := h
    by_cases hid : job'.msgId = (job.sentRow now).msgId
    · rw [hid, find?_insertSent_self] at hfind
      rcases hold : s.store.sent.find? (job.sentRow now).msgId with _ | old
      · rw [hold] at hfind
        obtain rfl := Option.some.inj hfind
        exact .inl hfrom
      · rw [hold] at hfind
        obtain rfl := Option.some.inj hfind
        exact hown old hold
    · rw [find?_insertSent_of_ne _ hid] at hfind
      exact hrow' row hfind
  · have hmem : row ∈ (s.store.sent.upsert (job.sentRow now).fresh (fun r => r.resent (job.sentRow now))
        fun _ => rfl).rows := hrow
    rcases KeyedTable.mem_of_mem_upsert _ _ hmem with hold | rfl | ⟨old, hold, hkey, rfl⟩
    · exact hs.resends row hold hneeds
    · exact .inl hfrom
    · exact hown old (KeyedTable.find?_eq_some.mpr ⟨hold, hkey⟩)

theorem Sound.step {v3 : IdentityRow} (hv3 : IsV3 C.toHashes v3) (hs : Sound v3 s) (h : Moves C W v3.address s l t) :
    Sound v3 t := by
  cases h with
  | prepare hpc ht => exact hs.prepare hv3 hpc ht
  | renameInbox hpc =>
    exact hs.frame rfl (fun _ h => h) (fun _ h => h) (fun h => by cases h) fun a ha =>
      hs.sibling a (by rw [hpc]; exact ha)
  | renameSent hpc => exact hs.renameSent hpc
  | lock hpc =>
    exact hs.frame rfl (fun _ h => h) (fun _ h => h) (fun h => by cases h) (fun a ha => by cases ha)
  | deletePq hpc =>
    exact hs.frame rfl (fun _ h => h) (fun _ h => h) (fun h => by cases h) (fun a ha => by cases ha)
  | deleteV3 hpc =>
    refine hs.frame rfl (fun _ h => h) ?_ (fun h => by cases h) (fun a ha => by cases ha)
    intro a ha
    by_cases hv : a = v3.address
    · exact .inl hv
    · refine .inr ?_
      rw [load_delete_of_ne _ hv]
      exact ha.resolve_left hv
  | ignore => exact hs
  | receive hmsg => exact hs.frame rfl (fun _ h => h) (fun _ h => h) hs.begins hs.sibling
  | storeReceived hr => exact hs.frame rfl (fun _ h => h) (fun _ h => h) hs.begins hs.sibling
  | fail hjob => exact hs.frame rfl (fun _ h => List.mem_of_mem_eraseIdx h) (fun _ h => h) hs.begins hs.sibling
  | complete hjob => exact hs.complete hjob
  | copy hc => exact hs.frame rfl (fun _ h => h) (fun _ h => h) hs.begins hs.sibling

/-! ### A whole conversion -/

end ConvertSys

open ConvertSys

end Bitmessage
