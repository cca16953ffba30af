import Bitmessage.Common.CText
import Bitmessage.Core.Address
import Bitmessage.Lib.KeyedTable

/-! The message database: the inbox and the table of sent messages. A table is the list
of its rows in the order of insertion; the primary key `msg_id` is unique in the rows
that the insertions produce. Each function is one SQL statement, which the database
executes atomically. -/

namespace Bitmessage

/-! ### inbox -/

/-- A row of `inbox`; `read` and `folder` start with their defaults. -/
structure InboxRow where
  msgId : Bytes
  toAddress : Bytes
  fromAddress : Bytes
  subject : Bytes
  body : Bytes
  receivedTime : ℤ
  deriving DecidableEq

/-- `bm_messages_store_insert_inbox`: `INSERT OR IGNORE`. -/
def messagesStoreInsertInbox (inbox : List InboxRow) (row : InboxRow) : List InboxRow :=
  if inbox.any fun r => decide (r.msgId = row.msgId) then inbox
  else inbox ++ [{ row with subject := cString row.subject, body := cString row.body }]

theorem mem_insertInbox {inbox : List InboxRow} {row r : InboxRow} (h : r ∈ messagesStoreInsertInbox inbox row)
    (hnew : r ∉ inbox) : r.fromAddress = row.fromAddress ∧ r.msgId = row.msgId ∧ r.toAddress = row.toAddress := by
  unfold messagesStoreInsertInbox at h
  split at h
  · exact absurd h hnew
  · rcases List.mem_append.mp h with h | h
    · exact absurd h hnew
    · rw [List.mem_singleton] at h
      subst h
      exact ⟨rfl, rfl, rfl⟩

/-- After the statement there is a row with the identifier. -/
theorem insertInbox_msgId (inbox : List InboxRow) (row : InboxRow) :
    ∃ r ∈ messagesStoreInsertInbox inbox row, r.msgId = row.msgId := by
  unfold messagesStoreInsertInbox
  split
  · next h =>
    rw [List.any_eq_true] at h
    obtain ⟨r, hr, he⟩ := h
    exact ⟨r, hr, of_decide_eq_true he⟩
  · exact ⟨_, List.mem_append_right _ (List.mem_singleton.mpr rfl), rfl⟩

/-- A message with a new identifier is appended; its texts are stored as C strings. -/
theorem insertInbox_of_new {inbox : List InboxRow} {row : InboxRow} (h : row.msgId ∉ inbox.map InboxRow.msgId) :
    messagesStoreInsertInbox inbox row =
      inbox ++ [{ row with subject := cString row.subject, body := cString row.body }] := by
  unfold messagesStoreInsertInbox
  rw [if_neg]
  intro hany
  obtain ⟨r, hr, he⟩ := List.any_eq_true.mp hany
  exact h (List.mem_map.mpr ⟨r, hr, of_decide_eq_true he⟩)

theorem mem_inboxIds_insert {inbox : List InboxRow} {row : InboxRow} {id : Bytes} :
    id ∈ (messagesStoreInsertInbox inbox row).map InboxRow.msgId ↔ id = row.msgId ∨ id ∈ inbox.map InboxRow.msgId := by
  unfold messagesStoreInsertInbox
  split_ifs with h
  · rw [or_iff_right_of_imp]
    rintro rfl
    obtain ⟨r, hr, he⟩ := List.any_eq_true.mp h
    exact List.mem_map.mpr ⟨r, hr, of_decide_eq_true he⟩
  · rw [List.map_append, List.map_singleton, List.mem_append, List.mem_singleton, or_comm]

/-- `bm_messages_store_rename_own_address` on this table: the messages to the address. -/
def messagesStoreRenameInbox (inbox : List InboxRow) (oldAddress newAddress : Bytes) : List InboxRow :=
  inbox.map fun r => if r.toAddress = oldAddress then { r with toAddress := newAddress } else r

/-- After the statement no message is to the old address. -/
theorem toAddress_renameInbox {oldAddress newAddress : Bytes} (h : newAddress ≠ oldAddress) {inbox : List InboxRow}
    {row : InboxRow} (hrow : row ∈ messagesStoreRenameInbox inbox oldAddress newAddress) :
    row.toAddress ≠ oldAddress := by
  obtain ⟨r, -, rfl⟩ := List.mem_map.mp hrow
  by_cases hr : r.toAddress = oldAddress
  · rw [if_pos hr]
    exact h
  · rw [if_neg hr]
    exact hr

theorem renameInbox_again {oldAddress newAddress : Bytes} (h : newAddress ≠ oldAddress) (inbox : List InboxRow) :
    messagesStoreRenameInbox (messagesStoreRenameInbox inbox oldAddress newAddress) oldAddress newAddress =
      messagesStoreRenameInbox inbox oldAddress newAddress := by
  show List.map _ _ = _
  rw [List.map_congr_left fun r hr => if_neg (toAddress_renameInbox h hr), List.map_id']

/-! ### sent -/

/-- The values of `status`. -/
inductive SentStatus where
  | sent
  | msgsentnoackexpected
  | ackreceived
  deriving DecidableEq

/-- The values of `folder`. -/
inductive SentFolder where
  | sent
  | trash
  deriving DecidableEq

/-- A row of `sent`. -/
structure SentRow where
  msgId : Bytes
  ackData : Bytes
  toAddress : Bytes
  fromAddress : Bytes
  subject : Bytes
  body : Bytes
  status : SentStatus
  ackStealthLevel : ℤ
  sentTime : ℤ
  ttl : ℤ
  resendCount : ℕ
  nextResendTime : ℤ
  folder : SentFolder
  deriving DecidableEq

/-- The table of the sent messages; `msg_id` is its primary key. -/
abbrev SentTable := KeyedTable SentRow.msgId

/-- `BM_RESEND_INITIAL_INTERVAL_SECONDS`. -/
def resendInitialInterval : ℤ := 4 * 60 * 60

/-- `BM_RESEND_MAX_ATTEMPTS`. -/
def resendMaxAttempts : ℕ := 5

/-- The `DO UPDATE` part of `bm_messages_store_insert_sent`: the addresses, the texts and the folder
stay, and the resend is counted. -/
def SentRow.resent (row excluded : SentRow) : SentRow :=
  { row with
    ackData := excluded.ackData
    status := excluded.status
    sentTime := excluded.sentTime
    ttl := excluded.ttl
    resendCount := row.resendCount + 1
    nextResendTime := excluded.nextResendTime }

/-- The `VALUES` of `bm_messages_store_insert_sent`: a new row has not been resent. -/
def SentRow.fresh (row : SentRow) : SentRow := { row with resendCount := 0, folder := .sent }

/-- `bm_messages_store_insert_sent`. -/
def messagesStoreInsertSent (sent : SentTable) (row : SentRow) : SentTable :=
  sent.upsert row.fresh (fun r => r.resent row) fun _ => rfl

/-- The `SELECT` of `bm_messages_store_try_mark_ack_received`, up to the first row whose
acknowledgement has the hash. -/
def messagesStoreSelectAck (H : Hashes) (sent : SentTable) (receivedHash : Bytes) : Option Bytes :=
  (sent.rows.find? fun r => decide (r.status ≠ .ackreceived) && decide (0 < r.ackData.length) &&
    decide (inventoryHash H r.ackData = receivedHash)).map SentRow.ackData

/-- The `UPDATE` of `bm_messages_store_try_mark_ack_received`. -/
def messagesStoreUpdateAck (sent : SentTable) (ackData : Bytes) : SentTable :=
  sent.update (fun r => if r.ackData = ackData then { r with status := .ackreceived } else r)
    fun r => by split <;> rfl

/-- `struct bm_sent_resend_candidate`. -/
structure ResendCandidate where
  msgId : Bytes
  toAddress : Bytes
  fromAddress : Bytes
  subject : Bytes
  body : Bytes
  ackStealthLevel : ℤ
  ttl : ℤ
  resendCount : ℕ
  deriving DecidableEq

/-- The `WHERE` of `bm_messages_store_list_resend_candidates`. The folder is not looked at. -/
def SentRow.resendDue (now : ℤ) (maxAttempts : ℕ) (row : SentRow) : Bool :=
  decide (row.status ≠ .ackreceived) && decide (row.status ≠ .msgsentnoackexpected) &&
    decide (row.nextResendTime ≤ now) && decide (row.resendCount < maxAttempts)

/-- The columns of a candidate. -/
def SentRow.candidate (row : SentRow) : ResendCandidate :=
  ⟨row.msgId, toAddressBuffer row.toAddress, toAddressBuffer row.fromAddress, row.subject, row.body,
    row.ackStealthLevel, row.ttl, row.resendCount⟩

/-- `bm_messages_store_list_resend_candidates`. -/
def messagesStoreListResendCandidates (sent : SentTable) (now : ℤ) (maxAttempts : ℕ) : List ResendCandidate :=
  (sent.rows.filter fun r => r.resendDue now maxAttempts && decide (r.msgId.length = 32)).map SentRow.candidate

/-- `bm_messages_store_trash_sent_message`. -/
def messagesStoreTrashSentMessage (sent : SentTable) (msgId : Bytes) : SentTable :=
  sent.update (fun r => if r.msgId = msgId then { r with folder := .trash } else r) fun r => by split <;> rfl

/-- `bm_messages_store_rename_own_address` on this table: the messages from the address. -/
def messagesStoreRenameOwnAddress (sent : SentTable) (oldAddress newAddress : Bytes) : SentTable :=
  sent.update (fun r => if r.fromAddress = oldAddress then { r with fromAddress := newAddress } else r)
    fun r => by split <;> rfl

/-- After the statement no message is from the old address. -/
theorem fromAddress_renameOwnAddress {oldAddress newAddress : Bytes} (h : newAddress ≠ oldAddress) {sent : SentTable}
    {row : SentRow} (hrow : row ∈ (messagesStoreRenameOwnAddress sent oldAddress newAddress).rows) :
    row.fromAddress ≠ oldAddress := by
  obtain ⟨r, -, rfl⟩ := List.mem_map.mp hrow
  by_cases hr : r.fromAddress = oldAddress
  · rw [if_pos hr]
    exact h
  · rw [if_neg hr]
    exact hr

theorem renameOwnAddress_again {oldAddress newAddress : Bytes} (h : newAddress ≠ oldAddress) (sent : SentTable) :
    messagesStoreRenameOwnAddress (messagesStoreRenameOwnAddress sent oldAddress newAddress) oldAddress newAddress =
      messagesStoreRenameOwnAddress sent oldAddress newAddress := by
  apply KeyedTable.update_eq_self
  intro r hr
  exact if_neg (fromAddress_renameOwnAddress h hr)

/-- The row under the identifier after the statement: a new one, or the old one resent. -/
theorem find?_insertSent_self (sent : SentTable) (row : SentRow) :
    (messagesStoreInsertSent sent row).find? row.msgId =
      some ((sent.find? row.msgId).elim row.fresh fun r => r.resent row) :=
  sent.find?_upsert_self row.fresh _ _

theorem find?_insertSent_of_ne (sent : SentTable) {row : SentRow} {msgId : Bytes} (h : msgId ≠ row.msgId) :
    (messagesStoreInsertSent sent row).find? msgId = sent.find? msgId :=
  sent.find?_upsert_of_ne (a := row.fresh) _ _ h

/-- A selected acknowledgement belongs to a row that is not yet acknowledged. -/
theorem selectAck_eq_some {H : Hashes} {sent : SentTable} {hash ackData : Bytes}
    (h : messagesStoreSelectAck H sent hash = some ackData) :
    ∃ r ∈ sent.rows, r.ackData = ackData ∧ inventoryHash H r.ackData = hash := by
  obtain ⟨r, hr, rfl⟩ := Option.map_eq_some_iff.mp h
  have hp := List.find?_some hr
  simp only [Bool.and_eq_true, decide_eq_true_eq] at hp
  exact ⟨r, List.mem_of_find?_eq_some hr, rfl, hp.2⟩

/-- When nothing is selected, every row with a matching acknowledgement has been acknowledged. -/
theorem selectAck_eq_none {H : Hashes} {sent : SentTable} {hash : Bytes}
    (h : messagesStoreSelectAck H sent hash = none) {r : SentRow} (hr : r ∈ sent.rows) (hne : r.ackData ≠ [])
    (hhash : inventoryHash H r.ackData = hash) : r.status = .ackreceived := by
  have := List.find?_eq_none.mp (Option.map_eq_none_iff.mp h) r hr
  by_contra hstatus
  exact this (by simp [hstatus, List.length_pos_iff, hne, hhash])

theorem mem_listResendCandidates {sent : SentTable} {now : ℤ} {maxAttempts : ℕ} {c : ResendCandidate}
    (h : c ∈ messagesStoreListResendCandidates sent now maxAttempts) :
    ∃ row, sent.find? c.msgId = some row ∧ row.resendDue now maxAttempts = true ∧ row.candidate = c := by
  simp only [messagesStoreListResendCandidates, List.mem_map, List.mem_filter, Bool.and_eq_true] at h
  obtain ⟨row, ⟨hrow, hdue, -⟩, rfl⟩ := h
  exact ⟨row, KeyedTable.find?_eq_some.mpr ⟨hrow, rfl⟩, hdue, rfl⟩

end Bitmessage
