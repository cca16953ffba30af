import Bitmessage.Core.BroadcastDecrypt
import Bitmessage.Core.MessagesStore

/-! From a decrypted object to the inbox. The row of a message is filed under the
inventory hash of its object. Which of the identities with the recipient's ripe opens a
message makes no difference to what the row says about sender and text. -/

namespace Bitmessage

open Traced BufParser

variable (C : Crypto)

/-- `store_decoded_msg`: the new inbox and the embedded acknowledgement. -/
def storeDecodedMsg (inbox : List InboxRow) (object : Buf) (now : ℤ) (msg : DecodedMsg) : List InboxRow × Bytes :=
  (messagesStoreInsertInbox inbox
    ⟨inventoryHash C.toHashes object.bytes, msg.toAddress, msg.fromAddress, msg.subject, msg.body, now⟩,
    msg.ackPayload)

/-- `bm_trial_decrypt_and_store`. -/
def trialDecryptAndStore (unlocked : List UnlockedIdentity) (inbox : List InboxRow) (object : Buf) (now : ℤ) :
    Option (List InboxRow × Bytes) :=
  (decodedMsg C unlocked object).map (storeDecodedMsg C inbox object now)

/-- The decoded broadcast, if there is one. -/
def decodedBroadcast (candidate : Candidate) (object : Buf) : Option DecodedBroadcast :=
  ((trialDecryptBroadcast C candidate object).result 0).map Prod.fst

/-- The row of a broadcast: the sender stands in both address columns. -/
def storeDecodedBroadcast (inbox : List InboxRow) (object : Buf) (now : ℤ) (msg : DecodedBroadcast) : List InboxRow :=
  messagesStoreInsertInbox inbox
    ⟨inventoryHash C.toHashes object.bytes, msg.fromAddress, msg.fromAddress, msg.subject, msg.body, now⟩

/-- `bm_trial_decrypt_broadcast_and_store`. -/
def trialDecryptBroadcastAndStore (candidate : Candidate) (inbox : List InboxRow) (object : Buf) (now : ℤ) :
    Option (List InboxRow) :=
  (decodedBroadcast C candidate object).map (storeDecodedBroadcast C inbox object now)

section

variable {C}

/-- Behind the header the parser works on the plaintext of the identity that opens the object. -/
theorem result_trialDecryptMsg {object : Buf} {hdr : ObjectHeader} (h : object.header = some hdr)
    (unlocked : List UnlockedIdentity) :
    (trialDecryptMsg C unlocked object).result 0 =
      if hdr.objectType = objectMsg ∧ hdr.version = 1 then
        (trialOpen C unlocked (msgCiphertext hdr object)).bind fun opened =>
          (trialDecryptBody C opened.1 hdr object opened.2).result hdr.headerLen
      else none := by
  unfold trialDecryptMsg
  rw [result_bind_of_result (Buf.header_eq_some h).1, result_bind, result_require]
  split_ifs
  · rw [Option.bind_some, result_bind_of_result (result_emit _ _)]
    rcases trialOpen C unlocked (msgCiphertext hdr object) with _ | ⟨identity, body⟩
    · rw [trialDecryptMsgWith, result_stop, Option.bind_none]
    · rw [trialDecryptMsgWith, Option.bind_some]
  · rw [Option.bind_none]

theorem decodedMsg_eq_some {unlocked : List UnlockedIdentity} {object : Buf} {msg : DecodedMsg}
    (h : decodedMsg C unlocked object = some msg) :
    ∃ hdr identity body q, object.header = some hdr ∧ (hdr.objectType = objectMsg ∧ hdr.version = 1) ∧
      trialOpen C unlocked (msgCiphertext hdr object) = some (identity, body) ∧
      (trialDecryptBody C identity hdr object body).result hdr.headerLen = some (msg, q) := by
  obtain ⟨⟨msg, q⟩, hr, rfl⟩ := Option.map_eq_some_iff.mp h
  rcases hhdr : object.header with _ | hdr
  · have : (objectParseHeader object).result 0 = none := Option.map_eq_none_iff.mp hhdr
    rw [trialDecryptMsg, result_bind, this, Option.bind_none] at hr
    cases hr
  · rw [result_trialDecryptMsg hhdr] at hr
    split_ifs at hr with htype
    obtain ⟨opened, hopened, hr⟩ := Option.bind_eq_some_iff.mp hr
    exact ⟨hdr, opened.1, opened.2, q, rfl, htype, hopened, hr⟩

/-- The same sender, subject and body. -/
def DecodedMsg.SameText (msg msg' : DecodedMsg) : Prop :=
  msg.fromAddress = msg'.fromAddress ∧ msg.subject = msg'.subject ∧ msg.body = msg'.body

/-- What another identity reads from a plaintext that the recipient accepts: the same text when it
has the recipient's ripe, and nothing otherwise. -/
theorem trialDecryptBody_identity {recipient : UnlockedIdentity} (identity : UnlockedIdentity) {hdr : ObjectHeader}
    {object body : Buf} {p q : ℕ} {msg : DecodedMsg}
    (h : (trialDecryptBody C recipient hdr object body).result p = some (msg, q)) :
    (identity.ripe = recipient.ripe → ∃ msg', (trialDecryptBody C identity hdr object body).result p = some (msg', q) ∧
      msg'.SameText msg) ∧
    (identity.ripe ≠ recipient.ripe → (trialDecryptBody C identity hdr object body).result p = none) := by
  unfold trialDecryptBody at h ⊢
  rw [result_bind_of_result (result_set _ _)] at h ⊢
  rw [result_bind_eq_some] at h
  obtain ⟨fromVer, p₁, h₁, h⟩ := h
  rw [result_bind_of_result h₁]
  rw [result_bind_eq_some] at h
  obtain ⟨fromStream, p₂, h₂, h⟩ := h
  rw [result_bind_of_result h₂]
  rw [result_bind_eq_some] at h
  obtain ⟨keys, p₃, h₃, h⟩ := h
  rw [result_bind_of_result h₃]
  rw [result_bind_eq_some] at h
  obtain ⟨_, p₄, h₄, h⟩ := h
  rw [result_bind_of_result h₄]
  rw [result_bind_eq_some] at h
  obtain ⟨_, p₅, h₅, h⟩ := h
  rw [result_bind_of_result h₅]
  rw [result_bind_eq_some] at h
  obtain ⟨toRipe, p₆, h₆, h⟩ := h
  rw [result_bind_of_result h₆]
  rw [result_bind_eq_some] at h
  obtain ⟨_, p₇, h₇, h⟩ := h
  obtain ⟨hripe, hp₇⟩ := result_require_eq_some.mp h₇
  subst hp₇
  constructor
  · intro he
    -- the identity passes the check of the ripe, and nothing behind it depends on the identity
    rw [he, result_bind_of_result h₇]
    rw [result_bind_eq_some] at h
    obtain ⟨encoding, p₈, h₈, h⟩ := h
    rw [result_bind_of_result h₈]
    rw [result_bind_eq_some] at h
    obtain ⟨msgSlice, p₉, h₉, h⟩ := h
    rw [result_bind_of_result h₉]
    rw [result_bind_eq_some] at h
    obtain ⟨_, p₁₀, h₁₀, h⟩ := h
    rw [result_bind_of_result h₁₀]
    rw [result_bind_eq_some] at h
    obtain ⟨ack, p₁₁, h₁₁, h⟩ := h
    rw [result_bind_of_result h₁₁]
    rw [result_bind_eq_some] at h
    obtain ⟨_, p₁₂, h₁₂, h⟩ := h
    rw [result_bind_of_result h₁₂]
    rw [result_bind_of_result (result_get _)] at h ⊢
    rw [result_bind_eq_some] at h
    obtain ⟨sig, p₁₃, h₁₃, h⟩ := h
    rw [result_bind_of_result h₁₃]
    rw [result_bind_of_result (result_emit _ _), result_bind_of_result (result_emit _ _),
      result_bind_of_result (result_emit _ _)] at h ⊢
    rw [result_bind_eq_some] at h
    obtain ⟨_, p₁₄, hverify, h⟩ := h
    rw [result_bind_of_result hverify]
    rw [result_bind_of_result (result_emit _ _), result_bind_of_result (result_emit _ _), result_pure] at h ⊢
    obtain ⟨rfl, rfl⟩ := Prod.mk.inj (Option.some.inj h)
    exact ⟨_, rfl, rfl, rfl, rfl⟩
  · intro hne
    rw [result_bind, result_require, if_neg (fun he => hne (he.symm.trans hripe)), Option.bind_none]

end

/-! ### A message in the clear -/

/-- The recipient. -/
def recipient : UnlockedIdentity :=
  ⟨[], List.replicate 20 1, [], [], [], [], 4, 1, 1000, 1000, false, 0, rfl⟩

/-- A `msg` object to the recipient whose plaintext claims an address of the given version. -/
def msgBytes (version : UInt8) : Bytes :=
  List.replicate 16 0 ++ [0, 0, 0, 2, 1, 1] ++ [version, 1] ++ List.replicate 132 0 ++ [0, 0] ++
    List.replicate 20 1 ++ [2, 0, 0, 0]

/-- The object in a buffer. -/
def msgFromVersion (version : UInt8) : Buf := Buf.ofBytes (msgBytes version) (by change 182 < 2 ^ 63; norm_num)

end Bitmessage
