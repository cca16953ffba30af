import Bitmessage.Core.Incoming
import Bitmessage.Pq.ObjectSafety

/-! Receiving a `msg` of address version 5. The secret keys of the unlocked identities are
tried in order; a plaintext counts for an identity only if it names the identity's id as
its recipient. An address that does not fit into the buffers of the store is not cut: the
message is dropped. -/

namespace Bitmessage

/-- `BM_PQV5_ADDRESS_VERSION`. -/
def pqv5AddressVersion : ℕ := 5

/-- `struct bm_unlocked_pq_identity`. The secret key is there once the seeds were expanded. -/
structure UnlockedPqIdentity where
  address : Bytes
  id : Bytes
  kemSk : Option Bytes

/-- `bm_pqv5_address_encode`: all the leading zero bytes of the id are dropped. -/
def pqv5AddressEncode (H : Hashes) (version stream : ℕ) (id : Bytes) : Option Bytes :=
  let data := varintEncode version ++ varintEncode stream ++ id.dropWhile (· = 0)
  (base58Encode (data ++ (doubleSha512 H data).take 4)).map fun b58 => addressMarker ++ b58

/-- The part of `bm_pqv5_address_decode` behind the base 58 decoder: a leading zero byte of the id is
refused, and the zero bytes that the encoder dropped are put back. -/
def pqv5AddressDecodeData (H : Hashes) (raw : Bytes) : Option (ℕ × ℕ × Bytes) :=
  if raw.length < 4 + 2 then none
  else
    let payload := raw.take (raw.length - 4)
    if (doubleSha512 H payload).take 4 ≠ raw.drop (raw.length - 4) then none
    else
      let (consumed, version) := varintDecode payload
      if consumed = 0 ∨ version ≠ pqv5AddressVersion then none
      else
        let (consumed', stream) := varintDecode (payload.drop consumed)
        if consumed' = 0 then none
        else
          let idData := payload.drop (consumed + consumed')
          if pqv5IdLen < idData.length then none
          else if idData.head? = some 0 then none
          else some (version, stream, List.replicate (pqv5IdLen - idData.length) 0 ++ idData)

/-- `bm_pqv5_address_decode`. -/
def pqv5AddressDecode (H : Hashes) (address : Bytes) : Option (ℕ × ℕ × Bytes) :=
  let body := if address.take 3 = addressMarker then address.drop 3 else address
  (base58Decode body).bind fun raw => pqv5AddressDecodeData H raw

/-- A decoded address is of version 5, and its id has the length of a hash. -/
theorem pqv5AddressDecode_eq_some {H : Hashes} {address id : Bytes} {version stream : ℕ}
    (h : pqv5AddressDecode H address = some (version, stream, id)) :
    version = pqv5AddressVersion ∧ id.length = pqv5IdLen := by
  obtain ⟨raw, -, h⟩ := Option.bind_eq_some_iff.mp h
  unfold pqv5AddressDecodeData at h
  simp only at h
  split_ifs at h with hshort hsum hversion hstream hlong hzero
  cases h
  refine ⟨not_not.mp (not_or.mp hversion).2, ?_⟩
  rw [List.length_append, List.length_replicate]
  exact Nat.sub_add_cancel (not_lt.mp hlong)

variable (C : Crypto) (P : PqCrypto)

/-- What one identity makes of an object in `bm_pq_keyring_open_msg`. -/
def pqOpenAs (identity : UnlockedPqIdentity) (object : Buf) : Option (UnlockedPqIdentity × PqMsgParsed) :=
  identity.kemSk.bind fun kemSk =>
    (pqParsed (pqParseMsg P kemSk object)).bind fun parsed =>
      if parsed.fromAddressVersion ≠ pqv5AddressVersion ∨ parsed.toId ≠ identity.id then none
      else some (identity, parsed)

/-- `bm_pq_keyring_open_msg` on all the identities. -/
def pqKeyringOpenMsg (identities : List UnlockedPqIdentity) (object : Buf) :
    Option (UnlockedPqIdentity × PqMsgParsed) :=
  identities.findSome? fun identity => pqOpenAs P identity object

/-- The message that `bm_pq_trial_decrypt_and_store` stores. -/
def pqDecodedMsg (identities : List UnlockedPqIdentity) (object : Buf) : Option DecodedMsg :=
  (pqKeyringOpenMsg P identities object).bind fun (identity, parsed) =>
    (pqv5AddressEncode C.toHashes parsed.fromAddressVersion parsed.fromStream parsed.fromId).bind fun sender =>
      if addressStrMax ≤ sender.length then none
      else
        let text := decodeMessage parsed.encoding parsed.message
        some {
          fromAddressVersion := parsed.fromAddressVersion
          fromStream := parsed.fromStream
          fromAddress := sender
          toAddress := identity.address
          subject := text.1
          body := text.2
          ackPayload := parsed.ack }

/-- A sealed text is longer than what it opens to: `bm_pqv5_open` returns the length without the
encapsulated key and the tag. -/
def PqCrypto.OpensWithin : Prop := ∀ sk aad sealed inner, P.pqv5Open sk aad sealed = some inner → inner.size ≤ sealed.length

section

variable {C P} {object inner : Buf} {s t : RBuf}

/-- The acknowledgement is a part of the plaintext. -/
theorem length_ack_pqParseMsgInner {plainLen : ℕ} {out : PqMsgParsed}
    (h : (pqParseMsgInner P plainLen object inner).result s = some (out, t)) : out.ack.length ≤ inner.size := by
  unfold pqParseMsgInner at h
  rw [Traced.result_bind_of_result (Traced.result_set _ _)] at h
  obtain ⟨version, s₁, h₁, g₁⟩ := Traced.result_bind_eq_some.mp h
  obtain ⟨stream, s₂, h₂, g₂⟩ := Traced.result_bind_eq_some.mp g₁
  obtain ⟨keys, s₃, h₃, g₃⟩ := Traced.result_bind_eq_some.mp g₂
  obtain ⟨toId, s₄, h₄, g₄⟩ := Traced.result_bind_eq_some.mp g₃
  obtain ⟨encoding, s₅, h₅, g₅⟩ := Traced.result_bind_eq_some.mp g₄
  obtain ⟨len, s₆, h₆, g₆⟩ := Traced.result_bind_eq_some.mp g₅
  obtain ⟨message, s₇, h₇, g₇⟩ := Traced.result_bind_eq_some.mp g₆
  obtain ⟨ackLen, s₈, h₈, g₈⟩ := Traced.result_bind_eq_some.mp g₇
  obtain ⟨ack, s₉, h₉, g₉⟩ := Traced.result_bind_eq_some.mp g₈
  obtain ⟨_, s₁₀, h₁₀, g₁₀⟩ := Traced.result_bind_eq_some.mp g₉
  rw [Traced.result_pure] at g₁₀
  cases g₁₀
  have hp₂ := (senderFields_eq_some (Nat.zero_le _) h₁ h₂).1
  have hp₃ := (pqKeyFields_eq_some hp₂ h₃).1
  have hp₄ := (rBytes_eq_some hp₃ h₄).1
  have hp₅ := (rVarint_eq_some hp₄ h₅).1
  obtain ⟨-, -, -, hfit₆⟩ := pqLength_eq_some hp₅ h₆
  have hp₆ : s₆.p ≤ inner.size := le_trans (Nat.le_add_right _ _) hfit₆
  have hp₇ := (rBytes_eq_some hp₆ h₇).1
  obtain ⟨-, -, -, hfit₈⟩ := pqLength_eq_some hp₇ h₈
  have hack : ack.length ≤ ackLen := by
    unfold pqAck at h₉
    split at h₉
    · rw [result_rBytes (by omega)] at h₉
      split at h₉
      · cases h₉
        simp
      · cases h₉
        simp
    · rw [Traced.result_pure] at h₉
      cases h₉
      exact Nat.zero_le _
  show ack.length ≤ inner.size
  omega

theorem pqKeyringOpenMsg_eq_some {identities : List UnlockedPqIdentity} {identity : UnlockedPqIdentity}
    {parsed : PqMsgParsed} (h : pqKeyringOpenMsg P identities object = some (identity, parsed)) :
    identity ∈ identities ∧ ∃ kemSk, identity.kemSk = some kemSk ∧
      pqParsed (pqParseMsg P kemSk object) = some parsed ∧
      parsed.fromAddressVersion = pqv5AddressVersion ∧ parsed.toId = identity.id := by
  obtain ⟨identity', hmem, hopen⟩ := List.exists_of_findSome?_eq_some h
  obtain ⟨kemSk, hsk, hopen⟩ := Option.bind_eq_some_iff.mp hopen
  obtain ⟨parsed', hparsed, hopen⟩ := Option.bind_eq_some_iff.mp hopen
  split_ifs at hopen with hmatch
  cases hopen
  rw [not_or, not_not, not_not] at hmatch
  exact ⟨hmem, kemSk, hsk, hparsed, hmatch⟩

/-- The acknowledgement of a message is not longer than its object. -/
theorem length_ackPayload_pqDecodedMsg (hP : P.OpensWithin) {identities : List UnlockedPqIdentity} {msg : DecodedMsg}
    (h : pqDecodedMsg C P identities object = some msg) : msg.ackPayload.length ≤ object.size := by
  have hw := object.size_lt
  obtain ⟨⟨identity, parsed⟩, hopened, h⟩ := Option.bind_eq_some_iff.mp h
  obtain ⟨sender, -, h⟩ := Option.bind_eq_some_iff.mp h
  split_ifs at h
  cases h
  obtain ⟨-, kemSk, -, hparsed, -⟩ := pqKeyringOpenMsg_eq_some hopened
  obtain ⟨u, hresult⟩ := pqParsed_eq_some hparsed
  obtain ⟨inner, plainLen, v, -, -, hplain, hopen, hinner⟩ := pqParseMsg_opened hresult
  have hack := length_ack_pqParseMsgInner hinner
  have hsealed := hP _ _ _ _ hopen
  have hsub : subW object.size 8 = object.size - 8 := subW_of_le (by unfold wordSize; omega) (by omega)
  have hsub' : subW (object.size - 8) plainLen = object.size - 8 - plainLen :=
    subW_of_le (by unfold wordSize; omega) (by omega)
  rw [Buf.length_slice, hsub, hsub'] at hsealed
  show parsed.ack.length ≤ object.size
  omega

end

end Bitmessage
