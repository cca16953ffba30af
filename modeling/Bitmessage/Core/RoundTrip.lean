import Bitmessage.Common.ReadBack
import Bitmessage.Core.Incoming
import Bitmessage.Core.MessageBuilder

/-! What the builders write is what the parsers read. The object is a nonce and the
output of a builder; the recipient, or the candidate of a broadcast and of a public key
of version 4, is the one it was built for. Decryption is assumed to invert encryption and
verification to accept what was signed. -/

namespace Bitmessage

open Traced BufParser

/-- Signatures of the identity verify under its public signing key. -/
def SignsFor (C : SenderCrypto) (id : IdentityInfo) : Prop :=
  ∀ seed data sig, C.sign seed data id.privSigning = some sig → C.verify data sig id.pubSigning.bytes = true

/-- The private key opens what was encrypted to the public key. -/
def Opens (C : SenderCrypto) (priv pub : Bytes) : Prop :=
  ∀ seed plaintext ciphertext, C.eciesEncrypt seed plaintext pub = some ciphertext →
    ∃ body, C.eciesDecrypt ciphertext priv = some body ∧ body.bytes = plaintext

/-- A private key opens what was encrypted to its public key. -/
def KeysOpen (C : SenderCrypto) : Prop := ∀ priv pub, C.getPublicKey priv = some pub → Opens C priv pub

/-- The ripe of an identity. -/
def IdentityInfo.ripe (H : Hashes) (id : IdentityInfo) : Bytes :=
  addressCalcRipe H id.pubSigning.bytes id.pubEncryption.bytes

/-! ### The text -/

theorem not_mem_subjectMarker : (0x0a : UInt8) ∉ subjectMarker := by decide

/-- The first line feed of the text is the one in front of the body. -/
theorem find_bodyNeedle {front : Bytes} (h : (0x0a : UInt8) ∉ front) (rest : Bytes) :
    ((List.range ((front ++ (bodyNeedle ++ rest)).length + 1 - 6)).find? fun i =>
      decide (((front ++ (bodyNeedle ++ rest)).drop i).take 6 = bodyNeedle)) = some front.length := by
  have hlen : (front ++ (bodyNeedle ++ rest)).length = front.length + (6 + rest.length) := by
    rw [List.length_append, List.length_append]
    rfl
  rw [List.find?_range_eq_some]
  refine ⟨?_, ?_, ?_⟩
  · rw [List.drop_left]
    exact decide_eq_true (List.take_left' rfl)
  · rw [List.mem_range]
    omega
  · intro j hj
    -- a match at `j` would put the line feed into the front
    simp only [Bool.not_eq_eq_eq_not, Bool.not_true, decide_eq_false_iff_not]
    intro hmatch
    have hhead := congrArg List.head? hmatch
    rw [List.drop_append_of_le_length hj.le, List.head?_take, if_neg (by norm_num)] at hhead
    obtain ⟨x, xs, hx⟩ := List.exists_cons_of_ne_nil (List.drop_eq_nil_iff.not.mpr (not_le.mpr hj))
    rw [hx] at hhead
    cases hhead
    exact h (List.mem_of_mem_drop (hx ▸ List.mem_cons_self))

theorem decodeSimple_simpleText {subject : CString} (body : CString) (hline : (0x0a : UInt8) ∉ subject.bytes)
    (hlen : subject.bytes.length ≤ 500) :
    decodeSimple (simpleText subject body) = (subject.bytes, body.bytes) := by
  have hfront : (0x0a : UInt8) ∉ subjectMarker ++ subject.bytes := by
    rw [List.mem_append, not_or]
    exact ⟨not_mem_subjectMarker, hline⟩
  have hfind := find_bodyNeedle hfront body.bytes
  have htext : simpleText subject body = subjectMarker ++ subject.bytes ++ (bodyNeedle ++ body.bytes) := by
    rw [simpleText, List.append_assoc]
  have h8 : (subjectMarker ++ subject.bytes).length = 8 + subject.bytes.length := by
    rw [List.length_append]
    rfl
  have hdrop : (subjectMarker ++ subject.bytes ++ (bodyNeedle ++ body.bytes)).drop 8 =
      subject.bytes ++ (bodyNeedle ++ body.bytes) := by
    rw [List.append_assoc]
    exact List.drop_left' rfl
  have hbody : (subjectMarker ++ subject.bytes ++ (bodyNeedle ++ body.bytes)).drop
      ((subjectMarker ++ subject.bytes).length + 6) = body.bytes := by
    rw [← List.drop_drop, List.drop_left]
    exact List.drop_left' rfl
  have hsubject : subject.bytes.takeWhile (· ≠ 0x0a) = subject.bytes := by
    rw [List.takeWhile_eq_self_iff]
    intro x hx
    simpa using fun h0 : x = 0x0a => hline (h0 ▸ hx)
  rw [decodeSimple, htext, hfind]
  simp only [hbody, hdrop]
  rw [h8, if_pos (by omega), Nat.add_sub_cancel_left, Nat.min_eq_left hlen, List.take_left, hsubject]

/-! ### The fields of the plaintext -/

section

variable {object body : Buf} {p : ℕ} {rest : Bytes} {β : Type}

theorem pubkey64_eq (pub : PublicKey) : pubkey64 pub = pub.coordinates := by
  rw [pubkey64, PublicKey.bytes, uncompressed, List.drop_succ_cons, List.drop_zero]
  exact List.take_of_length_le pub.length_coordinates.le

theorem uncompressed_pubkey64 (pub : PublicKey) : uncompressed (pubkey64 pub) = pub.bytes := by
  rw [pubkey64_eq]
  rfl

theorem length_pubkey64 (pub : PublicKey) : (pubkey64 pub).length = 64 := by
  rw [pubkey64_eq, pub.length_coordinates]

theorem length_keyFields (id : IdentityInfo) : id.keyFields.length = 4 + 64 + 64 := by
  simp only [IdentityInfo.keyFields, bitfieldBytes, List.length_append, Radix.length_beBytes, length_pubkey64]

theorem behaviorBitfield_lt (doesAck : Bool) : behaviorBitfield doesAck < 256 ^ 4 := by
  cases doesAck <;> decide

theorem bitfield_of_rest {r : Region} {doesAck : Bool} (h : body.Rest p (bitfieldBytes doesAck ++ rest)) :
    (readBe r body 4).result p = some (behaviorBitfield doesAck, p + (bitfieldBytes doesAck).length) :=
  Buf.Rest.readBe h (behaviorBitfield_lt doesAck)

theorem senderKeys_of_rest {id : IdentityInfo} (h : body.Rest p (id.keyFields ++ rest)) :
    (senderKeys body).result p =
      some ((id.pubSigning.bytes, id.pubEncryption.bytes), p + id.keyFields.length) := by
  have hroom := h.room (show 4 + 64 + 64 ≤ (id.keyFields ++ rest).length by
    rw [List.length_append, length_keyFields]; omega)
  have h4 : (bitfieldBytes id.doesAck).length = 4 := Radix.length_beBytes _ _
  have hlen : p + id.keyFields.length = p + 4 + (pubkey64 id.pubSigning).length +
      (pubkey64 id.pubEncryption).length := by
    rw [length_keyFields, length_pubkey64, length_pubkey64]
  simp only [IdentityInfo.keyFields, List.append_assoc] at h
  have hadvance := h.advance (r := .body)
  have h₁ := h.append
  rw [h4] at hadvance h₁
  unfold senderKeys
  rw [result_bind_of_result hroom, result_bind_of_result hadvance, result_bind_of_result (h₁.bytes (length_pubkey64 _)),
    result_bind_of_result (h₁.append.bytes (length_pubkey64 _)), result_pure, hlen, uncompressed_pubkey64,
    uncompressed_pubkey64]

/-- The difficulty is read behind the keys of an identity that wrote it. -/
theorem senderDifficulty_of_rest {id : IdentityInfo}
    (h : body.Rest p ((if 3 ≤ id.addressVersion then id.difficultyFields else []) ++ rest)) :
    (senderDifficulty body id.addressVersion).result p =
      some ((), p + (if 3 ≤ id.addressVersion then id.difficultyFields else []).length) := by
  unfold senderDifficulty
  split_ifs at h ⊢
  · rw [IdentityInfo.difficultyFields, List.append_assoc] at h
    rw [result_bind_of_result (h.varint id.nonceTrialsPerByte_lt),
      result_bind_of_result (h.append.varint id.payloadLengthExtraBytes_lt), result_pure,
      IdentityInfo.difficultyFields, List.length_append, Nat.add_assoc]
  · rfl

/-- The sender in front of a text. -/
theorem result_sender_bind {id : IdentityInfo} (h : body.Rest p (id.senderFields ++ rest))
    (f : ℕ → ℕ → Bytes × Bytes → BufParser β) :
    result (varint .body body >>= fun v => varint .body body >>= fun s => senderKeys body >>= fun keys =>
      senderDifficulty body v >>= fun _ => f v s keys) p =
    (f id.addressVersion id.stream (id.pubSigning.bytes, id.pubEncryption.bytes)).result
      (p + id.senderFields.length) := by
  simp only [IdentityInfo.senderFields, List.append_assoc] at h
  have h₁ := h.append
  have h₂ := h₁.append
  have h₃ := h₂.append
  rw [result_bind_of_result (h.varint id.addressVersion_lt), result_bind_of_result (h₁.varint id.stream_lt),
    result_bind_of_result (senderKeys_of_rest h₂), result_bind_of_result (senderDifficulty_of_rest h₃)]
  congr 1
  simp only [IdentityInfo.senderFields, List.length_append]
  omega

/-- A block with its length in front: its place, and the cursor behind it. -/
theorem result_varbytes_bind {r : Region} {xs : Bytes} (h : body.Rest p (varbytes xs ++ rest))
    (f : ℕ × ℕ → BufParser β) :
    result (lengthField r body >>= fun s => advance r s.2 >>= fun _ => f s) p =
      (f (p + (varintEncode xs.length).length, xs.length)).result (p + (varbytes xs).length) := by
  rw [varbytes, List.append_assoc] at h
  have hlen : p + (varintEncode xs.length).length + xs.length = p + (varbytes xs).length := by
    rw [varbytes, List.length_append, Nat.add_assoc]
  rw [result_bind_of_result h.lengthField, result_bind_of_result h.append.advance, hlen]

/-- A text in the simple encoding: the encoding and the place of the text. -/
theorem result_simpleEncodedMessage_bind {subject text : CString}
    (h : body.Rest p (simpleEncodedMessage subject text ++ rest)) (f : ℕ → ℕ × ℕ → BufParser β) :
    result (varint .body body >>= fun encoding => lengthField .body body >>= fun s => advance .body s.2 >>= fun _ =>
      f encoding s) p =
    (f 2 (p + (varintEncode 2).length + (varintEncode (simpleText subject text).length).length,
      (simpleText subject text).length)).result (p + (simpleEncodedMessage subject text).length) := by
  rw [simpleEncodedMessage, List.append_assoc] at h
  have hlen : p + (simpleEncodedMessage subject text).length =
      p + (varintEncode 2).length + (varbytes (simpleText subject text)).length := by
    rw [simpleEncodedMessage, List.length_append, Nat.add_assoc]
  rw [result_bind_of_result (h.varint (by norm_num)), result_varbytes_bind h.append, hlen]

theorem slice_varbytes {xs : Bytes} (h : body.Rest p (varbytes xs ++ rest)) :
    body.slice (p + (varintEncode xs.length).length) xs.length = xs := by
  rw [varbytes, List.append_assoc] at h
  exact h.append.slice

/-- The signature at the end. -/
theorem result_signature_bind {sig : Bytes} (h : body.Rest p (varbytes sig)) (f : ℕ × ℕ → BufParser β) :
    result (lengthField .body body >>= f) p =
      (f (p + (varintEncode sig.length).length, sig.length)).result (p + (varintEncode sig.length).length) := by
  have hlast : body.Rest p (varintEncode sig.length ++ (sig ++ [])) := by
    rw [List.append_nil]
    exact h
  exact result_bind_of_result hlast.lengthField f

theorem slice_signature {sig : Bytes} (h : body.Rest p (varbytes sig)) :
    body.slice (p + (varintEncode sig.length).length) sig.length = sig := by
  rw [← List.append_nil (varbytes sig)] at h
  exact slice_varbytes h

theorem slice_simpleEncodedMessage {subject text : CString}
    (h : body.Rest p (simpleEncodedMessage subject text ++ rest)) :
    body.slice (p + (varintEncode 2).length + (varintEncode (simpleText subject text).length).length)
      (simpleText subject text).length = simpleText subject text := by
  rw [simpleEncodedMessage, List.append_assoc] at h
  exact slice_varbytes h.append

/-! ### The object -/

theorem Buf.Rest.slice_all (h : body.Rest p rest) : body.slice p (subW body.size p) = rest := by
  have hw := body.size_lt
  have hsize := h.size
  have hsub : subW body.size p = rest.length := by
    rw [subW_of_le (by unfold wordSize; omega) (by omega)]
    omega
  rw [hsub]
  rw [← List.append_nil rest] at h
  exact h.slice

theorem Buf.Rest.bytes_suffix (h : body.Rest p rest) : (body.suffix p).bytes = rest := by
  have hsize := h.size
  have hlen : (body.suffix p).size = rest.length := by
    simp only [Buf.suffix]
    omega
  rw [← List.append_nil rest] at h
  rw [Buf.bytes, hlen, ← h.slice]
  simp only [Buf.slice, Buf.suffix, Nat.zero_add, List.length_map, List.length_range]

/-- The header of an object and what follows it. -/
structure ObjectFront (object : Buf) (expires type version stream : ℕ) (rest : Bytes) (hdr : ObjectHeader) :
    Prop where
  parsed : (objectParseHeader object).result 0 = some (hdr, hdr.headerLen)
  objectType_eq : hdr.objectType = type
  version_eq : hdr.version = version
  stream_eq : hdr.stream = stream
  signed : object.slice 8 (subW hdr.headerLen 8) = commonHeader expires type version stream
  behind : object.Rest hdr.headerLen rest

theorem exists_objectFront {nonce expires type version stream : ℕ} (hn : nonce < wordSize) (he : expires < wordSize)
    (ht : type < 2 ^ 32) (hv : version < wordSize) (hs : stream < wordSize)
    (h : object.bytes = packBe64 nonce ++ (commonHeader expires type version stream ++ rest)) :
    ∃ hdr, ObjectFront object expires type version stream rest hdr := by
  have hfields : object.bytes = packBe64 nonce ++ (packBe64 expires ++ (Radix.beBytes 4 type ++
      (varintEncode version ++ (varintEncode stream ++ rest)))) := by
    rw [h]
    simp only [commonHeader, List.append_assoc]
  have hheader := Buf.header_of_bytes hn he ht hv hs hfields
  have hlen : (commonHeader expires type version stream).length = 12 + varintSize version + varintSize stream := by
    simp only [commonHeader, packBe64, List.length_append, Radix.length_beBytes, length_varintEncode]
    omega
  have hrest : object.Rest 8 (commonHeader expires type version stream ++ rest) :=
    ⟨packBe64 nonce, h, Radix.length_beBytes _ _⟩
  have hsub : subW (20 + varintSize version + varintSize stream) 8 =
      (commonHeader expires type version stream).length := by
    have := varintSize_le version
    have := varintSize_le stream
    rw [hlen, subW_of_le (by unfold wordSize; omega) (by omega)]
    omega
  refine ⟨_, (Buf.header_eq_some hheader).1, rfl, rfl, rfl, ?_, ?_⟩
  · rw [hsub]
    exact hrest.slice
  · have := hrest.append
    rw [hlen, show 8 + (12 + varintSize version + varintSize stream) = 20 + varintSize version + varintSize stream by
      omega] at this
    exact this

end

/-! ### Messages -/

section

variable {C : SenderCrypto} {object body : Buf} {p : ℕ}

/-- The fields of a message in front of the signature. -/
def msgFields (sender : IdentityInfo) (toRipe : Bytes) (subject text : CString) (ackPayload : Bytes) : Bytes :=
  sender.senderFields ++ (toRipe ++ (simpleEncodedMessage subject text ++ varbytes ackPayload))

/-- The address of an identity. -/
def IdentityInfo.address (H : Hashes) (id : IdentityInfo) : Option Bytes :=
  addressEncode H id.addressVersion id.stream (id.ripe H)

/-- The buffer for an address holds every address with a version above 0. -/
theorem toAddressBuffer_of_identity (H : Hashes) {id : IdentityInfo} (hpos : 0 < id.addressVersion) {address : Bytes}
    (h : id.address H = some address) : toAddressBuffer address = address := by
  have hripe : (id.ripe H).length = ripeLen := length_addressCalcRipe H _ _
  obtain ⟨address', ha, hlen, -⟩ := addressDecode_addressEncode (H := H) hpos id.addressVersion_lt id.stream_lt hripe
  rw [IdentityInfo.address, ha] at h
  cases h
  exact List.take_of_length_le (by unfold addressStrMax; omega)

theorem exists_address (H : Hashes) {id : IdentityInfo} (hpos : 0 < id.addressVersion) :
    ∃ address, id.address H = some address := by
  have hripe : (id.ripe H).length = ripeLen := length_addressCalcRipe H _ _
  obtain ⟨address, ha, -⟩ := addressDecode_addressEncode (H := H) hpos id.addressVersion_lt id.stream_lt hripe
  exact ⟨address, ha⟩

/-- The plaintext of a message, signed by its sender for the identity that opened it. -/
theorem result_trialDecryptBody {identity : UnlockedIdentity} {hdr : ObjectHeader} {sender : IdentityInfo}
    {subject text : CString} {ackPayload sig address : Bytes} (hpos : 0 < sender.addressVersion)
    (haddress : sender.address C.toHashes = some address) (hchan : identity.isChan = false)
    (hline : (0x0a : UInt8) ∉ subject.bytes) (hsubject : subject.bytes.length ≤ 500)
    (hbody : body.bytes = msgFields sender identity.ripe subject text ackPayload ++ varbytes sig)
    (hverify : C.verify (object.slice 8 (subW hdr.headerLen 8) ++
      msgFields sender identity.ripe subject text ackPayload) sig sender.pubSigning.bytes = true) :
    ∃ q, (trialDecryptBody C.toCrypto identity hdr object body).result p =
      some (⟨sender.addressVersion, sender.stream, address, identity.address, subject.bytes, text.bytes,
        ackPayload⟩, q) := by
  have hsigned : body.slice 0 (msgFields sender identity.ripe subject text ackPayload).length =
      msgFields sender identity.ripe subject text ackPayload := Buf.Rest.slice_front hbody
  have h₀ := Buf.rest_zero hbody
  simp only [msgFields, List.append_assoc] at h₀
  have h₁ := h₀.append
  have h₂ := h₁.append
  have h₃ := h₂.append
  have h₄ := h₃.append
  have hripe : identity.ripe.length = 20 := identity.ripe_length
  have hroom := h₁.room (show 20 ≤ (identity.ripe ++ _).length by rw [List.length_append]; omega)
  have hpresig : 0 + sender.senderFields.length + identity.ripe.length +
      (simpleEncodedMessage subject text).length + (varbytes ackPayload).length =
      (msgFields sender identity.ripe subject text ackPayload).length := by
    simp only [msgFields, List.length_append]
    omega
  have htext := slice_simpleEncodedMessage h₂
  have hack := slice_varbytes h₃
  unfold trialDecryptBody
  rw [result_bind_of_result (result_set _ _), result_sender_bind h₀, result_bind_of_result hroom,
    result_bind_of_result (h₁.bytes hripe), result_require_bind rfl,
    result_simpleEncodedMessage_bind h₂, result_varbytes_bind h₃, result_bind_of_result (result_get _),
    result_signature_bind h₄, result_emit_bind, result_emit_bind, result_emit_bind, slice_signature h₄, hpresig,
    hsigned, result_require_bind hverify, result_emit_bind, result_emit_bind, result_pure]
  refine ⟨_, congrArg some (Prod.ext ?_ rfl)⟩
  simp only [hchan, htext, hack, decodeMessage, if_true, decodeSimple_simpleText text hline hsubject]
  rw [show addressEncode C.toHashes sender.addressVersion sender.stream
    (addressCalcRipe C.toHashes sender.pubSigning.bytes sender.pubEncryption.bytes) = some address from haddress,
    Option.getD_some, toAddressBuffer_of_identity C.toHashes hpos haddress]
  rfl

theorem signAndEncrypt_eq_some {seed plain toEncrypt pub out : Bytes} {id : IdentityInfo}
    (h : signAndEncrypt C seed id plain toEncrypt pub = some out) :
    ∃ sig ciphertext, C.sign seed (plain ++ toEncrypt) id.privSigning = some sig ∧
      C.eciesEncrypt seed (toEncrypt ++ varbytes sig) pub = some ciphertext ∧ out = plain ++ ciphertext := by
  simp only [signAndEncrypt, Option.bind_eq_bind, Option.bind_eq_some_iff, Option.pure_def, Option.some.injEq] at h
  obtain ⟨sig, hsig, ciphertext, hcipher, rfl⟩ := h
  exact ⟨sig, ciphertext, hsig, hcipher, rfl⟩

theorem decodedMsgSingle_buildMsg {seed toPub out ackPayload address : Bytes} {sender : IdentityInfo}
    {recipient : UnlockedIdentity} {subject text : CString} {nonce expires toStream : ℕ} (hn : nonce < wordSize)
    (he : expires < wordSize) (ht : toStream < wordSize) (hpos : 0 < sender.addressVersion)
    (haddress : sender.address C.toHashes = some address) (hsign : SignsFor C sender)
    (hopens : Opens C recipient.privEncryption toPub) (hchan : recipient.isChan = false)
    (hline : (0x0a : UInt8) ∉ subject.bytes) (hsubject : subject.bytes.length ≤ 500)
    (hbuild : buildMsg C seed sender toStream recipient.ripe toPub subject text ackPayload expires = some out)
    (hobject : object.bytes = packBe64 nonce ++ out) :
    decodedMsgSingle C.toCrypto recipient object =
      some ⟨sender.addressVersion, sender.stream, address, recipient.address, subject.bytes, text.bytes,
        ackPayload⟩ := by
  obtain ⟨sig, ciphertext, hsig, hcipher, rfl⟩ := signAndEncrypt_eq_some hbuild
  obtain ⟨hdr, hfront⟩ := exists_objectFront hn he (by decide) (by norm_num) ht hobject
  obtain ⟨body, hopen, hbody⟩ := hopens _ _ _ hcipher
  have hmatch : msgCiphertext hdr object = ciphertext := hfront.behind.slice_all
  have hverify := hsign _ _ _ hsig
  rw [← hfront.signed] at hverify
  obtain ⟨q, hresult⟩ := result_trialDecryptBody (p := hdr.headerLen) hpos haddress hchan hline hsubject hbody hverify
  unfold decodedMsgSingle trialDecryptMsgSingle
  rw [result_bind_of_result hfront.parsed, result_require_bind ⟨hfront.objectType_eq, hfront.version_eq⟩,
    result_emit_bind, hmatch, hopen]
  simp only
  rw [hresult, Option.map_some]

/-! ### Broadcasts -/

theorem result_trialDecryptBroadcastBody {hdr : ObjectHeader} {sender : IdentityInfo} {candidate : Candidate}
    {subject text : CString} {sig address : Bytes} (hpos : 0 < sender.addressVersion)
    (haddress : sender.address C.toHashes = some address)
    (hripe : addressCalcRipe C.toHashes sender.pubSigning.bytes sender.pubEncryption.bytes = candidate.ripe)
    (hline : (0x0a : UInt8) ∉ subject.bytes) (hsubject : subject.bytes.length ≤ 500)
    (hbody : body.bytes = sender.senderFields ++ simpleEncodedMessage subject text ++ varbytes sig)
    (hverify : C.verify (object.slice 8 (subW hdr.headerLen 8) ++ object.slice hdr.headerLen (broadcastTagLen hdr) ++
      (sender.senderFields ++ simpleEncodedMessage subject text)) sig sender.pubSigning.bytes = true) :
    ∃ q, (trialDecryptBroadcastBody C.toCrypto candidate hdr object body).result p =
      some (⟨sender.addressVersion, sender.stream, address, subject.bytes, text.bytes⟩, q) := by
  have hsigned : body.slice 0 (sender.senderFields ++ simpleEncodedMessage subject text).length =
      sender.senderFields ++ simpleEncodedMessage subject text := Buf.Rest.slice_front hbody
  have h₀ := Buf.rest_zero hbody
  rw [List.append_assoc] at h₀
  have h₁ := h₀.append
  have h₂ := h₁.append
  have hpresig : 0 + sender.senderFields.length + (simpleEncodedMessage subject text).length =
      (sender.senderFields ++ simpleEncodedMessage subject text).length := by
    rw [List.length_append, Nat.zero_add]
  have htext := slice_simpleEncodedMessage h₁
  unfold trialDecryptBroadcastBody
  rw [result_bind_of_result (result_set _ _), result_sender_bind h₀, result_simpleEncodedMessage_bind h₁,
    result_bind_of_result (result_get _), result_signature_bind h₂, result_emit_bind, result_emit_bind,
    result_emit_bind, result_emit_bind, slice_signature h₂, hpresig, hsigned, result_require_bind hverify]
  dsimp only
  rw [result_require_bind hripe, result_emit_bind, result_pure]
  refine ⟨_, congrArg some (Prod.ext ?_ rfl)⟩
  simp only [htext, decodeMessage, if_true, decodeSimple_simpleText text hline hsubject]
  rw [show addressEncode C.toHashes sender.addressVersion sender.stream
    (addressCalcRipe C.toHashes sender.pubSigning.bytes sender.pubEncryption.bytes) = some address from haddress,
    Option.getD_some, toAddressBuffer_of_identity C.toHashes hpos haddress]

/-- The address of an identity as a candidate. -/
def IdentityInfo.candidate (H : Hashes) (id : IdentityInfo) : Candidate :=
  ⟨id.addressVersion, id.stream, id.ripe H⟩

theorem length_tag (H : Hashes) (version stream : ℕ) (ripe : Bytes) :
    (addressDeriveSecretAndTag H version stream ripe).2.length = 32 := by
  simp only [addressDeriveSecretAndTag, List.length_drop, H.length_sha512]

/-- The tag that the sender put in front of the ciphertext. -/
def IdentityInfo.broadcastTag (H : Hashes) (id : IdentityInfo) : Bytes :=
  if 4 ≤ id.addressVersion then (addressDeriveSecretAndTag H id.addressVersion id.stream (id.ripe H)).2 else []

theorem broadcastVersion_eq_five {sender : IdentityInfo} : broadcastVersion sender = 5 ↔ 4 ≤ sender.addressVersion := by
  unfold broadcastVersion
  split_ifs with h <;> simp [h]

theorem length_broadcastTag (H : Hashes) {sender : IdentityInfo} {hdr : ObjectHeader}
    (hv : hdr.version = broadcastVersion sender) : (sender.broadcastTag H).length = broadcastTagLen hdr := by
  unfold IdentityInfo.broadcastTag broadcastTagLen
  simp only [hv, broadcastVersion_eq_five]
  split_ifs
  · exact length_tag H _ _ _
  · rfl

/-- The sender's tag passes the check. -/
theorem checkBroadcastTag_of_rest {sender : IdentityInfo} {hdr : ObjectHeader} {rest : Bytes}
    (hv : hdr.version = broadcastVersion sender) (h : object.Rest p (sender.broadcastTag C.toHashes ++ rest)) :
    (checkBroadcastTag C.toCrypto (sender.candidate C.toHashes) hdr object).result p =
      some ((), p + (sender.broadcastTag C.toHashes).length) := by
  unfold checkBroadcastTag
  unfold IdentityInfo.broadcastTag at h ⊢
  simp only [hv, broadcastVersion_eq_five]
  split_ifs at h ⊢
  · have h32 := length_tag C.toHashes sender.addressVersion sender.stream (sender.ripe C.toHashes)
    have hroom := h.room (show 32 ≤ (_ ++ rest).length by rw [List.length_append, h32]; omega)
    rw [result_bind_of_result hroom, result_bind_of_result (h.bytes h32)]
    exact result_require_eq_some.mpr ⟨rfl, rfl⟩
  · rfl

theorem decodedBroadcast_buildBroadcast {seed out address : Bytes} {sender : IdentityInfo} {subject text : CString}
    {nonce expires : ℕ} (hn : nonce < wordSize) (he : expires < wordSize) (hpos : 0 < sender.addressVersion)
    (haddress : sender.address C.toHashes = some address) (hsign : SignsFor C sender) (hkeys : KeysOpen C)
    (hline : (0x0a : UInt8) ∉ subject.bytes) (hsubject : subject.bytes.length ≤ 500)
    (hbuild : buildBroadcast C seed sender (sender.ripe C.toHashes) subject text expires = some out)
    (hobject : object.bytes = packBe64 nonce ++ out) :
    decodedBroadcast C.toCrypto (sender.candidate C.toHashes) object =
      some ⟨sender.addressVersion, sender.stream, address, subject.bytes, text.bytes⟩ := by
  simp only [buildBroadcast, Option.bind_eq_bind, Option.bind_eq_some_iff] at hbuild
  obtain ⟨pub, hpub, hbuild⟩ := hbuild
  obtain ⟨sig, ciphertext, hsig, hcipher, rfl⟩ := signAndEncrypt_eq_some hbuild
  have hversion : broadcastVersion sender < wordSize := by
    unfold broadcastVersion
    split_ifs <;> norm_num
  rw [List.append_assoc] at hobject
  obtain ⟨hdr, hfront⟩ := exists_objectFront hn he (by decide) hversion sender.stream_lt hobject
  obtain ⟨body, hopen, hbody⟩ := hkeys _ _ hpub _ _ _ hcipher
  have htag : object.Rest hdr.headerLen (sender.broadcastTag C.toHashes ++ ciphertext) := hfront.behind
  have hlen := length_broadcastTag C.toHashes hfront.version_eq
  have htagSlice := htag.slice
  have hbehind := htag.append
  rw [hlen] at htagSlice hbehind
  have hplain : broadcastPlaintext C.toCrypto (sender.candidate C.toHashes) hdr object = some body := by
    rw [broadcastPlaintext, hbehind.slice_all]
    exact hopen
  have hverify := hsign _ _ _ hsig
  rw [← hfront.signed, show (if 4 ≤ sender.addressVersion then _ else _) = _ from htagSlice.symm] at hverify
  have hripe : addressCalcRipe C.toHashes sender.pubSigning.bytes sender.pubEncryption.bytes =
      (sender.candidate C.toHashes).ripe := rfl
  obtain ⟨q, hresult⟩ := result_trialDecryptBroadcastBody (p := hdr.headerLen + broadcastTagLen hdr) hpos haddress
    hripe hline hsubject hbody hverify
  have hkind : hdr.version = 4 ∨ hdr.version = 5 := by
    rw [hfront.version_eq, broadcastVersion]
    split_ifs <;> simp
  unfold decodedBroadcast trialDecryptBroadcast
  rw [result_bind_of_result hfront.parsed, result_require_bind ⟨hfront.objectType_eq, hkind⟩,
    result_bind_of_result (checkBroadcastTag_of_rest hfront.version_eq htag), hlen,
    result_bind_of_result (result_get _), result_emit_bind, hplain]
  dsimp only
  rw [hresult, Option.map_some]

/-! ### Public keys -/

/-- The fields of a public key, the signature last. -/
theorem result_pubkeyFields {id : IdentityInfo} {sig : Bytes}
    (hbody : body.bytes = id.keyFields ++ id.difficultyFields ++ varbytes sig) :
    ∃ f q, (pubkeyFields body).result p = some (f, q) ∧ f.bitfield = behaviorBitfield id.doesAck ∧
      f.signing = id.pubSigning.bytes ∧ f.encryption = id.pubEncryption.bytes ∧
      f.nonceTrials = id.nonceTrialsPerByte ∧ f.extraBytes = id.payloadLengthExtraBytes ∧
      body.slice 0 f.presigOffset = id.keyFields ++ id.difficultyFields ∧ body.slice f.sig.1 f.sig.2 = sig := by
  have hsigned := Buf.Rest.slice_front hbody
  have h₀ := Buf.rest_zero hbody
  have hroom := h₀.room (show 4 + 64 + 64 ≤ (id.keyFields ++ id.difficultyFields ++ varbytes sig).length by
    rw [List.length_append, List.length_append, length_keyFields]; omega)
  have hpresig : 0 + (bitfieldBytes id.doesAck).length + (pubkey64 id.pubSigning).length +
      (pubkey64 id.pubEncryption).length + (varintEncode id.nonceTrialsPerByte).length +
      (varintEncode id.payloadLengthExtraBytes).length = (id.keyFields ++ id.difficultyFields).length := by
    simp only [IdentityInfo.keyFields, IdentityInfo.difficultyFields, List.length_append]
    omega
  simp only [IdentityInfo.keyFields, IdentityInfo.difficultyFields, List.append_assoc] at h₀
  have h₁ := h₀.append
  have h₂ := h₁.append
  have h₃ := h₂.append
  have h₄ := h₃.append
  have h₅ := h₄.append
  have hsig := slice_signature h₅
  unfold pubkeyFields
  rw [result_bind_of_result (result_set _ _), result_bind_of_result hroom,
    result_bind_of_result (bitfield_of_rest h₀),
    result_bind_of_result (h₁.bytes (length_pubkey64 _)), result_bind_of_result (h₂.bytes (length_pubkey64 _)),
    result_bind_of_result (h₃.varint id.nonceTrialsPerByte_lt),
    result_bind_of_result (h₄.varint id.payloadLengthExtraBytes_lt), result_bind_of_result (result_get _),
    result_signature_bind h₅, result_pure]
  rw [hpresig] at hsig ⊢
  exact ⟨_, _, rfl, rfl, uncompressed_pubkey64 _, uncompressed_pubkey64 _, rfl, rfl, hsigned, hsig⟩

theorem result_checkPubkeySignature_bind {β : Type} {hdr : ObjectHeader} {tagLen : ℕ} {f : PubkeyFields}
    (h : C.verify (object.slice 8 (subW hdr.headerLen 8) ++ object.slice hdr.headerLen tagLen ++
      body.slice 0 f.presigOffset) (body.slice f.sig.1 f.sig.2) f.signing = true) (g : Unit → BufParser β) :
    result (checkPubkeySignature C.toCrypto hdr tagLen object body f >>= g) p = (g ()).result p := by
  unfold checkPubkeySignature
  simp only [seq_assoc]
  rw [result_emit_bind, result_emit_bind, result_emit_bind, result_emit_bind, result_require_bind h]

theorem parsedPubkeyV2_buildPubkeyV2 {id : IdentityInfo} {nonce expires : ℕ} (hn : nonce < wordSize)
    (he : expires < wordSize) (hobject : object.bytes = packBe64 nonce ++ buildPubkeyV2 id expires) :
    parsedPubkey (parsePubkeyV2 C.toCrypto object) = some
      ⟨2, id.stream, id.ripe C.toHashes, List.replicate 32 0, behaviorBitfield id.doesAck, id.pubSigning.bytes,
        id.pubEncryption.bytes, 0, 0⟩ := by
  obtain ⟨hdr, hfront⟩ := exists_objectFront hn he (by decide) (by norm_num) id.stream_lt hobject
  have hsize := hfront.behind.size
  have hw := object.size_lt
  have hremaining : subW object.size hdr.headerLen = 4 + 64 + 64 := by
    rw [subW_of_le (by unfold wordSize; omega) (by omega), hsize, length_keyFields, Nat.add_sub_cancel_left]
  have h₀ := hfront.behind
  rw [IdentityInfo.keyFields] at h₀
  have h₁ := h₀.append
  have h₂ := h₁.append
  rw [← List.append_nil (pubkey64 id.pubEncryption)] at h₂
  unfold parsedPubkey parsePubkeyV2
  rw [result_bind_of_result hfront.parsed, result_require_bind ⟨hfront.objectType_eq, hfront.version_eq⟩,
    result_require_bind hremaining, result_bind_of_result (bitfield_of_rest h₀),
    result_bind_of_result (h₁.bytes (length_pubkey64 _)), result_bind_of_result (h₂.bytes (length_pubkey64 _)),
    result_pure, Option.map_some, hfront.stream_eq, uncompressed_pubkey64, uncompressed_pubkey64]
  rfl

theorem parsedPubkeyV3_buildPubkeyV3 {id : IdentityInfo} {seed out : Bytes} {nonce expires : ℕ}
    (hn : nonce < wordSize) (he : expires < wordSize) (hsign : SignsFor C id)
    (hbuild : buildPubkeyV3 C seed id expires = some out) (hobject : object.bytes = packBe64 nonce ++ out) :
    parsedPubkey (parsePubkeyV3 C.toCrypto object) = some
      ⟨3, id.stream, id.ripe C.toHashes, List.replicate 32 0, behaviorBitfield id.doesAck, id.pubSigning.bytes,
        id.pubEncryption.bytes, id.nonceTrialsPerByte, id.payloadLengthExtraBytes⟩ := by
  simp only [buildPubkeyV3, Option.bind_eq_bind, Option.bind_eq_some_iff, Option.pure_def, Option.some.injEq] at hbuild
  obtain ⟨sig, hsig, rfl⟩ := hbuild
  rw [List.append_assoc] at hobject
  obtain ⟨hdr, hfront⟩ := exists_objectFront hn he (by decide) (by norm_num) id.stream_lt hobject
  have hbody := hfront.behind.bytes_suffix
  obtain ⟨f, q, hfields, hbitfield, hsigning, hencryption, htrials, hextra, hsigned, hsigAt⟩ :=
    result_pubkeyFields (p := hdr.headerLen) hbody
  have hverify := hsign _ _ _ hsig
  have hempty : object.slice hdr.headerLen 0 = [] := rfl
  rw [← hfront.signed, ← hsigned, ← hsigAt, ← hsigning, ← List.append_nil (object.slice 8 _), ← hempty] at hverify
  unfold parsedPubkey parsePubkeyV3
  rw [result_bind_of_result hfront.parsed, result_require_bind ⟨hfront.objectType_eq, hfront.version_eq⟩]
  dsimp only
  rw [result_bind_of_result hfields, result_checkPubkeySignature_bind hverify, result_pure, Option.map_some,
    hfront.stream_eq, hbitfield, hsigning, hencryption, htrials, hextra]
  rfl

theorem parsedPubkeyV4_buildPubkeyV4 {id : IdentityInfo} {seed out : Bytes} {nonce expires : ℕ}
    (hn : nonce < wordSize) (he : expires < wordSize) (hsign : SignsFor C id) (hkeys : KeysOpen C)
    (hbuild : buildPubkeyV4 C seed id (id.ripe C.toHashes) expires = some out)
    (hobject : object.bytes = packBe64 nonce ++ out) :
    parsedPubkey (parsePubkeyV4 C.toCrypto ⟨4, id.stream, id.ripe C.toHashes⟩ object) = some
      ⟨4, id.stream, id.ripe C.toHashes, (addressDeriveSecretAndTag C.toHashes 4 id.stream (id.ripe C.toHashes)).2,
        behaviorBitfield id.doesAck, id.pubSigning.bytes, id.pubEncryption.bytes, id.nonceTrialsPerByte,
        id.payloadLengthExtraBytes⟩ := by
  simp only [buildPubkeyV4, Option.bind_eq_bind, Option.bind_eq_some_iff] at hbuild
  obtain ⟨pub, hpub, hbuild⟩ := hbuild
  obtain ⟨sig, ciphertext, hsig, hcipher, rfl⟩ := signAndEncrypt_eq_some hbuild
  rw [List.append_assoc] at hobject
  obtain ⟨hdr, hfront⟩ := exists_objectFront hn he (by decide) (by norm_num) id.stream_lt hobject
  obtain ⟨body, hopen, hbody⟩ := hkeys _ _ hpub _ _ _ hcipher
  have h32 := length_tag C.toHashes 4 id.stream (id.ripe C.toHashes)
  have htag := hfront.behind
  have hroom := htag.room (show 32 ≤ (_ ++ ciphertext).length by rw [List.length_append, h32]; omega)
  have hread := htag.bytes (r := .object) h32
  have htagSlice := htag.slice
  have hbehind := htag.append
  rw [h32] at htagSlice hbehind hread
  have hsub : subW (subW object.size hdr.headerLen) 32 = subW object.size (hdr.headerLen + 32) := by
    have hsize := hbehind.size
    have hw := object.size_lt
    have hlt : object.size < wordSize := by unfold wordSize; omega
    rw [subW_of_le hlt (show hdr.headerLen ≤ object.size by omega), subW_of_le (by omega) (by omega),
      subW_of_le hlt (by omega), Nat.sub_sub]
  have hplain : pubkeyPlaintext C.toCrypto ⟨4, id.stream, id.ripe C.toHashes⟩ hdr object = some body := by
    rw [pubkeyPlaintext, hsub, hbehind.slice_all]
    exact hopen
  obtain ⟨f, q, hfields, hbitfield, hsigning, hencryption, htrials, hextra, hsigned, hsigAt⟩ :=
    result_pubkeyFields (p := hdr.headerLen + 32) hbody
  have hverify := hsign _ _ _ hsig
  rw [← hfront.signed, ← hsigned, ← hsigAt, ← hsigning, ← htagSlice] at hverify
  have hripe : addressCalcRipe C.toHashes f.signing f.encryption = id.ripe C.toHashes := by
    rw [hsigning, hencryption]
    rfl
  unfold parsedPubkey parsePubkeyV4
  rw [result_bind_of_result hfront.parsed, result_require_bind ⟨hfront.objectType_eq, hfront.version_eq⟩,
    result_bind_of_result hroom, result_bind_of_result hread, result_require_bind rfl, result_emit_bind, hplain]
  dsimp only
  unfold parsePubkeyV4Body
  rw [result_bind_of_result hfields, result_checkPubkeySignature_bind hverify, result_require_bind hripe, result_pure,
    Option.map_some, htagSlice, hbitfield, hsigning, hencryption, htrials, hextra]

/-- The objects that a node builds for an identity of version 2 to 4 are read back as they were
put in: the text, the acknowledgement and the sender's address of a message, the text and the
address of a broadcast, and the fields of a public key. -/
theorem objects_round_trip (C : SenderCrypto) (seed : Bytes) (sender : IdentityInfo) (subject text : CString)
    (nonce expires : ℕ) (hversion : 2 ≤ sender.addressVersion ∧ sender.addressVersion ≤ 4)
    (hsign : SignsFor C sender) (hkeys : KeysOpen C) (hline : (0x0a : UInt8) ∉ subject.bytes)
    (hsubject : subject.bytes.length ≤ 500) (hn : nonce < wordSize) (he : expires < wordSize) :
    ∃ address, addressEncode C.toHashes sender.addressVersion sender.stream (sender.ripe C.toHashes) = some address ∧
      (∀ (recipient : UnlockedIdentity) (toPub ackPayload out : Bytes) (toStream : ℕ) (object : Buf),
        toStream < wordSize → recipient.isChan = false → Opens C recipient.privEncryption toPub →
        buildMsg C seed sender toStream recipient.ripe toPub subject text ackPayload expires = some out →
        object.bytes = packBe64 nonce ++ out →
        decodedMsgSingle C.toCrypto recipient object = some
          ⟨sender.addressVersion, sender.stream, address, recipient.address, subject.bytes, text.bytes,
            ackPayload⟩) ∧
      (∀ (out : Bytes) (object : Buf),
        buildBroadcast C seed sender (sender.ripe C.toHashes) subject text expires = some out →
        object.bytes = packBe64 nonce ++ out →
        decodedBroadcast C.toCrypto (sender.candidate C.toHashes) object = some
          ⟨sender.addressVersion, sender.stream, address, subject.bytes, text.bytes⟩) ∧
      (∀ object : Buf, object.bytes = packBe64 nonce ++ buildPubkeyV2 sender expires →
        parsedPubkey (parsePubkeyV2 C.toCrypto object) = some
          ⟨2, sender.stream, sender.ripe C.toHashes, List.replicate 32 0, behaviorBitfield sender.doesAck,
            sender.pubSigning.bytes, sender.pubEncryption.bytes, 0, 0⟩) ∧
      (∀ (out : Bytes) (object : Buf), buildPubkeyV3 C seed sender expires = some out →
        object.bytes = packBe64 nonce ++ out →
        parsedPubkey (parsePubkeyV3 C.toCrypto object) = some
          ⟨3, sender.stream, sender.ripe C.toHashes, List.replicate 32 0, behaviorBitfield sender.doesAck,
            sender.pubSigning.bytes, sender.pubEncryption.bytes, sender.nonceTrialsPerByte,
            sender.payloadLengthExtraBytes⟩) ∧
      (∀ (out : Bytes) (object : Buf), buildPubkeyV4 C seed sender (sender.ripe C.toHashes) expires = some out →
        object.bytes = packBe64 nonce ++ out →
        parsedPubkey (parsePubkeyV4 C.toCrypto ⟨4, sender.stream, sender.ripe C.toHashes⟩ object) = some
          ⟨4, sender.stream, sender.ripe C.toHashes,
            (addressDeriveSecretAndTag C.toHashes 4 sender.stream (sender.ripe C.toHashes)).2,
            behaviorBitfield sender.doesAck, sender.pubSigning.bytes, sender.pubEncryption.bytes,
            sender.nonceTrialsPerByte, sender.payloadLengthExtraBytes⟩) := by
  have hpos : 0 < sender.addressVersion := by omega
  obtain ⟨address, haddress⟩ := exists_address C.toHashes hpos
  refine ⟨address, haddress, ?_, ?_, ?_, ?_, ?_⟩
  · intro recipient toPub ackPayload out toStream object ht hchan hopens hbuild hobject
    exact decodedMsgSingle_buildMsg hn he ht hpos haddress hsign hopens hchan hline hsubject hbuild hobject
  · intro out object hbuild hobject
    exact decodedBroadcast_buildBroadcast hn he hpos haddress hsign hkeys hline hsubject hbuild hobject
  · exact fun object hobject => parsedPubkeyV2_buildPubkeyV2 hn he hobject
  · exact fun out object hbuild hobject => parsedPubkeyV3_buildPubkeyV3 hn he hsign hbuild hobject
  · exact fun out object hbuild hobject => parsedPubkeyV4_buildPubkeyV4 hn he hsign hkeys hbuild hobject

end

/-! ### A greeting -/

/-- The library without secrets, for a sender. -/
def plainSender : SenderCrypto where
  toCrypto := plainCrypto
  sign _ _ _ := some [0x30]
  eciesEncrypt _ plaintext _ := if plaintext.length < 2 ^ 63 then some plaintext else none
  getPublicKey priv := some (uncompressed (priv ++ priv))

/-- An identity of version 4. -/
def greeter : IdentityInfo where
  addressVersion := 4
  stream := 1
  pubSigning := ⟨List.replicate 64 1, rfl⟩
  pubEncryption := ⟨List.replicate 64 2, rfl⟩
  privSigning := List.replicate 32 3
  nonceTrialsPerByte := 1000
  payloadLengthExtraBytes := 1000
  doesAck := true
  addressVersion_lt := by decide
  stream_lt := one_lt_wordSize
  nonceTrialsPerByte_lt := thousand_lt_wordSize
  payloadLengthExtraBytes_lt := thousand_lt_wordSize

/-- `Hi`. -/
def greeting : CString := ⟨[0x48, 0x69], by simp⟩

/-- The greeting as a message to the recipient. -/
def greetingOut : Bytes :=
  (buildMsg plainSender [] greeter 1 recipient.ripe [] greeting greeting [7] 100).getD []

/-- The greeting with a nonce. -/
def greetingObject : Buf := Buf.ofBytes (packBe64 5 ++ greetingOut) (by decide +kernel)

theorem plainSender_opens (priv pub : Bytes) : Opens plainSender priv pub := by
  intro seed plaintext ciphertext h
  simp only [plainSender] at h
  split at h
  · next hlen =>
    cases h
    refine ⟨Buf.ofBytes plaintext hlen, ?_, ?_⟩
    · simp only [plainSender, plainCrypto, hlen, dite_true]
    · exact Buf.bytes_ofBytes plaintext hlen
  · cases h

theorem greeting_round_trip :
    buildMsg plainSender [] greeter 1 recipient.ripe [] greeting greeting [7] 100 = some greetingOut ∧
    ∃ address, decodedMsgSingle plainCrypto recipient greetingObject =
      some ⟨4, 1, address, recipient.address, greeting.bytes, greeting.bytes, [7]⟩ := by
  have hbuild : buildMsg plainSender [] greeter 1 recipient.ripe [] greeting greeting [7] 100 = some greetingOut := by
    decide +kernel
  obtain ⟨address, -, hmsg, -⟩ := objects_round_trip plainSender [] greeter greeting greeting 5 100 (by decide)
    (fun _ _ _ _ => rfl) (fun priv pub _ => plainSender_opens priv pub) (by decide) (by decide) (by norm_num)
    (by norm_num)
  refine ⟨hbuild, address, hmsg recipient [] [7] greetingOut 1 greetingObject (by norm_num) rfl
    (plainSender_opens _ _) hbuild ?_⟩
  exact Buf.bytes_ofBytes _ _

end Bitmessage
