import Bitmessage.Core.MinedObject
import Bitmessage.Infra.Message

/-! How large a message or broadcast becomes. The interface looks only at the lengths of the
subject and the body; the object adds its header, the sender's keys and difficulty, the
packet with the acknowledgement, the signature, and what encryption adds. The size of the
acknowledgement and of the signature is random, so an object fits if its largest size does. -/

namespace Bitmessage

/-- `BM_MAX_SUBJECT_PLUS_BODY_LEN` and `BM_PQ_MAX_SUBJECT_PLUS_BODY_LEN`. -/
def maxSubjectPlusBodyLen : ℕ := 2 ^ 18 - 500
def pqMaxSubjectPlusBodyLen : ℕ := 2 ^ 18 - 9000

/-- `check_subject_body_length`. -/
def checkSubjectBodyLength (subject body : CString) (limit : ℕ) : Bool :=
  decide (subject.bytes.length + body.bytes.length ≤ limit)

/-- The output of `bm_crypto_ecies_encrypt`: the IV, the ephemeral key, the padded text and the MAC. -/
def eciesLength (plaintextLen : ℕ) : ℕ := 16 + 70 + (plaintextLen / 16 + 1) * 16 + 32

/-- The longest DER signature. -/
def maxSignatureLen : ℕ := 72

/-- The sizes of what the crypto library returns. -/
structure SenderCrypto.Sized (S : SenderCrypto) : Prop where
  sign : ∀ seed data priv sig, S.sign seed data priv = some sig → sig.length ≤ maxSignatureLen
  ecies : ∀ seed plaintext pub ciphertext, S.eciesEncrypt seed plaintext pub = some ciphertext →
    ciphertext.length = eciesLength plaintext.length

/-- `bm_pqv5_seal` adds a fixed number of bytes. -/
def PqCrypto.Sized (P : PqCrypto) : Prop :=
  ∀ seed pk aad plaintext sealed, P.pqv5Seal seed pk aad plaintext = some sealed →
    sealed.length = plaintext.length + pqv5SealOverhead

/-- The random part of an acknowledgement: 32 bytes, on level 2 the ciphertext of a dummy of 234 to
800 bytes. -/
def AckRandom (stealthLevel : ℤ) (data : Bytes) : Prop :=
  if stealthLevel = 2 then ∃ dummyLen, 234 ≤ dummyLen ∧ dummyLen ≤ 800 ∧ data.length = eciesLength dummyLen
  else data.length = 32

/-- What is embedded in a message: the acknowledgement object in a packet, and nothing in a message
to oneself. -/
def AckPacket (isSelf : Bool) (stealthLevel : ℤ) (stream : ℕ) (ackPacket : Bytes) : Prop :=
  if isSelf then ackPacket = []
  else ∃ (H : Hashes) (testnet : Bool) (data : Bytes) (expires nonce : ℕ), AckRandom stealthLevel data ∧
    ackPacket = createPacket H (magicBytes testnet) [0x6f, 0x62, 0x6a, 0x65, 0x63, 0x74]
      (buildObject (packBe64 expires ++ buildAckObject stealthLevel stream data) nonce)

/-- The length of a text. -/
def textLength (subject body : CString) : ℕ := 8 + subject.bytes.length + 6 + body.bytes.length

/-- The length of the packet with the largest acknowledgement. -/
def maxAckLength (isSelf : Bool) (stealthLevel : ℤ) (stream : ℕ) : ℕ :=
  if isSelf then 0
  else 24 + 8 + 8 + 4 + 1 + varintSize stream + if stealthLevel = 2 then eciesLength 800 else 32

/-- The length of the sender in front of a text. -/
def senderFieldsLength (sender : IdentityInfo) : ℕ :=
  varintSize sender.addressVersion + varintSize sender.stream + 4 + 64 + 64 +
    if 3 ≤ sender.addressVersion then
      varintSize sender.nonceTrialsPerByte + varintSize sender.payloadLengthExtraBytes
    else 0

/-- The size of a finished message with an acknowledgement and a signature of given lengths. -/
def msgSize (sender : IdentityInfo) (toStream : ℕ) (subject body : CString) (ackLen sigLen : ℕ) : ℕ :=
  8 + (8 + 4 + 1 + varintSize toStream) +
    eciesLength (senderFieldsLength sender + 20 + (1 + varintSize (textLength subject body) + textLength subject body) +
      (varintSize ackLen + ackLen) + (varintSize sigLen + sigLen))

/-- The largest size of a finished message. -/
def maxMsgSize (sender : IdentityInfo) (toStream : ℕ) (isSelf : Bool) (stealthLevel : ℤ) (subject body : CString) : ℕ :=
  msgSize sender toStream subject body (maxAckLength isSelf stealthLevel toStream) maxSignatureLen

/-! ### Lengths -/

theorem varintSize_mono {m n : ℕ} (h : m ≤ n) : varintSize m ≤ varintSize n := by
  unfold varintSize
  split_ifs <;> omega

theorem eciesLength_mono {m n : ℕ} (h : m ≤ n) : eciesLength m ≤ eciesLength n := by
  unfold eciesLength
  omega

theorem msgSize_mono (sender : IdentityInfo) (toStream : ℕ) (subject body : CString) {a a' b b' : ℕ} (ha : a ≤ a')
    (hb : b ≤ b') : msgSize sender toStream subject body a b ≤ msgSize sender toStream subject body a' b' := by
  have ha' := varintSize_mono ha
  have hb' := varintSize_mono hb
  exact Nat.add_le_add_left (eciesLength_mono (by omega)) _

theorem length_simpleText (subject body : CString) : (simpleText subject body).length = textLength subject body := by
  simp only [simpleText, subjectMarker, bodyNeedle, textLength, List.length_append, List.length_cons, List.length_nil]
  omega

theorem length_varbytes (data : Bytes) : (varbytes data).length = varintSize data.length + data.length := by
  rw [varbytes, List.length_append, length_varintEncode]

theorem length_simpleEncodedMessage (subject body : CString) : (simpleEncodedMessage subject body).length =
    1 + varintSize (textLength subject body) + textLength subject body := by
  rw [simpleEncodedMessage, List.length_append, length_varbytes, length_simpleText, length_varintEncode]
  have : varintSize 2 = 1 := rfl
  omega

theorem length_senderFields (sender : IdentityInfo) : sender.senderFields.length = senderFieldsLength sender := by
  have hs := sender.pubSigning.length_coordinates
  have he := sender.pubEncryption.length_coordinates
  simp only [IdentityInfo.senderFields, IdentityInfo.keyFields, IdentityInfo.difficultyFields, bitfieldBytes, pubkey64,
    PublicKey.bytes, uncompressed, senderFieldsLength, List.length_append, length_varintEncode, Radix.length_beBytes,
    List.length_take, List.length_drop, List.length_cons, hs, he]
  split_ifs
  · simp only [List.length_append, length_varintEncode]
    omega
  · simp only [List.length_nil]
    omega

theorem length_commonHeader (expires type version stream : ℕ) :
    (commonHeader expires type version stream).length = 8 + 4 + varintSize version + varintSize stream := by
  simp only [commonHeader, packBe64, List.length_append, Radix.length_beBytes, length_varintEncode]
  omega

theorem length_buildObject (payload : Bytes) (nonce : ℕ) : (buildObject payload nonce).length = 8 + payload.length := by
  simp [buildObject, packBe64]

theorem length_signAndEncrypt {S : SenderCrypto} (hS : S.Sized) {seed plain fields pub out : Bytes} {id : IdentityInfo}
    (h : signAndEncrypt S seed id plain fields pub = some out) :
    ∃ data sig, S.sign seed data id.privSigning = some sig ∧
      out.length = plain.length + eciesLength (fields.length + (varintSize sig.length + sig.length)) := by
  obtain ⟨sig, ciphertext, hsig, hcipher, rfl⟩ := signAndEncrypt_eq_some h
  refine ⟨_, sig, hsig, ?_⟩
  rw [List.length_append, hS.ecies _ _ _ _ hcipher, List.length_append, length_varbytes]

/-- The size of a finished message. -/
theorem length_buildMsg {S : SenderCrypto} (hS : S.Sized) {seed toRipe pub ackPacket payload : Bytes}
    {sender : IdentityInfo} {toStream expires : ℕ} {subject body : CString} (hripe : toRipe.length = 20) (nonce : ℕ)
    (h : buildMsg S seed sender toStream toRipe pub subject body ackPacket expires = some payload) :
    ∃ data sig, S.sign seed data sender.privSigning = some sig ∧
      (buildObject payload nonce).length = msgSize sender toStream subject body ackPacket.length sig.length := by
  obtain ⟨data, sig, hsig, hlen⟩ := length_signAndEncrypt hS h
  refine ⟨data, sig, hsig, ?_⟩
  have hfields : (sender.senderFields ++ (toRipe ++ (simpleEncodedMessage subject body ++ varbytes ackPacket))).length =
      senderFieldsLength sender + 20 + (1 + varintSize (textLength subject body) + textLength subject body) +
        (varintSize ackPacket.length + ackPacket.length) := by
    simp only [List.length_append, length_senderFields, hripe, length_simpleEncodedMessage, length_varbytes]
    omega
  rw [length_buildObject, hlen, length_commonHeader, hfields, msgSize, ← Nat.add_assoc]
  rfl

theorem length_buildAckObject_eq (stealthLevel : ℤ) (stream : ℕ) (data : Bytes) :
    (buildAckObject stealthLevel stream data).length = 4 + 1 + varintSize stream + data.length := by
  have h₁ : varintSize 1 = 1 := rfl
  have h₄ : varintSize 4 = 1 := rfl
  unfold buildAckObject
  split_ifs <;> simp only [List.length_append, Radix.length_beBytes, length_varintEncode] <;> omega

theorem AckRandom.length_le {stealthLevel : ℤ} {data : Bytes} (h : AckRandom stealthLevel data) :
    data.length ≤ if stealthLevel = 2 then eciesLength 800 else 32 := by
  unfold AckRandom at h
  split_ifs at h ⊢
  · obtain ⟨dummyLen, -, hle, hlen⟩ := h
    rw [hlen]
    exact eciesLength_mono hle
  · exact h.le

theorem AckPacket.length_le {isSelf : Bool} {stealthLevel : ℤ} {stream : ℕ} {ackPacket : Bytes}
    (h : AckPacket isSelf stealthLevel stream ackPacket) : ackPacket.length ≤ maxAckLength isSelf stealthLevel stream := by
  cases isSelf with
  | true =>
    have : ackPacket = [] := h
    simp [this]
  | false =>
    obtain ⟨H, testnet, data, expires, nonce, hrandom, rfl⟩ := h
    have hdata := hrandom.length_le
    rw [length_createPacket, length_buildObject, List.length_append, length_buildAckObject_eq, packBe64,
      Radix.length_beBytes, messageHeaderSize]
    simp only [maxAckLength, Bool.false_eq_true, if_false]
    omega

/-! ### What fits -/

section

variable (sender : IdentityInfo) (dest : Destination) (isSelf : Bool) (stealthLevel : ℤ) (subject body : CString)

/-- Whatever the signature and the acknowledgement are, the finished message is accepted by its size. -/
def MsgFits : Prop :=
  ∀ (S : SenderCrypto) (seed pubEncryption ackPacket payload : Bytes) (expires nonce : ℕ), S.Sized →
    AckPacket isSelf stealthLevel dest.stream ackPacket →
    buildMsg S seed sender dest.stream dest.hash pubEncryption subject body ackPacket expires = some payload →
    (buildObject payload nonce).length ≤ maxObjectPayloadSize

def BroadcastFits (ripe : Bytes) : Prop :=
  ∀ (S : SenderCrypto) (seed payload : Bytes) (expires nonce : ℕ), S.Sized →
    buildBroadcast S seed sender ripe subject body expires = some payload →
    (buildObject payload nonce).length ≤ maxObjectPayloadSize

def PqMsgFits (pqSender : PqSenderInfo) : Prop :=
  ∀ (P : PqCrypto) (M : Allocator) (seed kemPk ackPacket : Bytes) (built : PqBuilt) (expires nonce : ℕ), P.Sized →
    AckPacket isSelf stealthLevel dest.stream ackPacket →
    pqBuildMsg P seed M pqSender dest.stream dest.hash kemPk 2 (simpleText subject body) ackPacket expires = some built →
    (buildObject built.out nonce).length ≤ maxObjectPayloadSize

def PqBroadcastFits (pqSender : PqSenderInfo) : Prop :=
  ∀ (P : PqCrypto) (M : Allocator) (seed : Bytes) (built : PqBuilt) (expires nonce : ℕ), P.Sized →
    pqBuildBroadcast P seed M pqSender 2 (simpleText subject body) expires = some built →
    (buildObject built.out nonce).length ≤ maxObjectPayloadSize

end

/-- A library with signatures of the largest length. -/
def longestSender : SenderCrypto where
  toCrypto := plainCrypto
  sign _ _ _ := some (List.replicate 72 0)
  eciesEncrypt _ plaintext _ := some (List.replicate (eciesLength plaintext.length) 0)
  getPublicKey _ := none

theorem longestSender_sized : longestSender.Sized where
  sign seed data priv sig h := by
    cases h
    simp [maxSignatureLen]
  ecies seed plaintext pub ciphertext h := by
    cases h
    simp

/-- The largest acknowledgement can occur. -/
theorem exists_ackPacket (isSelf : Bool) (stealthLevel : ℤ) (stream : ℕ) :
    ∃ ackPacket, AckPacket isSelf stealthLevel stream ackPacket ∧
      ackPacket.length = maxAckLength isSelf stealthLevel stream := by
  cases isSelf with
  | true => exact ⟨[], rfl, rfl⟩
  | false =>
    set data : Bytes := List.replicate (if stealthLevel = 2 then eciesLength 800 else 32) 0 with hdata
    have hrandom : AckRandom stealthLevel data := by
      unfold AckRandom
      split_ifs with hlevel
      · exact ⟨800, by norm_num, le_rfl, by simp [hdata, hlevel]⟩
      · simp [hdata, hlevel]
    refine ⟨_, ⟨prefixHashes, false, data, 0, 0, hrandom, rfl⟩, ?_⟩
    rw [length_createPacket, length_buildObject, List.length_append, length_buildAckObject_eq, packBe64,
      Radix.length_beBytes, messageHeaderSize, hdata, List.length_replicate]
    simp only [maxAckLength, Bool.false_eq_true, if_false]
    omega

/-- A message fits if and only if its largest size does. -/
theorem msgFits_iff (sender : IdentityInfo) {dest : Destination} (hripe : dest.hash.length = 20) (isSelf : Bool)
    (stealthLevel : ℤ) (subject body : CString) :
    MsgFits sender dest isSelf stealthLevel subject body ↔
      maxMsgSize sender dest.stream isSelf stealthLevel subject body ≤ maxObjectPayloadSize := by
  constructor
  · intro h
    obtain ⟨ackPacket, hack, hlen⟩ := exists_ackPacket isSelf stealthLevel dest.stream
    have hbuild : ∃ payload, buildMsg longestSender [] sender dest.stream dest.hash [] subject body ackPacket 0 =
        some payload := ⟨_, rfl⟩
    obtain ⟨payload, hbuild⟩ := hbuild
    have hfit := h longestSender [] [] ackPacket payload 0 0 longestSender_sized hack hbuild
    obtain ⟨data, sig, hsig, hsize⟩ := length_buildMsg longestSender_sized hripe 0 hbuild
    cases hsig
    rw [hsize, hlen, List.length_replicate] at hfit
    exact hfit
  · intro h S seed pubEncryption ackPacket payload expires nonce hS hack hbuild
    obtain ⟨data, sig, hsig, hsize⟩ := length_buildMsg hS hripe nonce hbuild
    rw [hsize]
    exact (msgSize_mono sender dest.stream subject body hack.length_le (hS.sign _ _ _ _ hsig)).trans h

theorem senderFieldsLength_le (sender : IdentityInfo) : senderFieldsLength sender ≤ 168 := by
  have h₁ := varintSize_le sender.addressVersion
  have h₂ := varintSize_le sender.stream
  have h₃ := varintSize_le sender.nonceTrialsPerByte
  have h₄ := varintSize_le sender.payloadLengthExtraBytes
  unfold senderFieldsLength
  split_ifs <;> omega

theorem varintSize_le_five {n : ℕ} (h : n < 2 ^ 32) : varintSize n ≤ 5 := by
  unfold varintSize
  split_ifs <;> omega

/-- A broadcast of an accepted length always fits. -/
theorem broadcastFits (sender : IdentityInfo) {subject body : CString}
    (hlen : checkSubjectBodyLength subject body maxSubjectPlusBodyLen = true) (ripe : Bytes) :
    BroadcastFits sender subject body ripe := by
  intro S seed payload expires nonce hS hbuild
  simp only [buildBroadcast, Option.bind_eq_bind, Option.bind_eq_some_iff] at hbuild
  obtain ⟨pubEnc, -, hbuild⟩ := hbuild
  obtain ⟨data, sig, hsig, hsize⟩ := length_signAndEncrypt hS hbuild
  have hsig : sig.length ≤ 72 := hS.sign _ _ _ _ hsig
  have htotal : subject.bytes.length + body.bytes.length ≤ 2 ^ 18 - 500 := of_decide_eq_true hlen
  have htext : textLength subject body ≤ 2 ^ 18 - 486 := by
    unfold textLength
    omega
  have htextSize : varintSize (textLength subject body) ≤ 5 := varintSize_le_five (by omega)
  have hsigSize : varintSize sig.length = 1 := by
    rw [varintSize, if_pos (by omega)]
  have htag : (if 4 ≤ sender.addressVersion then
      (addressDeriveSecretAndTag S.toHashes sender.addressVersion sender.stream ripe).2 else []).length ≤ 32 := by
    split_ifs
    · exact (length_tag _ _ _ _).le
    · exact Nat.zero_le _
  have hversion : varintSize (broadcastVersion sender) = 1 := by
    unfold broadcastVersion
    split_ifs <;> rfl
  have hstream := varintSize_le sender.stream
  have hsender := senderFieldsLength_le sender
  rw [length_buildObject, hsize, List.length_append, length_commonHeader, List.length_append, length_senderFields,
    length_simpleEncodedMessage, hversion, hsigSize]
  unfold eciesLength maxObjectPayloadSize
  omega

/-- The size of a sealed object follows from the sizes that the builder computes. -/
theorem length_pqSignAndSeal {P : PqCrypto} (hP : P.Sized) {M : Allocator} {seed kemPk : Bytes} {identity : Pqv5Identity}
    {plainLen innerPresigLen : ℕ} {plain fields : List Bytes} {d : PqDraft} {b : PqBuilt}
    (hplain : plain.flatten.length = plainLen) (hdraft : pqDraft M plainLen innerPresigLen plain fields = some d)
    (h : pqSignAndSeal P seed identity kemPk d = some b) :
    b.out.length = plainLen + (addW (addW innerPresigLen (varintSize pqv5SigLen)) pqv5SigLen + pqv5SealOverhead) := by
  obtain ⟨-, -, hinner, -, -, -, -, hcontents, -⟩ := pqDraft_eq_some hdraft
  obtain ⟨sig, sealed, -, -, hseal, -, rfl⟩ := pqSignAndSeal_cases h
  rw [List.length_append, take_plainLen hplain hdraft, hplain, hP _ _ _ _ _ hseal,
    BoundedWriter.length_contents_putAll, hcontents, hinner]

theorem addW_le (a b : ℕ) : addW a b ≤ a + b := Nat.mod_le _ _

theorem pqSenderFieldsLen_le (sender : PqSenderInfo) : sender.senderFieldsLen ≤ 3240 := by
  have h₁ := varintSize_le sender.identity.version
  have h₂ := varintSize_le sender.identity.stream
  have h₃ := varintSize_le sender.nonceTrialsPerByte
  have h₄ := varintSize_le sender.payloadLengthExtraBytes
  simp only [PqSenderInfo.senderFieldsLen, PqSenderInfo.keyFieldsLen, pqv5SigPkLen, pqv5KemPkLen]
  omega

theorem maxAckLength_le (isSelf : Bool) (stealthLevel : ℤ) (stream : ℕ) :
    maxAckLength isSelf stealthLevel stream ≤ 988 := by
  have := varintSize_le stream
  have hecies : eciesLength 800 = 934 := rfl
  unfold maxAckLength
  split_ifs <;> omega

/-- An accepted text of version 5 leaves room for everything else. -/
theorem pqText_le {subject body : CString} (hlen : checkSubjectBodyLength subject body pqMaxSubjectPlusBodyLen = true) :
    (simpleText subject body).length ≤ 2 ^ 18 - 8986 := by
  have htotal : subject.bytes.length + body.bytes.length ≤ 2 ^ 18 - 9000 := of_decide_eq_true hlen
  rw [length_simpleText, textLength]
  omega

/-- The size of what is sealed, for a given size of the fields in front of the signature. -/
theorem pqInnerLen_le (innerPresigLen : ℕ) :
    addW (addW innerPresigLen (varintSize pqv5SigLen)) pqv5SigLen + pqv5SealOverhead ≤ innerPresigLen + 4512 := by
  have h₁ := addW_le innerPresigLen (varintSize pqv5SigLen)
  have h₂ := addW_le (addW innerPresigLen (varintSize pqv5SigLen)) pqv5SigLen
  have hsize : varintSize pqv5SigLen = 3 := rfl
  have hsig : pqv5SigLen = 3373 := rfl
  have hover : pqv5SealOverhead = 1136 := rfl
  omega

theorem pqMsgFits (pqSender : PqSenderInfo) (dest : Destination) (isSelf : Bool) (stealthLevel : ℤ)
    {subject body : CString} (hlen : checkSubjectBodyLength subject body pqMaxSubjectPlusBodyLen = true) :
    PqMsgFits dest isSelf stealthLevel subject body pqSender := by
  intro P M seed kemPk ackPacket built expires nonce hP hack hbuild
  simp only [pqBuildMsg, Option.bind_eq_bind, Option.bind_eq_some_iff] at hbuild
  obtain ⟨d, hdraft, hbuild⟩ := hbuild
  split at hbuild
  · cases hbuild
  · have hplain : (wObjectHeader expires pqObjectMsg pqMsgObjectVersion dest.stream).flatten.length =
        objectHeaderSize pqMsgObjectVersion dest.stream := by
      simp [wObjectHeader, objectHeaderSize, length_varintEncode]
      omega
    have hsize := length_pqSignAndSeal hP hplain hdraft hbuild
    have htext := pqText_le hlen
    have hackLen := hack.length_le.trans (maxAckLength_le isSelf stealthLevel dest.stream)
    have hheader := objectHeaderSize_le pqMsgObjectVersion dest.stream
    have hsender := pqSenderFieldsLen_le pqSender
    have htextSize : varintSize (simpleText subject body).length ≤ 5 := varintSize_le_five (by omega)
    have hackSize : varintSize ackPacket.length ≤ 5 := varintSize_le_five (by omega)
    have hid : pqv5IdLen = 32 := rfl
    have hencoding : varintSize 2 = 1 := rfl
    rw [length_buildObject, hsize]
    refine le_trans (Nat.add_le_add_left (Nat.add_le_add_left (pqInnerLen_le _) _) _) ?_
    -- each reduced sum is at most the plain one
    have h₁ := addW_le (pqSender.senderFieldsLen + pqv5IdLen + varintSize 2) (varintSize (simpleText subject body).length)
    have h₂ := addW_le (addW (pqSender.senderFieldsLen + pqv5IdLen + varintSize 2)
      (varintSize (simpleText subject body).length)) (simpleText subject body).length
    have h₃ := addW_le (addW (addW (pqSender.senderFieldsLen + pqv5IdLen + varintSize 2)
      (varintSize (simpleText subject body).length)) (simpleText subject body).length) (varintSize ackPacket.length)
    have h₄ := addW_le (addW (addW (addW (pqSender.senderFieldsLen + pqv5IdLen + varintSize 2)
      (varintSize (simpleText subject body).length)) (simpleText subject body).length) (varintSize ackPacket.length))
      ackPacket.length
    unfold maxObjectPayloadSize
    omega

theorem pqBroadcastFits (pqSender : PqSenderInfo) {subject body : CString}
    (hlen : checkSubjectBodyLength subject body pqMaxSubjectPlusBodyLen = true) :
    PqBroadcastFits subject body pqSender := by
  intro P M seed built expires nonce hP hbuild
  simp only [pqBuildBroadcast, Option.bind_eq_bind, Option.bind_eq_some_iff] at hbuild
  obtain ⟨keys, -, d, hdraft, hbuild⟩ := hbuild
  have hsize := length_pqSignAndSeal hP (MinedObject.length_taggedHeader P pqSender.identity _ _ _) hdraft hbuild
  have htext := pqText_le hlen
  have hheader := objectHeaderSize_le pqBroadcastObjectVersion pqSender.identity.stream
  have hsender := pqSenderFieldsLen_le pqSender
  have htextSize : varintSize (simpleText subject body).length ≤ 5 := varintSize_le_five (by omega)
  have hencoding : varintSize 2 = 1 := rfl
  rw [length_buildObject, hsize]
  refine le_trans (Nat.add_le_add_left (Nat.add_le_add_left (pqInnerLen_le _) _) _) ?_
  have h₁ := addW_le (pqSender.senderFieldsLen + varintSize 2) (varintSize (simpleText subject body).length)
  have h₂ := addW_le (addW (pqSender.senderFieldsLen + varintSize 2) (varintSize (simpleText subject body).length))
    (simpleText subject body).length
  unfold maxObjectPayloadSize
  omega

/-- Of the texts that the interface accepts, a broadcast and everything of version 5 fits whatever
the identities, the acknowledgement and the randomness are; a message of the older versions fits
if and only if its largest size is at most the limit. -/
theorem accepted_objects_fit (sender : IdentityInfo) (pqSender : PqSenderInfo) (dest : Destination)
    (hripe : dest.hash.length = 20) (ripe : Bytes) (isSelf : Bool) (stealthLevel : ℤ) (subject body : CString) :
    (checkSubjectBodyLength subject body maxSubjectPlusBodyLen = true →
      (MsgFits sender dest isSelf stealthLevel subject body ↔
        maxMsgSize sender dest.stream isSelf stealthLevel subject body ≤ maxObjectPayloadSize) ∧
      BroadcastFits sender subject body ripe) ∧
    (checkSubjectBodyLength subject body pqMaxSubjectPlusBodyLen = true → ∀ pqDest,
      PqMsgFits pqDest isSelf stealthLevel subject body pqSender ∧ PqBroadcastFits subject body pqSender) :=
  ⟨fun hlen => ⟨msgFits_iff sender hripe isSelf stealthLevel subject body, broadcastFits sender hlen ripe⟩,
    fun hlen pqDest => ⟨pqMsgFits pqSender pqDest isSelf stealthLevel hlen, pqBroadcastFits pqSender hlen⟩⟩

/-! ### The longest text -/

/-- With streams of one byte and a difficulty of three bytes each, every accepted text fits unless
the acknowledgement is of level 2. -/
theorem maxMsgSize_le {sender : IdentityInfo} {toStream : ℕ} {stealthLevel : ℤ} {subject body : CString}
    (hlen : checkSubjectBodyLength subject body maxSubjectPlusBodyLen = true) (hlevel : stealthLevel ≠ 2)
    (hversion : sender.addressVersion ≤ 4) (hfrom : sender.stream < 0xfd) (hto : toStream < 0xfd)
    (htrials : sender.nonceTrialsPerByte ≤ 0xffff) (hextra : sender.payloadLengthExtraBytes ≤ 0xffff) (isSelf : Bool) :
    maxMsgSize sender toStream isSelf stealthLevel subject body ≤ maxObjectPayloadSize := by
  have htotal : subject.bytes.length + body.bytes.length ≤ 2 ^ 18 - 500 := of_decide_eq_true hlen
  have htext : textLength subject body ≤ 2 ^ 18 - 486 := by
    unfold textLength
    omega
  have htextSize : varintSize (textLength subject body) ≤ 5 := varintSize_le_five (by omega)
  have hto' : varintSize toStream = 1 := by rw [varintSize, if_pos hto]
  have hack : maxAckLength isSelf stealthLevel toStream ≤ 78 := by
    unfold maxAckLength
    split_ifs <;> omega
  have hackSize : varintSize (maxAckLength isSelf stealthLevel toStream) = 1 := by rw [varintSize, if_pos (by omega)]
  have hsender : senderFieldsLength sender ≤ 140 := by
    have h₁ : varintSize sender.addressVersion = 1 := by rw [varintSize, if_pos (by omega)]
    have h₂ : varintSize sender.stream = 1 := by rw [varintSize, if_pos hfrom]
    have h₃ : varintSize sender.nonceTrialsPerByte ≤ 3 := (varintSize_mono htrials).trans (by decide)
    have h₄ : varintSize sender.payloadLengthExtraBytes ≤ 3 := (varintSize_mono hextra).trans (by decide)
    unfold senderFieldsLength
    split_ifs <;> omega
  have hsigSize : varintSize maxSignatureLen = 1 := rfl
  unfold maxMsgSize msgSize eciesLength maxObjectPayloadSize
  rw [hto', hackSize, hsigSize]
  unfold maxSignatureLen
  omega

theorem letters_no_nul (n : ℕ) : ∀ x ∈ List.replicate n (0x61 : UInt8), x ≠ 0 := by
  intro x hx
  rw [List.eq_of_mem_replicate hx]
  decide

/-- A text of a given length. -/
def letters (n : ℕ) : CString := ⟨List.replicate n 0x61, letters_no_nul n⟩

theorem length_letters (n : ℕ) : (letters n).bytes.length = n := List.length_replicate

/-- The longest body that is accepted with an empty subject. -/
def longestBody : CString := letters (2 ^ 18 - 500)

/-- The address of `greeter`. -/
def greeterDestination : Destination := ⟨4, 1, List.replicate 20 1, by norm_num, one_lt_wordSize⟩

theorem longestBody_accepted : checkSubjectBodyLength (letters 0) longestBody maxSubjectPlusBodyLen = true := by
  apply decide_eq_true
  rw [longestBody, length_letters, length_letters, Nat.zero_add]
  exact le_rfl

/-- The longest body fits with an acknowledgement of level 1. -/
theorem longestBody_fits : MsgFits greeter greeterDestination false 1 (letters 0) longestBody := by
  have h := (accepted_objects_fit greeter onesSender greeterDestination (by simp [greeterDestination]) [] false 1
    (letters 0) longestBody).1 longestBody_accepted
  exact h.1.mpr (maxMsgSize_le longestBody_accepted (by decide) (by decide) (by decide) (by decide) (by decide)
    (by decide) false)

/-- It does not fit with one of level 2. -/
theorem longestBody_too_long : checkSubjectBodyLength (letters 0) longestBody maxSubjectPlusBodyLen = true ∧
    ¬ MsgFits greeter greeterDestination false 2 (letters 0) longestBody := by
  refine ⟨longestBody_accepted, ?_⟩
  rw [msgFits_iff greeter (by simp [greeterDestination])]
  have htext : textLength (letters 0) longestBody = 2 ^ 18 - 486 := by
    rw [textLength, longestBody, length_letters, length_letters]
    norm_num
  have htextSize : varintSize (2 ^ 18 - 486) = 5 := by decide
  have hack : maxAckLength false 2 greeterDestination.stream = 980 := by decide
  have hackSize : varintSize 980 = 3 := by decide
  have hsigSize : varintSize maxSignatureLen = 1 := by decide
  have hto : varintSize greeterDestination.stream = 1 := by decide
  have hsender : senderFieldsLength greeter = 140 := by decide
  rw [not_le, maxMsgSize, msgSize, htext, htextSize, hack, hackSize, hsigSize, hto, hsender]
  unfold eciesLength maxSignatureLen maxObjectPayloadSize
  norm_num

end Bitmessage
