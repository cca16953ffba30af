import Bitmessage.Lib.BoundedWriter
import Bitmessage.Common.StickyReader
import Bitmessage.Pq.Crypto

/-! Building and parsing the objects of address version 5. A builder computes the sizes of
the header, of the fields that are sealed and of the whole object first, allocates, and
fills the two areas with the bounded writer; the fields are signed together with the
header, and sealed with the header as associated data. A parser repeats the layout with
the bounded reader. -/

namespace Bitmessage

open Traced StickyParser

/-- `PQ_OBJECT_GETPUBKEY`, `PQ_OBJECT_PUBKEY`, `PQ_OBJECT_MSG` and `PQ_OBJECT_BROADCAST`. -/
def pqObjectGetpubkey : ℕ := 0
def pqObjectPubkey : ℕ := 1
def pqObjectMsg : ℕ := 2
def pqObjectBroadcast : ℕ := 3

/-- `object_header_size`. -/
def objectHeaderSize (objectVersion stream : ℕ) : ℕ := 8 + 4 + varintSize objectVersion + varintSize stream

/-! ### Builders -/

/-- The allocations of a builder: `malloc` of the given size, for the header with the sealed part
and for the fields. The memory holds anything; no request above `PTRDIFF_MAX` is served. -/
structure Allocator where
  buf : ℕ → Option Bytes
  inner : ℕ → Option Bytes
  buf_spec : ∀ n mem, buf n = some mem → mem.length = n ∧ n < 2 ^ 63
  inner_spec : ∀ n mem, inner n = some mem → mem.length = n ∧ n < 2 ^ 63

/-- The areas of a builder with the sizes that were computed for them. -/
structure PqDraft where
  plainLen : ℕ
  innerPresigLen : ℕ
  innerLen : ℕ
  total : ℕ
  w : BoundedWriter UInt8
  iw : BoundedWriter UInt8

/-- An object that was built, with the areas it was built in and the size that `bm_pqv5_seal`
reported. -/
structure PqBuilt where
  draft : PqDraft
  sealedLen : ℕ
  out : Bytes

/-- The fields that `w_object_header` writes. -/
def wObjectHeader (expires type objectVersion stream : ℕ) : List Bytes :=
  [Radix.beBytes 8 expires, Radix.beBytes 4 type, varintEncode objectVersion, varintEncode stream]

/-- Compute the sizes, allocate, and write the header and the fields in front of the signature. -/
def pqDraft (M : Allocator) (plainLen innerPresigLen : ℕ) (plain inner : List Bytes) : Option PqDraft := do
  let innerLen := addW (addW innerPresigLen (varintSize pqv5SigLen)) pqv5SigLen
  let total := addW (addW plainLen pqv5SealOverhead) innerLen
  let bufMem ← M.buf total
  let innerMem ← M.inner innerLen
  let w := (BoundedWriter.start bufMem).putAll plain
  let iw := (BoundedWriter.start innerMem).putAll inner
  if w.overflow = true ∨ iw.overflow = true then none
  else some ⟨plainLen, innerPresigLen, innerLen, total, w, iw⟩

variable (C : PqCrypto) (seed : Bytes) (M : Allocator)

/-- Sign, write the signature, and seal. -/
def pqSignAndSeal (identity : Pqv5Identity) (kemPk : Bytes) (d : PqDraft) : Option PqBuilt := do
  let signingMsg := d.w.contents.take d.plainLen ++ d.iw.contents.take d.innerPresigLen
  let sig ← C.pqv5Sign seed signingMsg identity.sigSk
  let iw := d.iw.putAll [varintEncode pqv5SigLen, sig]
  if iw.overflow = true then none
  else do
    let sealed ← C.pqv5Seal seed kemPk (d.w.contents.take d.plainLen) iw.contents
    if addW d.plainLen sealed.length ≠ d.total then none
    else some ⟨{ d with iw := iw }, sealed.length, d.w.contents.take d.plainLen ++ sealed⟩

namespace PqSenderInfo

variable (sender : PqSenderInfo)

/-- The fields of the keys and the difficulty. -/
def keyFields : List Bytes :=
  [Radix.beBytes 4 sender.bitfield, sender.identity.sigPk, sender.identity.kemPk,
    varintEncode sender.nonceTrialsPerByte, varintEncode sender.payloadLengthExtraBytes]

/-- The fields of the sender in front of a text. -/
def senderFields : List Bytes :=
  varintEncode sender.identity.version :: varintEncode sender.identity.stream :: sender.keyFields

/-- `4 + BM_PQV5_SIG_PK_LEN + BM_PQV5_KEM_PK_LEN` and the sizes of the difficulty. -/
def keyFieldsLen : ℕ :=
  4 + pqv5SigPkLen + pqv5KemPkLen + varintSize sender.nonceTrialsPerByte + varintSize sender.payloadLengthExtraBytes

/-- The size of the sender in front of a text. -/
def senderFieldsLen : ℕ :=
  varintSize sender.identity.version + varintSize sender.identity.stream + sender.keyFieldsLen

end PqSenderInfo

/-- `bm_pq_build_getpubkey`. -/
def pqBuildGetpubkey (version stream : ℕ) (id : Bytes) (expires : ℕ) : Option Bytes := do
  let mem ← M.buf (objectHeaderSize pqGetpubkeyObjectVersion stream + 32)
  let w := (BoundedWriter.start mem).putAll
    (wObjectHeader expires pqObjectGetpubkey pqGetpubkeyObjectVersion stream ++
      [(pqv5DeriveSecretAndTag C version stream id).2])
  if w.overflow = true then none else some w.contents

/-- `bm_pq_build_pubkey`. -/
def pqBuildPubkey (sender : PqSenderInfo) (expires : ℕ) : Option PqBuilt := do
  let identity := sender.identity
  let keys ← pqv5AddressKemKeypair C identity.version identity.stream identity.id
  let d ← pqDraft M (objectHeaderSize pqPubkeyObjectVersion identity.stream + 32) sender.keyFieldsLen
    (wObjectHeader expires pqObjectPubkey pqPubkeyObjectVersion identity.stream ++ [identity.candidate.tag C])
    sender.keyFields
  pqSignAndSeal C seed identity keys.1 d

/-- `bm_pq_build_msg`: here the number of bytes written is compared with the size computed. -/
def pqBuildMsg (sender : PqSenderInfo) (toStream : ℕ) (toId toKemPk : Bytes) (encoding : ℕ) (message ack : Bytes)
    (expires : ℕ) : Option PqBuilt := do
  let innerPresigLen := addW (addW (addW (addW (sender.senderFieldsLen + pqv5IdLen + varintSize encoding)
    (varintSize message.length)) message.length) (varintSize ack.length)) ack.length
  let d ← pqDraft M (objectHeaderSize pqMsgObjectVersion toStream) innerPresigLen
    (wObjectHeader expires pqObjectMsg pqMsgObjectVersion toStream)
    (sender.senderFields ++ [toId, varintEncode encoding, varintEncode message.length, message,
      varintEncode ack.length] ++ if 0 < ack.length then [ack] else [])
  if d.iw.written.length ≠ innerPresigLen then none else pqSignAndSeal C seed sender.identity toKemPk d

/-- `bm_pq_build_broadcast`. -/
def pqBuildBroadcast (sender : PqSenderInfo) (encoding : ℕ) (message : Bytes) (expires : ℕ) : Option PqBuilt := do
  let identity := sender.identity
  let keys ← pqv5AddressKemKeypair C identity.version identity.stream identity.id
  let d ← pqDraft M (objectHeaderSize pqBroadcastObjectVersion identity.stream + 32)
    (addW (addW (sender.senderFieldsLen + varintSize encoding) (varintSize message.length)) message.length)
    (wObjectHeader expires pqObjectBroadcast pqBroadcastObjectVersion identity.stream ++ [identity.candidate.tag C])
    (sender.senderFields ++ [varintEncode encoding, varintEncode message.length, message])
  pqSignAndSeal C seed identity keys.1 d

/-! ### Parsers -/

/-- `struct bm_pq_pubkey_parsed`. -/
structure PqPubkeyParsed where
  addressVersion : ℕ
  stream : ℕ
  bitfield : ℕ
  sigPk : Bytes
  kemPk : Bytes
  nonceTrialsPerByte : ℕ
  payloadLengthExtraBytes : ℕ

/-- `struct bm_pq_msg_parsed`. -/
structure PqMsgParsed where
  fromAddressVersion : ℕ
  fromStream : ℕ
  bitfield : ℕ
  fromSigPk : Bytes
  fromKemPk : Bytes
  nonceTrialsPerByte : ℕ
  payloadLengthExtraBytes : ℕ
  toId : Bytes
  fromId : Bytes
  encoding : ℕ
  message : Bytes
  ack : Bytes

/-- `struct bm_pq_broadcast_parsed`. -/
structure PqBroadcastParsed where
  fromAddressVersion : ℕ
  fromStream : ℕ
  bitfield : ℕ
  fromSigPk : Bytes
  fromKemPk : Bytes
  nonceTrialsPerByte : ℕ
  payloadLengthExtraBytes : ℕ
  fromId : Bytes
  encoding : ℕ
  message : Bytes

/-- The bitfield, the keys and the difficulty. -/
structure PqKeyFields where
  bitfield : ℕ
  sigPk : Bytes
  kemPk : Bytes
  nonceTrialsPerByte : ℕ
  payloadLengthExtraBytes : ℕ

/-- Open what is sealed behind `plainLen` bytes of header. -/
def pqOpen (sk : Bytes) (plainLen : ℕ) (object : Buf) : Option Buf :=
  C.pqv5Open sk (object.slice 8 plainLen) (object.slice (8 + plainLen) (subW (subW object.size 8) plainLen))

/-- The plaintext of an object with a tag, under the key of the candidate's address. -/
def pqTaggedInner (objectVersion : ℕ) (candidate : PqCandidate) (object : Buf) : Option Buf :=
  (pqv5AddressKemKeypair C candidate.version candidate.stream candidate.id).bind fun keys =>
    pqOpen C keys.2 (objectHeaderSize objectVersion candidate.stream + 32) object

/-- The accesses of `bm_pqv5_open` to the object. -/
def pqOpenAccess (plainLen : ℕ) (object : Buf) : StickyParser Unit := do
  emit (.read .object 8 plainLen)
  emit (.read .object (8 + plainLen) (subW (subW object.size 8) plainLen))

/-- The part that `bm_pq_parse_pubkey` and `bm_pq_parse_broadcast` have in common: the size of the
header follows from the candidate's stream, the tag behind it is compared, and the rest is
opened. The reader then stands at the start of the plaintext. -/
def pqOpenTagged (objectVersion : ℕ) (candidate : PqCandidate) (object : Buf) : StickyParser Buf := do
  require (8 ≤ object.size)
  let plainLen := objectHeaderSize objectVersion candidate.stream + 32
  require (addW (addW 8 plainLen) pqv5SealOverhead ≤ object.size)
  emit (.read .object (8 + plainLen - 32) 32)
  require (object.slice (8 + plainLen - 32) 32 = candidate.tag C)
  pqOpenAccess plainLen object
  match pqTaggedInner C objectVersion candidate object with
  | none => stop
  | some inner => do
    set ⟨0, false⟩
    pure inner

/-- The fields of the keys. -/
def pqKeyFields (inner : Buf) : StickyParser PqKeyFields := do
  let bitfield ← rU32 .body inner
  let sigPk ← rBytes .body inner pqv5SigPkLen
  let kemPk ← rBytes .body inner pqv5KemPkLen
  let nonceTrialsPerByte ← rVarint .body inner
  let payloadLengthExtraBytes ← rVarint .body inner
  pure ⟨bitfield, sigPk, kemPk, nonceTrialsPerByte, payloadLengthExtraBytes⟩

/-- A length, with the check that as many bytes are left. -/
def pqLength (inner : Buf) : StickyParser ℕ := do
  let lenField ← rVarint .body inner
  let s ← get
  require (s.error = false ∧ lenField ≤ subW inner.size s.p)
  emit (.slice .body s.p lenField)
  pure lenField

/-- The signature behind the cursor, and its check over the header and the fields up to the
cursor. -/
def pqCheckSignature (plainLen : ℕ) (object inner : Buf) (sigPk : Bytes) : StickyParser Unit := do
  let presig ← get
  let sigLenField ← rVarint .body inner
  let s ← get
  require (s.error = false ∧ sigLenField = pqv5SigLen)
  let sig ← rBytes .body inner pqv5SigLen
  let s ← get
  require (s.error = false)
  emit (.read .object 8 plainLen)
  emit (.read .body 0 presig.p)
  require (C.pqv5Verify (object.slice 8 plainLen ++ inner.slice 0 presig.p) sig sigPk = true)

/-- `bm_pq_parse_pubkey`. -/
def pqParsePubkey (candidate : PqCandidate) (object : Buf) : StickyParser PqPubkeyParsed := do
  let inner ← pqOpenTagged C pqPubkeyObjectVersion candidate object
  let keys ← pqKeyFields inner
  pqCheckSignature C (objectHeaderSize pqPubkeyObjectVersion candidate.stream + 32) object inner keys.sigPk
  require (pqv5CalcId C keys.sigPk keys.kemPk = candidate.id)
  pure ⟨candidate.version, candidate.stream, keys.bitfield, keys.sigPk, keys.kemPk, keys.nonceTrialsPerByte,
    keys.payloadLengthExtraBytes⟩

/-- The acknowledgement, which is read only if it has bytes. -/
def pqAck (inner : Buf) (ackLen : ℕ) : StickyParser Bytes :=
  if 0 < ackLen then rBytes .body inner ackLen else pure []

/-- The part of `bm_pq_parse_msg` that works on the plaintext. -/
def pqParseMsgInner (plainLen : ℕ) (object inner : Buf) : StickyParser PqMsgParsed := do
  set ⟨0, false⟩
  let version ← rVarint .body inner
  let stream ← rVarint .body inner
  let keys ← pqKeyFields inner
  let toId ← rBytes .body inner pqv5IdLen
  let encoding ← rVarint .body inner
  let messageLen ← pqLength inner
  let message ← rBytes .body inner messageLen
  let ackLen ← pqLength inner
  let ack ← pqAck inner ackLen
  pqCheckSignature C plainLen object inner keys.sigPk
  pure ⟨version, stream, keys.bitfield, keys.sigPk, keys.kemPk, keys.nonceTrialsPerByte,
    keys.payloadLengthExtraBytes, toId, pqv5CalcId C keys.sigPk keys.kemPk, encoding, message, ack⟩

/-- The part of `bm_pq_parse_msg` behind the header. -/
def pqParseMsgSealed (kemSk : Bytes) (object : Buf) (plainLen : ℕ) : StickyParser PqMsgParsed := do
  require (addW (addW 8 plainLen) pqv5SealOverhead ≤ object.size)
  pqOpenAccess plainLen object
  match pqOpen C kemSk plainLen object with
  | none => stop
  | some inner => pqParseMsgInner C plainLen object inner

/-- `bm_pq_parse_msg`. The size of the header is read off the object. -/
def pqParseMsg (kemSk : Bytes) (object : Buf) : StickyParser PqMsgParsed := do
  require (8 + 12 ≤ object.size)
  set ⟨8 + 8 + 4, false⟩
  let version ← rVarint .object object
  let s ← get
  require (version = pqMsgObjectVersion ∧ s.error = false)
  let _ ← rVarint .object object
  let s ← get
  require (s.error = false)
  pqParseMsgSealed C kemSk object (subW s.p 8)

/-- `bm_pq_parse_broadcast`. -/
def pqParseBroadcast (candidate : PqCandidate) (object : Buf) : StickyParser PqBroadcastParsed := do
  let inner ← pqOpenTagged C pqBroadcastObjectVersion candidate object
  let version ← rVarint .body inner
  let stream ← rVarint .body inner
  let keys ← pqKeyFields inner
  let encoding ← rVarint .body inner
  let messageLen ← pqLength inner
  let message ← rBytes .body inner messageLen
  pqCheckSignature C (objectHeaderSize pqBroadcastObjectVersion candidate.stream + 32) object inner keys.sigPk
  require (pqv5CalcId C keys.sigPk keys.kemPk = candidate.id)
  pure ⟨version, stream, keys.bitfield, keys.sigPk, keys.kemPk, keys.nonceTrialsPerByte,
    keys.payloadLengthExtraBytes, pqv5CalcId C keys.sigPk keys.kemPk, encoding, message⟩

/-- The state of the reader before a parser starts it. -/
def rbufInit : RBuf := ⟨0, false⟩

/-- What a parser returns. -/
def pqParsed {α : Type} (parser : StickyParser α) : Option α := (parser.result rbufInit).map Prod.fst

/-! ### The size of the header -/

theorem objectHeaderSize_le (objectVersion stream : ℕ) : objectHeaderSize objectVersion stream ≤ 30 := by
  have h₁ := varintSize_le objectVersion
  have h₂ := varintSize_le stream
  unfold objectHeaderSize
  omega

/-- The size of the header with the tag behind it. -/
theorem addW_taggedLen (objectVersion stream : ℕ) :
    addW (addW 8 (objectHeaderSize objectVersion stream + 32)) pqv5SealOverhead =
      8 + (objectHeaderSize objectVersion stream + 32) + pqv5SealOverhead := by
  have hle := objectHeaderSize_le objectVersion stream
  have hover : pqv5SealOverhead = 1136 := rfl
  rw [addW_of_lt (show 8 + (objectHeaderSize objectVersion stream + 32) < wordSize by unfold wordSize; omega),
    addW_of_lt (by unfold wordSize; omega)]

theorem result_pqOpenAccess_bind {β : Type} {plainLen : ℕ} {object : Buf} {s : RBuf} {f : Unit → StickyParser β} :
    result (pqOpenAccess plainLen object >>= f) s = (f ()).result s := by
  unfold pqOpenAccess
  rw [seq_assoc, result_emit_bind, result_emit_bind]

end Bitmessage
