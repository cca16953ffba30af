import Bitmessage.Common.CText
import Bitmessage.Core.PubkeyCache

/-! Building the objects that a node sends, up to the nonce: public keys, messages and
broadcasts. Signing and encrypting come from the crypto library; they may use randomness,
which is a parameter of each call. -/

namespace Bitmessage

/-- An uncompressed public key, `0x04` and the two coordinates. -/
structure PublicKey where
  coordinates : Bytes
  length_coordinates : coordinates.length = 64

/-- The 65 bytes of a public key. -/
def PublicKey.bytes (pub : PublicKey) : Bytes := uncompressed pub.coordinates

/-- `struct bm_identity_info`. -/
structure IdentityInfo where
  addressVersion : ℕ
  stream : ℕ
  pubSigning : PublicKey
  pubEncryption : PublicKey
  privSigning : Bytes
  nonceTrialsPerByte : ℕ
  payloadLengthExtraBytes : ℕ
  doesAck : Bool
  addressVersion_lt : addressVersion < wordSize
  stream_lt : stream < wordSize
  nonceTrialsPerByte_lt : nonceTrialsPerByte < wordSize
  payloadLengthExtraBytes_lt : payloadLengthExtraBytes < wordSize

/-- The operations of `crypto.h` and `address.h` that a sender uses. -/
structure SenderCrypto extends Crypto where
  /-- `bm_crypto_sign`. -/
  sign (seed data priv : Bytes) : Option Bytes
  /-- `bm_crypto_ecies_encrypt`. -/
  eciesEncrypt (seed plaintext pub : Bytes) : Option Bytes
  /-- `bm_address_get_public_key`. -/
  getPublicKey (priv : Bytes) : Option Bytes

/-- `append_common_header`. -/
def commonHeader (expires type version stream : ℕ) : Bytes :=
  packBe64 expires ++ (Radix.beBytes 4 type ++ (varintEncode version ++ varintEncode stream))

/-- The value that `append_bitfield` writes. -/
def behaviorBitfield (doesAck : Bool) : ℕ := if doesAck then 1 else 0

/-- `append_bitfield`. -/
def bitfieldBytes (doesAck : Bool) : Bytes := Radix.beBytes 4 (behaviorBitfield doesAck)

/-- `append_pubkey64`. -/
def pubkey64 (pub : PublicKey) : Bytes := (pub.bytes.drop 1).take 64

/-- `bb_append_varbytes`. -/
def varbytes (data : Bytes) : Bytes := varintEncode data.length ++ data

/-- `Subject:`. -/
def subjectMarker : Bytes := [0x53, 0x75, 0x62, 0x6a, 0x65, 0x63, 0x74, 0x3a]

/-- The text of a message in the simple encoding. -/
def simpleText (subject body : CString) : Bytes := subjectMarker ++ (subject.bytes ++ (bodyNeedle ++ body.bytes))

/-- `append_simple_encoded_message`. -/
def simpleEncodedMessage (subject body : CString) : Bytes := varintEncode 2 ++ varbytes (simpleText subject body)

namespace IdentityInfo

variable (id : IdentityInfo)

/-- The bitfield and the two public keys. -/
def keyFields : Bytes := bitfieldBytes id.doesAck ++ (pubkey64 id.pubSigning ++ pubkey64 id.pubEncryption)

/-- The difficulty that the identity asks for. -/
def difficultyFields : Bytes := varintEncode id.nonceTrialsPerByte ++ varintEncode id.payloadLengthExtraBytes

/-- The sender in front of the text of a message. -/
def senderFields : Bytes :=
  varintEncode id.addressVersion ++ (varintEncode id.stream ++ (id.keyFields ++
    if 3 ≤ id.addressVersion then id.difficultyFields else []))

end IdentityInfo

/-- The value of a character in `base32_decode_lower`. -/
def base32Value (c : UInt8) : Option ℕ :=
  if 0x61 ≤ c ∧ c ≤ 0x7a then some (c.toNat - 0x61)
  else if 0x32 ≤ c ∧ c ≤ 0x37 then some (c.toNat - 0x32 + 26)
  else none

/-- The loop of `base32_decode_lower`, missing when it meets a character outside the alphabet. -/
def base32DecodeFrom (buffer bits : ℕ) : Bytes → Option Bytes
  | [] => some []
  | c :: cs => (base32Value c).bind fun val =>
    let buffer := (buffer * 32 % wordSize) ||| val
    if 8 ≤ bits + 5 then
      (base32DecodeFrom buffer (bits + 5 - 8) cs).map (UInt8.ofNat (buffer / 2 ^ (bits + 5 - 8)) :: ·)
    else base32DecodeFrom buffer (bits + 5) cs

/-- `base32_decode_lower`, of length zero for a text outside the alphabet. -/
def base32DecodeLower (text : Bytes) : Bytes := (base32DecodeFrom 0 0 text).getD []

/-- `ONIONCAT_PREFIX`. -/
def onioncatPrefix : Bytes := [0xfd, 0x87, 0xd8, 0x7e, 0xeb, 0x43]

/-- `.onion`. -/
def onionSuffix : Bytes := [0x2e, 0x6f, 0x6e, 0x69, 0x6f, 0x6e]

/-- `bm_build_onionpeer`. -/
def buildOnionpeer (onionAddress : CString) (port stream expires : ℕ) : Option Bytes :=
  if onionAddress.bytes.length = 56 + 6 ∧ onionAddress.bytes.drop 56 = onionSuffix then
    let key := base32DecodeLower (onionAddress.bytes.take 56)
    if key.length = 35 then
      some (commonHeader expires objectOnionpeer 1 stream ++ (varintEncode port ++ (onioncatPrefix ++ key)))
    else none
  else none

/-- `bm_build_getpubkey`. -/
def buildGetpubkey (H : Hashes) (addressVersion stream : ℕ) (ripe : Bytes) (expires : ℕ) : Bytes :=
  commonHeader expires objectGetpubkey addressVersion stream ++
    if addressVersion ≤ 3 then ripe else (addressDeriveSecretAndTag H addressVersion stream ripe).2

/-- `bm_build_pubkey_v2`. -/
def buildPubkeyV2 (id : IdentityInfo) (expires : ℕ) : Bytes :=
  commonHeader expires objectPubkey 2 id.stream ++ id.keyFields

variable (C : SenderCrypto) (seed : Bytes)

/-- `bm_build_pubkey_v3`. -/
def buildPubkeyV3 (id : IdentityInfo) (expires : ℕ) : Option Bytes := do
  let b := commonHeader expires objectPubkey 3 id.stream ++ (id.keyFields ++ id.difficultyFields)
  let sig ← C.sign seed b id.privSigning
  pure (b ++ varbytes sig)

/-- Sign the fields behind what is sent in the clear, append the signature, and encrypt. -/
def signAndEncrypt (id : IdentityInfo) (plain toEncrypt pub : Bytes) : Option Bytes := do
  let sig ← C.sign seed (plain ++ toEncrypt) id.privSigning
  let ciphertext ← C.eciesEncrypt seed (toEncrypt ++ varbytes sig) pub
  pure (plain ++ ciphertext)

/-- `bm_build_pubkey_v4`. -/
def buildPubkeyV4 (id : IdentityInfo) (ripe : Bytes) (expires : ℕ) : Option Bytes := do
  let derived := addressDeriveSecretAndTag C.toHashes 4 id.stream ripe
  let plain := commonHeader expires objectPubkey 4 id.stream ++ derived.2
  let pubEnc ← C.getPublicKey derived.1
  signAndEncrypt C seed id plain (id.keyFields ++ id.difficultyFields) pubEnc

/-- `bm_build_msg`. -/
def buildMsg (sender : IdentityInfo) (toStream : ℕ) (toRipe toPubEncryption : Bytes) (subject body : CString)
    (ackPayload : Bytes) (expires : ℕ) : Option Bytes :=
  signAndEncrypt C seed sender (commonHeader expires objectMsg 1 toStream)
    (sender.senderFields ++ (toRipe ++ (simpleEncodedMessage subject body ++ varbytes ackPayload))) toPubEncryption

/-- The object version of a broadcast. -/
def broadcastVersion (sender : IdentityInfo) : ℕ := if 4 ≤ sender.addressVersion then 5 else 4

/-- `bm_build_broadcast`. -/
def buildBroadcast (sender : IdentityInfo) (fromRipe : Bytes) (subject body : CString) (expires : ℕ) : Option Bytes := do
  let derived := addressDeriveSecretAndTag C.toHashes sender.addressVersion sender.stream fromRipe
  let plain := commonHeader expires objectBroadcast (broadcastVersion sender) sender.stream ++
    if 4 ≤ sender.addressVersion then derived.2 else []
  let pubEnc ← C.getPublicKey derived.1
  signAndEncrypt C seed sender plain (sender.senderFields ++ simpleEncodedMessage subject body) pubEnc

end Bitmessage
