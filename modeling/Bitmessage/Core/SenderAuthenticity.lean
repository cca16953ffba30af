import Bitmessage.Core.Incoming

/-! Who an inbox row says it is from. The sender's address is printed from the version
and stream that the plaintext claims and from the ripe of the keys that the signature
was checked with. Nothing checks that the claimed version is one the decoder knows,
and a broadcast is not compared with the version and stream of the subscription. -/

namespace Bitmessage

open Traced BufParser

variable (C : Crypto)

/-! ### What the plaintext says about its sender -/

/-- The version, stream and keys at the start of the plaintext. -/
structure BodySender where
  version : ℕ
  stream : ℕ
  signing : Bytes
  encryption : Bytes

/-- The sender that a plaintext claims. -/
def bodySender (body : Buf) : Option BodySender :=
  (body.varintAt 0).bind fun v => (body.varintAt v.2).map fun s =>
    ⟨v.1, s.1, uncompressed (body.slice (s.2 + 4) 64), uncompressed (body.slice (s.2 + 4 + 64) 64)⟩

/-- The ripe of the sender's keys. -/
def BodySender.ripe (sender : BodySender) : Bytes := addressCalcRipe C.toHashes sender.signing sender.encryption

/-- The offset behind the fields, which a parser reaches that walks through them. -/
def Buf.behind (b : Buf) : List Field → ℕ → Option ℕ
  | [], p => some p
  | .varint :: fs, p => (b.varintAt p).bind fun v => b.behind fs v.2
  | .block n :: fs, p => if p + n ≤ b.size then b.behind fs (p + n) else none
  | .expect bs :: fs, p =>
    if p + bs.length ≤ b.size ∧ b.slice p bs.length = bs then b.behind fs (p + bs.length) else none
  | .sized :: fs, p => (b.varintAt p).bind fun v =>
    if addW v.2 v.1 ≤ b.size then b.behind fs (addW v.2 v.1) else none

/-- The signature, which is the last field of the plaintext: the offset of its length, and the
bytes behind the length. -/
def bodySignature (layout : ℕ → List Field) (body : Buf) : Option (ℕ × Bytes) :=
  (body.varintAt 0).bind fun v => (body.behind (layout v.1).dropLast v.2).bind fun presigOffset =>
    (body.varintAt presigOffset).map fun s => (presigOffset, body.slice s.2 s.1)

/-- What is signed: the header without its nonce, the tag, and the plaintext up to the signature. -/
def signedData (hdr : ObjectHeader) (tagLen : ℕ) (object body : Buf) (presigOffset : ℕ) : Bytes :=
  object.slice 8 (subW hdr.headerLen 8) ++ object.slice hdr.headerLen tagLen ++ body.slice 0 presigOffset

theorem Buf.slice_zero (b : Buf) (off : ℕ) : b.slice off 0 = [] := rfl

/-! ### The walk of the parsers -/

section

variable {body : Buf} {p q : ℕ}

theorem behind_varint (hp : p ≤ body.size) {v : ℕ} (h : (varint .body body).result p = some (v, q)) :
    q ≤ body.size ∧ ∀ fs, body.behind (.varint :: fs) p = body.behind fs q := by
  rw [result_varint hp] at h
  refine ⟨(Buf.varintAt_eq_some h hp).2.1, fun fs => ?_⟩
  rw [Buf.behind, h, Option.bind_some]

theorem behind_senderKeys (hp : p ≤ body.size) {keys : Bytes × Bytes}
    (h : (senderKeys body).result p = some (keys, q)) :
    q ≤ body.size ∧ ∀ fs, body.behind (.block (4 + 64 + 64) :: fs) p = body.behind fs q := by
  rw [result_senderKeys hp] at h
  split_ifs at h with hin
  cases h
  exact ⟨hin, fun fs => by rw [Buf.behind, if_pos hin]⟩

theorem behind_senderDifficulty (hp : p ≤ body.size) {fromVer : ℕ} {u : Unit}
    (h : (senderDifficulty body fromVer).result p = some (u, q)) :
    q ≤ body.size ∧ ∀ fs, body.behind ((if 3 ≤ fromVer then [.varint, .varint] else []) ++ fs) p = body.behind fs q := by
  unfold senderDifficulty at h
  split_ifs at h ⊢
  · obtain ⟨trials, p₁, h₁, h⟩ := result_bind_eq_some.mp h
    obtain ⟨extra, p₂, h₂, h⟩ := result_bind_eq_some.mp h
    rw [result_pure] at h
    cases h
    obtain ⟨hp₁, hwalk₁⟩ := behind_varint hp h₁
    obtain ⟨hp₂, hwalk₂⟩ := behind_varint hp₁ h₂
    exact ⟨hp₂, fun fs => (hwalk₁ _).trans (hwalk₂ fs)⟩
  · rw [result_pure] at h
    cases h
    exact ⟨hp, fun fs => rfl⟩

/-- The fields of the sender, with which both layouts begin behind the version. -/
theorem behind_sender {fromVer fromStream p₁ p₂ p₃ : ℕ} {keys : Bytes × Bytes} {u : Unit}
    (hversion : (varint .body body).result 0 = some (fromVer, p₁))
    (hstream : (varint .body body).result p₁ = some (fromStream, p₂))
    (hkeys : (senderKeys body).result p₂ = some (keys, p₃))
    (hdifficulty : (senderDifficulty body fromVer).result p₃ = some (u, q)) :
    q ≤ body.size ∧ ∀ fs, body.behind (.varint :: .block (4 + 64 + 64) ::
      ((if 3 ≤ fromVer then [.varint, .varint] else []) ++ fs)) p₁ = body.behind fs q := by
  have hp₁ := (behind_varint (Nat.zero_le _) hversion).1
  obtain ⟨hp₂, hwalk₂⟩ := behind_varint hp₁ hstream
  obtain ⟨hp₃, hwalk₃⟩ := behind_senderKeys hp₂ hkeys
  obtain ⟨hq, hwalk⟩ := behind_senderDifficulty hp₃ hdifficulty
  exact ⟨hq, fun fs => by rw [hwalk₂, hwalk₃, hwalk]⟩

theorem behind_ripe (hp : p ≤ body.size) {ripe toRipe : Bytes} (hlen : ripe.length = 20) {p₁ p₂ : ℕ} {u u' : Unit}
    (hroom : (room body 20).result p = some (u, p₁)) (hbytes : (bytes .body body 20).result p₁ = some (toRipe, p₂))
    (hripe : (require (toRipe = ripe) : BufParser Unit).result p₂ = some (u', q)) :
    q ≤ body.size ∧ ∀ fs, body.behind (.expect ripe :: fs) p = body.behind fs q := by
  rw [result_room hp (by norm_num)] at hroom
  split_ifs at hroom with hin
  cases hroom
  rw [result_bytes (by have := body.size_lt; unfold wordSize; omega)] at hbytes
  cases hbytes
  obtain ⟨hsame, rfl⟩ := result_require_eq_some.mp hripe
  refine ⟨hin, fun fs => ?_⟩
  rw [Buf.behind, hlen, if_pos ⟨hin, hsame⟩]

theorem behind_sized (hp : p ≤ body.size) {s : ℕ × ℕ} {p₁ : ℕ} {u : Unit}
    (h : (lengthField .body body).result p = some (s, p₁)) (hadvance : (advance .body s.2).result p₁ = some (u, q)) :
    q ≤ body.size ∧ ∀ fs, body.behind (.sized :: fs) p = body.behind fs q := by
  rw [result_lengthField hp] at h
  obtain ⟨d, hd, h⟩ := Option.bind_eq_some_iff.mp h
  split_ifs at h with hin
  cases h
  rw [result_advance] at hadvance
  cases hadvance
  refine ⟨hin, fun fs => ?_⟩
  rw [Buf.behind, hd, Option.bind_some, if_pos hin]

theorem varintAt_of_lengthField (hp : p ≤ body.size) {s : ℕ × ℕ}
    (h : (lengthField .body body).result p = some (s, q)) : body.varintAt p = some (s.2, s.1) := by
  rw [result_lengthField hp] at h
  obtain ⟨d, hd, h⟩ := Option.bind_eq_some_iff.mp h
  split_ifs at h
  cases h
  exact hd

/-- The signature is found where the walk through the fields in front of it has ended. -/
theorem bodySignature_of_walk {layout : ℕ → List Field} {fromVer p₁ : ℕ} {s : ℕ × ℕ}
    (hversion : (varint .body body).result 0 = some (fromVer, p₁))
    (hwalk : body.behind (layout fromVer).dropLast p₁ = some p) (hp : p ≤ body.size)
    (h : (lengthField .body body).result p = some (s, q)) :
    bodySignature layout body = some (p, body.slice s.1 s.2) := by
  rw [result_varint (Nat.zero_le _)] at hversion
  rw [bodySignature, hversion, Option.bind_some, hwalk, Option.bind_some, varintAt_of_lengthField hp h,
    Option.map_some]

end

theorem dropLast_msgLayout (fromVer : ℕ) (toRipe : Bytes) : (msgLayout fromVer toRipe).dropLast =
    .varint :: .block (4 + 64 + 64) :: ((if 3 ≤ fromVer then [.varint, .varint] else []) ++
      [.expect toRipe, .varint, .sized, .sized]) := by
  unfold msgLayout
  split_ifs <;> rfl

theorem dropLast_broadcastLayout (fromVer : ℕ) : (broadcastLayout fromVer).dropLast =
    .varint :: .block (4 + 64 + 64) :: ((if 3 ≤ fromVer then [.varint, .varint] else []) ++ [.varint, .sized]) := by
  unfold broadcastLayout
  split_ifs <;> rfl

section

variable {C}

/-- The sender is what both parsers read first. -/
theorem bodySender_of_reads {body : Buf} {fromVer fromStream p₁ p₂ p₃ : ℕ} {keys : Bytes × Bytes}
    (hversion : (varint .body body).result 0 = some (fromVer, p₁))
    (hstream : (varint .body body).result p₁ = some (fromStream, p₂))
    (hkeys : (senderKeys body).result p₂ = some (keys, p₃)) :
    bodySender body = some ⟨fromVer, fromStream, keys.1, keys.2⟩ := by
  rw [result_varint (Nat.zero_le _)] at hversion
  have hp₁ := (Buf.varintAt_eq_some hversion (Nat.zero_le _)).2.1
  rw [result_varint hp₁] at hstream
  have hp₂ := (Buf.varintAt_eq_some hstream hp₁).2.1
  rw [bodySender, hversion, Option.bind_some, hstream, Option.map_some, (senderKeys_eq_some hp₂ hkeys).1]

/-- An accepted plaintext ends with a signature of its claimed sender over all that is in front of
it, and the decoded message is named after that sender. -/
theorem trialDecryptBody_sender {identity : UnlockedIdentity} {hdr : ObjectHeader} {object body : Buf} {p q : ℕ}
    {msg : DecodedMsg} (h : (trialDecryptBody C identity hdr object body).result p = some (msg, q)) :
    ∃ sender presigOffset sig, bodySender body = some sender ∧
      bodySignature (msgLayout · identity.ripe) body = some (presigOffset, sig) ∧
      C.verify (signedData hdr 0 object body presigOffset) sig sender.signing = true ∧
      msg.fromAddress = toAddressBuffer ((addressEncode C.toHashes sender.version sender.stream
        (sender.ripe C)).getD []) := by
  unfold trialDecryptBody at h
  rw [result_bind_of_result (result_set _ _), result_bind_eq_some] at h
  obtain ⟨fromVer, p₁, h₁, h⟩ := h
  rw [result_bind_eq_some] at h
  obtain ⟨fromStream, p₂, h₂, h⟩ := h
  rw [result_bind_eq_some] at h
  obtain ⟨keys, p₃, h₃, h⟩ := h
  rw [result_bind_eq_some] at h
  obtain ⟨_, p₄, h₄, h⟩ := h
  rw [result_bind_eq_some] at h
  obtain ⟨_, p₅, h₅, h⟩ := h
  rw [result_bind_eq_some] at h
  obtain ⟨toRipe, p₆, h₆, h⟩ := h
  rw [result_bind_eq_some] at h
  obtain ⟨_, p₇, h₇, h⟩ := h
  rw [result_bind_eq_some] at h
  obtain ⟨encoding, p₈, h₈, h⟩ := h
  rw [result_bind_eq_some] at h
  obtain ⟨msgSlice, p₉, h₉, h⟩ := h
  rw [result_bind_eq_some] at h
  obtain ⟨_, p₁₀, h₁₀, h⟩ := h
  rw [result_bind_eq_some] at h
  obtain ⟨ack, p₁₁, h₁₁, h⟩ := h
  rw [result_bind_eq_some] at h
  obtain ⟨_, p₁₂, h₁₂, h⟩ := h
  rw [result_bind_of_result (result_get _), result_bind_eq_some] at h
  obtain ⟨sig, p₁₃, h₁₃, h⟩ := h
  rw [result_bind_of_result (result_emit _ _), result_bind_of_result (result_emit _ _),
    result_bind_of_result (result_emit _ _), result_bind_eq_some] at h
  obtain ⟨_, p₁₄, hverify, h⟩ := h
  rw [result_bind_of_result (result_emit _ _), result_bind_of_result (result_emit _ _), result_pure] at h
  have hmsg := (Prod.mk.inj (Option.some.inj h)).1
  obtain ⟨hp₄, hwalk₄⟩ := behind_sender h₁ h₂ h₃ h₄
  obtain ⟨hp₇, hwalk₇⟩ := behind_ripe hp₄ identity.ripe_length h₅ h₆ h₇
  obtain ⟨hp₈, hwalk₈⟩ := behind_varint hp₇ h₈
  obtain ⟨hp₁₀, hwalk₁₀⟩ := behind_sized hp₈ h₉ h₁₀
  obtain ⟨hp₁₂, hwalk₁₂⟩ := behind_sized hp₁₀ h₁₁ h₁₂
  have hwalk : body.behind (msgLayout fromVer identity.ripe).dropLast p₁ = some p₁₂ := by
    rw [dropLast_msgLayout, hwalk₄, hwalk₇, hwalk₈, hwalk₁₀, hwalk₁₂, Buf.behind]
  refine ⟨⟨fromVer, fromStream, keys.1, keys.2⟩, p₁₂, body.slice sig.1 sig.2, bodySender_of_reads h₁ h₂ h₃,
    bodySignature_of_walk h₁ hwalk hp₁₂ h₁₃, ?_, ?_⟩
  · rw [signedData, Buf.slice_zero, List.append_nil]
    exact (result_require_eq_some.mp hverify).1
  · rw [← hmsg]
    rfl

theorem trialDecryptBroadcastBody_sender {candidate : Candidate} {hdr : ObjectHeader} {object body : Buf} {p q : ℕ}
    {msg : DecodedBroadcast}
    (h : (trialDecryptBroadcastBody C candidate hdr object body).result p = some (msg, q)) :
    ∃ sender presigOffset sig, bodySender body = some sender ∧
      bodySignature broadcastLayout body = some (presigOffset, sig) ∧
      C.verify (signedData hdr (broadcastTagLen hdr) object body presigOffset) sig sender.signing = true ∧
      sender.ripe C = candidate.ripe ∧
      msg.fromAddress = toAddressBuffer ((addressEncode C.toHashes sender.version sender.stream
        (sender.ripe C)).getD []) := by
  unfold trialDecryptBroadcastBody at h
  rw [result_bind_of_result (result_set _ _), result_bind_eq_some] at h
  obtain ⟨fromVer, p₁, h₁, h⟩ := h
  rw [result_bind_eq_some] at h
  obtain ⟨fromStream, p₂, h₂, h⟩ := h
  rw [result_bind_eq_some] at h
  obtain ⟨keys, p₃, h₃, h⟩ := h
  rw [result_bind_eq_some] at h
  obtain ⟨_, p₄, h₄, h⟩ := h
  rw [result_bind_eq_some] at h
  obtain ⟨encoding, p₅, h₅, h⟩ := h
  rw [result_bind_eq_some] at h
  obtain ⟨msgSlice, p₆, h₆, h⟩ := h
  rw [result_bind_eq_some] at h
  obtain ⟨_, p₇, h₇, h⟩ := h
  rw [result_bind_of_result (result_get _), result_bind_eq_some] at h
  obtain ⟨sig, p₈, h₈, h⟩ := h
  rw [result_bind_of_result (result_emit _ _), result_bind_of_result (result_emit _ _),
    result_bind_of_result (result_emit _ _), result_bind_of_result (result_emit _ _), result_bind_eq_some] at h
  obtain ⟨_, p₉, hverify, h⟩ := h
  rw [result_bind_eq_some] at h
  obtain ⟨_, p₁₀, hripe, h⟩ := h
  rw [result_bind_of_result (result_emit _ _), result_pure] at h
  have hmsg := (Prod.mk.inj (Option.some.inj h)).1
  obtain ⟨hp₄, hwalk₄⟩ := behind_sender h₁ h₂ h₃ h₄
  obtain ⟨hp₅, hwalk₅⟩ := behind_varint hp₄ h₅
  obtain ⟨hp₇, hwalk₇⟩ := behind_sized hp₅ h₆ h₇
  have hwalk : body.behind (broadcastLayout fromVer).dropLast p₁ = some p₇ := by
    rw [dropLast_broadcastLayout, hwalk₄, hwalk₅, hwalk₇, Buf.behind]
  refine ⟨⟨fromVer, fromStream, keys.1, keys.2⟩, p₇, body.slice sig.1 sig.2, bodySender_of_reads h₁ h₂ h₃,
    bodySignature_of_walk h₁ hwalk hp₇ h₈, ?_, ?_, ?_⟩
  · exact (result_require_eq_some.mp hverify).1
  · exact (result_require_eq_some.mp hripe).1
  · rw [← hmsg]
    rfl

/-! ### From the objects to the plaintexts -/

theorem decodedBroadcast_eq_some {candidate : Candidate} {object : Buf} {msg : DecodedBroadcast}
    (h : decodedBroadcast C candidate object = some msg) :
    ∃ hdr body p q, object.header = some hdr ∧ broadcastOpened C candidate object = some body ∧
      (trialDecryptBroadcastBody C candidate hdr object body).result p = some (msg, q) := by
  obtain ⟨⟨msg, q⟩, hr, rfl⟩ := Option.map_eq_some_iff.mp h
  unfold trialDecryptBroadcast at hr
  rw [result_bind_eq_some] at hr
  obtain ⟨hdr, p, hhdr, hr⟩ := hr
  have hheader : object.header = some hdr := by rw [Buf.header, hhdr]; rfl
  rw [result_bind_eq_some] at hr
  obtain ⟨-, p', -, hr⟩ := hr
  rw [result_bind_eq_some] at hr
  obtain ⟨-, p'', -, hr⟩ := hr
  rw [result_bind_of_result (result_get _), result_bind_of_result (result_emit _ _)] at hr
  have hopened : broadcastOpened C candidate object = broadcastPlaintext C candidate hdr object := by
    simp [broadcastOpened, hheader]
  rcases ho : broadcastPlaintext C candidate hdr object with _ | body
  · rw [ho] at hr
    cases hr
  · rw [ho] at hr
    exact ⟨hdr, body, p'', q, hheader, hopened.trans ho, hr⟩

theorem bodySender_lt {body : Buf} {sender : BodySender} (h : bodySender body = some sender) :
    sender.version < wordSize ∧ sender.stream < wordSize := by
  unfold bodySender at h
  rw [Option.bind_eq_some_iff] at h
  obtain ⟨v, hv, h⟩ := h
  obtain ⟨s, hs, rfl⟩ := Option.map_eq_some_iff.mp h
  have hv := Buf.varintAt_eq_some hv (Nat.zero_le _)
  exact ⟨hv.2.2, (Buf.varintAt_eq_some hs hv.2.1).2.2⟩

/-! ### Authenticity -/

/-- The address of a sender that the decoder reads back: a known version and, for version 4, at
least four bytes of ripe behind the leading zeros. -/
def UsableAddress (version : ℕ) (ripe : Bytes) : Prop :=
  2 ≤ version ∧ version ≤ 4 ∧ (version = 4 → 4 ≤ (ripe.dropWhile (· = 0)).length)

/-- The printed address of a sender decodes to that sender exactly when it is usable. -/
theorem addressDecode_printed {version stream : ℕ} (hv : version < wordSize) (hs : stream < wordSize) {ripe : Bytes}
    (hr : ripe.length = ripeLen) :
    addressDecode C.toHashes (toAddressBuffer ((addressEncode C.toHashes version stream ripe).getD [])) =
        some (version, stream, ripe) ↔ UsableAddress version ripe := by
  constructor
  · intro h
    obtain ⟨h2, h4⟩ := addressDecode_version _ h
    refine ⟨h2, h4, fun hv4 => ?_⟩
    obtain ⟨address, he, hlen, hd⟩ := addressDecode_addressEncode (H := C.toHashes) (by omega) hv hs hr
    rw [he, Option.getD_some, toAddressBuffer, List.take_of_length_le (hlen.trans (by decide)), hd] at h
    by_contra hshort
    rw [if_pos (Or.inr (Or.inr ⟨hv4, by omega⟩))] at h
    cases h
  · rintro ⟨h2, h4, hfour⟩
    obtain ⟨address, he, hlen, hd⟩ := addressDecode_addressEncode (H := C.toHashes) (by omega) hv hs hr
    rw [he, Option.getD_some, toAddressBuffer, List.take_of_length_le (hlen.trans (by decide)), hd, if_neg]
    rintro (h | h | ⟨h, hshort⟩)
    · omega
    · omega
    · have := hfour h
      omega

variable (C) in
/-- A row shows its sender: the address decodes to the sender's version, stream and ripe, the
sender's signature over the data verified, and nobody else's address can be shown. `Signed pub
data` says that the holder of the private key of `pub` has signed `data`; the keys of the shown
address are assumed to be the only ones with their ripe. -/
def ShowsSender (fromAddress : Bytes) (sender : BodySender) (data sig : Bytes) : Prop :=
  addressDecode C.toHashes fromAddress = some (sender.version, sender.stream, sender.ripe C) ∧
  C.verify data sig sender.signing = true ∧
  ∀ Signed : Bytes → Bytes → Prop, (∀ data sig pub, C.verify data sig pub = true → Signed pub data) →
    ∀ version stream signing encryption,
      addressDecode C.toHashes fromAddress = some (version, stream, addressCalcRipe C.toHashes signing encryption) →
      (∀ signing' encryption', addressCalcRipe C.toHashes signing' encryption' =
        addressCalcRipe C.toHashes signing encryption → signing' = signing ∧ encryption' = encryption) →
      Signed signing data

theorem showsSender_iff {sender : BodySender} {data sig : Bytes} (hsender : sender.version < wordSize ∧
    sender.stream < wordSize) (hverify : C.verify data sig sender.signing = true) :
    ShowsSender C (toAddressBuffer ((addressEncode C.toHashes sender.version sender.stream
      (sender.ripe C)).getD [])) sender data sig ↔ UsableAddress sender.version (sender.ripe C) := by
  have hripe : (sender.ripe C).length = ripeLen := length_addressCalcRipe C.toHashes sender.signing sender.encryption
  have hprinted := addressDecode_printed (C := C) hsender.1 hsender.2 hripe
  refine ⟨fun h => hprinted.mp h.1, fun h => ⟨hprinted.mpr h, hverify, ?_⟩⟩
  intro Signed hunforgeable version stream signing encryption hshown hunique
  rw [hprinted.mpr h] at hshown
  have hripe : addressCalcRipe C.toHashes sender.signing sender.encryption =
      addressCalcRipe C.toHashes signing encryption := by
    have := Option.some.inj hshown
    exact congrArg (fun t => t.2.2) this
  rw [← (hunique _ _ hripe).1]
  exact hunforgeable _ _ _ hverify

end

/-- The row of a `msg` shows the sender whose keys are in the plaintext and have signed the header
and the plaintext up to the signature. -/
def MsgSenderShown (unlocked : List UnlockedIdentity) (object : Buf) (row : InboxRow) : Prop :=
  ∃ hdr identity body sender presigOffset sig, object.header = some hdr ∧
    msgOpened C unlocked object = some (identity, body) ∧ bodySender body = some sender ∧
    bodySignature (msgLayout · identity.ripe) body = some (presigOffset, sig) ∧
    ShowsSender C row.fromAddress sender (signedData hdr 0 object body presigOffset) sig

/-- The row of a `broadcast` shows the sender, who has signed the tag as well and is the subscribed
one. -/
def BroadcastSenderShown (candidate : Candidate) (object : Buf) (row : InboxRow) : Prop :=
  ∃ hdr body sender presigOffset sig, object.header = some hdr ∧
    broadcastOpened C candidate object = some body ∧ bodySender body = some sender ∧
    bodySignature broadcastLayout body = some (presigOffset, sig) ∧
    ShowsSender C row.fromAddress sender (signedData hdr (broadcastTagLen hdr) object body presigOffset) sig ∧
    (sender.version, sender.stream, sender.ripe C) = (candidate.version, candidate.stream, candidate.ripe)

/-- The plaintext of a `msg` claims a usable address. -/
def MsgSenderUsable (unlocked : List UnlockedIdentity) (object : Buf) : Prop :=
  ∀ identity body sender, msgOpened C unlocked object = some (identity, body) → bodySender body = some sender →
    UsableAddress sender.version (sender.ripe C)

/-- The plaintext of a `broadcast` claims a usable address with the subscribed version and stream. -/
def BroadcastSenderUsable (candidate : Candidate) (object : Buf) : Prop :=
  ∀ body sender, broadcastOpened C candidate object = some body → bodySender body = some sender →
    UsableAddress sender.version (sender.ripe C) ∧
      sender.version = candidate.version ∧ sender.stream = candidate.stream

theorem msgSenderShown_iff {unlocked : List UnlockedIdentity} {object : Buf} {msg : DecodedMsg} {row : InboxRow}
    (h : decodedMsg C unlocked object = some msg) (hrow : row.fromAddress = msg.fromAddress) :
    MsgSenderShown C unlocked object row ↔ MsgSenderUsable C unlocked object := by
  obtain ⟨hdr, identity, body, q, hhdr, -, hopen, hr⟩ := decodedMsg_eq_some h
  have hopen : msgOpened C unlocked object = some (identity, body) := by rw [msgOpened, hhdr, Option.bind_some, hopen]
  obtain ⟨sender, presigOffset, sig, hsender, hsignature, hverify, hfrom⟩ := trialDecryptBody_sender hr
  have hiff := showsSender_iff (bodySender_lt hsender) hverify
  rw [← hfrom, ← hrow] at hiff
  constructor
  · rintro ⟨hdr', identity', body', sender', presig', sig', -, hopen', hsender', -, hshown⟩ _ _ _ hopen'' hsender''
    rw [hopen'] at hopen''
    cases hopen''
    rw [hsender'] at hsender''
    cases hsender''
    rw [hopen] at hopen'
    cases hopen'
    rw [hsender] at hsender'
    cases hsender'
    rw [hrow, hfrom] at hshown
    exact (addressDecode_printed (bodySender_lt hsender).1 (bodySender_lt hsender).2
      (length_addressCalcRipe C.toHashes sender.signing sender.encryption)).mp hshown.1
  · intro husable
    exact ⟨hdr, identity, body, sender, presigOffset, sig, hhdr, hopen, hsender, hsignature,
      hiff.mpr (husable identity body sender hopen hsender)⟩

theorem broadcastSenderShown_iff {candidate : Candidate} {object : Buf} {msg : DecodedBroadcast} {row : InboxRow}
    (h : decodedBroadcast C candidate object = some msg) (hrow : row.fromAddress = msg.fromAddress) :
    BroadcastSenderShown C candidate object row ↔ BroadcastSenderUsable C candidate object := by
  obtain ⟨hdr, body, p, q, hhdr, hopen, hr⟩ := decodedBroadcast_eq_some h
  obtain ⟨sender, presigOffset, sig, hsender, hsignature, hverify, hripe, hfrom⟩ := trialDecryptBroadcastBody_sender hr
  have hiff := showsSender_iff (bodySender_lt hsender) hverify
  rw [← hfrom, ← hrow] at hiff
  constructor
  · rintro ⟨hdr', body', sender', presig', sig', -, hopen', hsender', -, hshown, hcand⟩ _ _ hopen'' hsender''
    rw [hopen'] at hopen''
    cases hopen''
    rw [hsender'] at hsender''
    cases hsender''
    rw [hopen] at hopen'
    cases hopen'
    rw [hsender] at hsender'
    cases hsender'
    rw [hrow, hfrom] at hshown
    refine ⟨(addressDecode_printed (bodySender_lt hsender).1 (bodySender_lt hsender).2
      (length_addressCalcRipe C.toHashes sender.signing sender.encryption)).mp hshown.1, ?_, ?_⟩
    · exact congrArg (fun t => t.1) hcand
    · exact congrArg (fun t => t.2.1) hcand
  · intro husable
    obtain ⟨hu, hv, hs⟩ := husable body sender hopen hsender
    exact ⟨hdr, body, sender, presigOffset, sig, hhdr, hopen, hsender, hsignature, hiff.mpr hu, by rw [hv, hs, hripe]⟩

/-- A new inbox row shows its authentic sender exactly when the plaintext claims an address that
the decoder reads back and, for a broadcast, the version and stream of the subscription. -/
theorem inboxRow_sender_iff :
    (∀ unlocked inbox object now inbox' ack row,
      trialDecryptAndStore C unlocked inbox object now = some (inbox', ack) → row ∈ inbox' → row ∉ inbox →
      (MsgSenderShown C unlocked object row ↔ MsgSenderUsable C unlocked object)) ∧
    (∀ candidate inbox object now inbox' row,
      trialDecryptBroadcastAndStore C candidate inbox object now = some inbox' → row ∈ inbox' → row ∉ inbox →
      (BroadcastSenderShown C candidate object row ↔ BroadcastSenderUsable C candidate object)) := by
  constructor
  · intro unlocked inbox object now inbox' ack row h hmem hnew
    obtain ⟨msg, hmsg, he⟩ := Option.map_eq_some_iff.mp h
    cases he
    exact msgSenderShown_iff C hmsg (mem_insertInbox hmem hnew).1
  · intro candidate inbox object now inbox' row h hmem hnew
    obtain ⟨msg, hmsg, rfl⟩ := Option.map_eq_some_iff.mp h
    exact broadcastSenderShown_iff C hmsg (mem_insertInbox hmem hnew).1

/-! ### A sender of version 4 and one of version 5 -/

/-- A property of the sender that the plaintext of the object claims, by computation. -/
theorem msgFromVersion_sender {version : UInt8} {α : Type} {f : BodySender → α} {v : α}
    (hcomputed : ((msgOpened plainCrypto [recipient] (msgFromVersion version)).bind fun opened =>
      (bodySender opened.2).map f) = some v) {identity : UnlockedIdentity} {body : Buf}
    {sender : BodySender} (hopen : msgOpened plainCrypto [recipient] (msgFromVersion version) = some (identity, body))
    (hsender : bodySender body = some sender) : f sender = v := by
  rw [hopen, Option.bind_some, hsender, Option.map_some] at hcomputed
  exact Option.some.inj hcomputed

/-- The row of a new message, when there is one. -/
theorem exists_newRow {C : Crypto} (unlocked : List UnlockedIdentity) (object : Buf) (now : ℤ)
    (h : (decodedMsg C unlocked object).isSome = true) :
    ∃ inbox' ack row, trialDecryptAndStore C unlocked [] object now = some (inbox', ack) ∧ row ∈ inbox' := by
  obtain ⟨msg, hmsg⟩ := Option.isSome_iff_exists.mp h
  obtain ⟨row, hrow, -⟩ := insertInbox_msgId []
    ⟨inventoryHash C.toHashes object.bytes, msg.toAddress, msg.fromAddress, msg.subject, msg.body, now⟩
  exact ⟨_, _, row, by rw [trialDecryptAndStore, hmsg, Option.map_some, storeDecodedMsg], hrow⟩

theorem inboxRow_sender_version_four :
    ∃ inbox' ack row, trialDecryptAndStore plainCrypto [recipient] [] (msgFromVersion 4) 0 = some (inbox', ack) ∧
      row ∈ inbox' ∧ MsgSenderShown plainCrypto [recipient] (msgFromVersion 4) row := by
  obtain ⟨inbox', ack, row, h, hrow⟩ := exists_newRow (C := plainCrypto) [recipient]
    (msgFromVersion 4) 0 (by decide +kernel)
  refine ⟨inbox', ack, row, h, hrow, ((inboxRow_sender_iff plainCrypto).1 _ _ _ _ _ _ _ h hrow (by simp)).mpr ?_⟩
  intro identity body sender hopen hsender
  have hv : sender.version = 4 :=
    msgFromVersion_sender (f := BodySender.version) (by decide +kernel) hopen hsender
  have hripe : ((sender.ripe plainCrypto).dropWhile (· = 0)).length = 20 :=
    msgFromVersion_sender (f := fun sender => ((sender.ripe plainCrypto).dropWhile (· = 0)).length)
      (by decide +kernel) hopen hsender
  refine ⟨by omega, by omega, fun _ => ?_⟩
  rw [hripe]
  norm_num

/-- The row of a sender that claims version 5 shows an address that does not decode. -/
theorem inboxRow_sender_version_five :
    ∃ inbox' ack row, trialDecryptAndStore plainCrypto [recipient] [] (msgFromVersion 5) 0 = some (inbox', ack) ∧
      row ∈ inbox' ∧ ¬ MsgSenderShown plainCrypto [recipient] (msgFromVersion 5) row := by
  obtain ⟨inbox', ack, row, h, hrow⟩ := exists_newRow (C := plainCrypto) [recipient]
    (msgFromVersion 5) 0 (by decide +kernel)
  refine ⟨inbox', ack, row, h, hrow, ?_⟩
  rintro ⟨hdr, identity, body, sender, presigOffset, sig, -, hopen, hsender, -, hdecode, -⟩
  have hv : sender.version = 5 :=
    msgFromVersion_sender (f := BodySender.version) (by decide +kernel) hopen hsender
  have := (addressDecode_version _ hdecode).2
  omega

end Bitmessage
