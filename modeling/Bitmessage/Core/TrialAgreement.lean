import Bitmessage.Core.Incoming
import Bitmessage.Lib.FirstMatch
import Bitmessage.Pq.Incoming

/-! Trying all the unlocked identities at once, and one after the other. The search
through the keyring commits to the first identity whose key opens the object, although
an identity with the same key may have another ripe, and it is the ripe that the
plaintext has to name. An identity of version 5 that opens a message without being named
is passed over. -/

namespace Bitmessage

open Traced BufParser StickyParser FirstMatch

/-- Decryption with a private key succeeds only on what was made for its public key. -/
structure OpensOwn {χ κ μ ν : Type} (decrypt : χ → κ → Option μ) (publicKey : κ → ν) (madeFor : χ → ν) : Prop where
  own : ∀ ciphertext key plaintext, decrypt ciphertext key = some plaintext → madeFor ciphertext = publicKey key
  /-- private keys of one public key decrypt alike -/
  same : ∀ ciphertext key key', publicKey key = publicKey key' → decrypt ciphertext key = decrypt ciphertext key'

theorem OpensOwn.alike {χ κ μ ν : Type} {decrypt : χ → κ → Option μ} {publicKey : κ → ν} {madeFor : χ → ν}
    (h : OpensOwn decrypt publicKey madeFor) {ciphertext : χ} {key key' : κ} {plaintext plaintext' : μ}
    (hkey : decrypt ciphertext key = some plaintext) (hkey' : decrypt ciphertext key' = some plaintext') :
    plaintext = plaintext' := by
  have hpublic : publicKey key = publicKey key' :=
    (h.own ciphertext key plaintext hkey).symm.trans (h.own ciphertext key' plaintext' hkey')
  rw [h.same ciphertext key key' hpublic, hkey'] at hkey
  exact (Option.some.inj hkey).symm

/-! ### Whom a plaintext names -/

section

variable (C : Crypto)

/-- What stands behind the recipient in a plaintext, with the signature. -/
def signedRest (hdr : ObjectHeader) (object body : Buf) (signing : Bytes) : BufParser Unit := do
  let _ ← varint .body body
  let msg ← lengthField .body body
  advance .body msg.2
  let ack ← lengthField .body body
  advance .body ack.2
  let presigOffset ← get
  let sig ← lengthField .body body
  require (C.verify (object.slice 8 (subW hdr.headerLen 8) ++ body.slice 0 presigOffset)
    (body.slice sig.1 sig.2) signing = true)

/-- The ripe of the recipient, in a plaintext that is a signed message. -/
def namedRecipient (hdr : ObjectHeader) (object body : Buf) : BufParser Bytes := do
  set 0
  let fromVer ← varint .body body
  let _ ← varint .body body
  let keys ← senderKeys body
  senderDifficulty body fromVer
  room body 20
  let toRipe ← bytes .body body 20
  signedRest C hdr object body keys.1
  pure toRipe

/-- The recipient that is named, if there is one. -/
def plaintextRecipient (hdr : ObjectHeader) (object body : Buf) : Option Bytes :=
  ((namedRecipient C hdr object body).result hdr.headerLen).map Prod.fst

end

section

variable {C : Crypto} {hdr : ObjectHeader} {object object' body : Buf} {identity : UnlockedIdentity}

theorem bind_isSome_iff_exists {α β γ δ : Type} {o : Option α} {F : α → Option β} {G : α → Option (γ × δ)} {r : γ}
    (h : ∀ x, (F x).isSome ↔ ∃ q, G x = some (r, q)) : (o.bind F).isSome ↔ ∃ q, o.bind G = some (r, q) := by
  cases o with
  | none => simp
  | some x => exact h x

theorem bind_isSome_congr {α β γ : Type} {o : Option α} {F : α → Option β} {G : α → Option γ}
    (h : ∀ x, (F x).isSome ↔ (G x).isSome) : (o.bind F).isSome ↔ (o.bind G).isSome := by
  cases o with
  | none => exact Iff.rfl
  | some x => exact h x

/-- `trial_decrypt_body` accepts a signed message to the identity's ripe, and nothing else. -/
theorem trialDecryptBody_isSome_iff {p : ℕ} : ((trialDecryptBody C identity hdr object body).result p).isSome ↔
    ∃ q, (namedRecipient C hdr object body).result p = some (identity.ripe, q) := by
  unfold trialDecryptBody namedRecipient
  rw [result_bind_of_result (result_set _ _), result_bind_of_result (result_set _ _), result_bind, result_bind]
  refine bind_isSome_iff_exists fun fromVer => ?_
  rw [result_bind, result_bind]
  refine bind_isSome_iff_exists fun fromStream => ?_
  rw [result_bind, result_bind]
  refine bind_isSome_iff_exists fun keys => ?_
  rw [result_bind, result_bind]
  refine bind_isSome_iff_exists fun _ => ?_
  rw [result_bind, result_bind]
  refine bind_isSome_iff_exists fun _ => ?_
  rw [result_bind, result_bind]
  refine bind_isSome_iff_exists fun ⟨toRipe, p₆⟩ => ?_
  have hpure : (∃ q, ((signedRest C hdr object body keys.1.1 >>= fun _ => pure toRipe).result p₆) =
      some (identity.ripe, q)) ↔ toRipe = identity.ripe ∧
        ((signedRest C hdr object body keys.1.1).result p₆).isSome := by
    rw [result_bind]
    cases (signedRest C hdr object body keys.1.1).result p₆ with
    | none => simp
    | some t => simp [result_pure]
  rw [hpure, result_bind, result_require]
  by_cases hripe : toRipe = identity.ripe
  · rw [if_pos hripe, Option.bind_some, and_iff_right hripe]
    unfold signedRest
    rw [result_bind, result_bind]
    refine bind_isSome_congr fun encoding => ?_
    rw [result_bind, result_bind]
    refine bind_isSome_congr fun msg => ?_
    rw [result_bind, result_bind]
    refine bind_isSome_congr fun _ => ?_
    rw [result_bind, result_bind]
    refine bind_isSome_congr fun ack => ?_
    rw [result_bind, result_bind]
    refine bind_isSome_congr fun _ => ?_
    rw [result_bind_of_result (result_get _), result_bind_of_result (result_get _), result_bind, result_bind]
    refine bind_isSome_congr fun sig => ?_
    rw [result_bind_of_result (result_emit _ _), result_bind_of_result (result_emit _ _),
      result_bind_of_result (result_emit _ _), result_bind]
    rcases (require (C.verify (object.slice 8 (subW hdr.headerLen 8) ++ body.slice 0 _) _ keys.1.1 = true) :
        BufParser Unit).result sig.2 with _ | _
    · exact Iff.rfl
    · rw [Option.bind_some, result_bind_of_result (result_emit _ _), result_bind_of_result (result_emit _ _),
        result_pure]
      rfl
  · rw [if_neg hripe, Option.bind_none]
    simp [hripe]

/-- An identity accepts a plaintext exactly when it is named there. -/
theorem accepted_iff_named :
    (((trialDecryptBody C identity hdr object body).result hdr.headerLen).map Prod.fst).isSome ↔
      plaintextRecipient C hdr object body = some identity.ripe := by
  rw [Option.isSome_map, trialDecryptBody_isSome_iff, plaintextRecipient, Option.map_eq_some_iff]
  constructor
  · rintro ⟨q, hq⟩
    exact ⟨_, hq, rfl⟩
  · rintro ⟨⟨ripe, q⟩, hq, rfl⟩
    exact ⟨q, hq⟩

end

/-! ### The search and each identity alone -/

section

variable (C : Crypto)

/-- Whether the key of an identity opens the ciphertext of an object. -/
def opensMsg (hdr : ObjectHeader) (object : Buf) (identity : UnlockedIdentity) : Option Buf :=
  C.eciesDecrypt (msgCiphertext hdr object) identity.privEncryption

/-- What an identity makes of the plaintext. -/
def acceptsMsg (hdr : ObjectHeader) (object : Buf) (identity : UnlockedIdentity) (body : Buf) : Option DecodedMsg :=
  ((trialDecryptBody C identity hdr object body).result hdr.headerLen).map Prod.fst

/-- The keyring decodes an object exactly when one of the identities does alone, and to the same text. -/
structure TrialsAgree (unlocked : List UnlockedIdentity) (object : Buf) : Prop where
  single_of_keyring : ∀ msg, decodedMsg C unlocked object = some msg →
    ∃ identity ∈ unlocked, ∃ msg', decodedMsgSingle C identity object = some msg' ∧ msg'.SameText msg
  keyring_of_single : ∀ identity ∈ unlocked, ∀ msg', decodedMsgSingle C identity object = some msg' →
    ∃ msg, decodedMsg C unlocked object = some msg ∧ msg.SameText msg'

/-- The first identity whose key opens a `msg` has the ripe that the plaintext names, if an identity
with that ripe opens it at all. -/
def FirstIsRecipient (unlocked : List UnlockedIdentity) (object : Buf) : Prop :=
  ∀ hdr, object.header = some hdr → hdr.objectType = objectMsg ∧ hdr.version = 1 →
    FirstHasKey (plaintextRecipient C hdr object) UnlockedIdentity.ripe (opensMsg C hdr object) unlocked

end

section

variable {C : Crypto} {hdr : ObjectHeader} {object object' : Buf} {unlocked : List UnlockedIdentity}
  {identity : UnlockedIdentity} {publicKey madeFor : Bytes → Bytes}

/-- The keyring commits to the first identity that opens. -/
theorem decodedMsg_eq_committed (h : object.header = some hdr) : decodedMsg C unlocked object =
    if hdr.objectType = objectMsg ∧ hdr.version = 1 then
      committed (opensMsg C hdr object) (acceptsMsg C hdr object) unlocked
    else none := by
  have hopened : trialOpen C unlocked (msgCiphertext hdr object) = firstOpened (opensMsg C hdr object) unlocked := rfl
  rw [decodedMsg, result_trialDecryptMsg h, hopened, committed]
  split_ifs
  · cases firstOpened (opensMsg C hdr object) unlocked with
    | none => rfl
    | some opened => rw [Option.bind_some, Option.bind_some, acceptsMsg]
  · rfl

theorem decodedMsgSingle_eq_alone (h : object.header = some hdr) : decodedMsgSingle C identity object =
    if hdr.objectType = objectMsg ∧ hdr.version = 1 then
      alone (opensMsg C hdr object) (acceptsMsg C hdr object) identity
    else none := by
  unfold decodedMsgSingle trialDecryptMsgSingle
  rw [result_bind_of_result (Buf.header_eq_some h).1, result_bind, result_require]
  split_ifs
  · rw [Option.bind_some, result_bind_of_result (result_emit _ _), alone, opensMsg]
    cases C.eciesDecrypt (msgCiphertext hdr object) identity.privEncryption with
    | none => rfl
    | some body => rw [Option.bind_some, acceptsMsg]
  · rfl

theorem decodedMsg_of_no_header (h : object.header = none) : decodedMsg C unlocked object = none := by
  have hparse : (objectParseHeader object).result 0 = none := Option.map_eq_none_iff.mp h
  rw [decodedMsg, trialDecryptMsg, result_bind, hparse, Option.bind_none, Option.map_none]

theorem decodedMsgSingle_of_no_header (h : object.header = none) : decodedMsgSingle C identity object = none := by
  have hparse : (objectParseHeader object).result 0 = none := Option.map_eq_none_iff.mp h
  rw [decodedMsgSingle, trialDecryptMsgSingle, result_bind, hparse, Option.bind_none, Option.map_none]

theorem opensAlike_opensMsg (hC : OpensOwn C.eciesDecrypt publicKey madeFor) :
    OpensAlike (opensMsg C hdr object) unlocked :=
  fun _ _ _ _ _ _ hbody hbody' => hC.alike hbody hbody'

/-- Two identities that accept a plaintext read the same text. -/
theorem sameText_of_accepted {identity' : UnlockedIdentity} {body : Buf} {msg msg' : DecodedMsg}
    (h : acceptsMsg C hdr object identity body = some msg) (h' : acceptsMsg C hdr object identity' body = some msg') :
    msg.SameText msg' := by
  have hnamed : plaintextRecipient C hdr object body = some identity.ripe :=
    accepted_iff_named.mp (Option.isSome_iff_exists.mpr ⟨msg, h⟩)
  have hnamed' : plaintextRecipient C hdr object body = some identity'.ripe :=
    accepted_iff_named.mp (Option.isSome_iff_exists.mpr ⟨msg', h'⟩)
  have hripe : identity.ripe = identity'.ripe := Option.some.inj (hnamed.symm.trans hnamed')
  obtain ⟨⟨_, q⟩, hresult, rfl⟩ := Option.map_eq_some_iff.mp h
  obtain ⟨⟨_, q'⟩, hresult', rfl⟩ := Option.map_eq_some_iff.mp h'
  obtain ⟨msg'', hread, hsame⟩ := (trialDecryptBody_identity identity hresult').1 hripe
  rw [hresult] at hread
  cases hread
  exact hsame

/-- What the keyring decodes, one of the identities decodes alone. -/
theorem exists_single_of_keyring {msg : DecodedMsg} (h : decodedMsg C unlocked object = some msg) :
    ∃ identity ∈ unlocked, decodedMsgSingle C identity object = some msg := by
  rcases hheader : object.header with _ | hdr
  · rw [decodedMsg_of_no_header hheader] at h
    cases h
  · rw [decodedMsg_eq_committed hheader] at h
    split_ifs at h with htype
    obtain ⟨identity, hmem, halone⟩ := exists_alone_of_committed h
    exact ⟨identity, hmem, by rw [decodedMsgSingle_eq_alone hheader, if_pos htype, halone]⟩

/-- What the keyring decodes is the text that an identity decodes alone. -/
theorem sameText_of_single (hC : OpensOwn C.eciesDecrypt publicKey madeFor) {msg msg' : DecodedMsg}
    (hmem : identity ∈ unlocked) (h : decodedMsg C unlocked object = some msg)
    (h' : decodedMsgSingle C identity object = some msg') : msg.SameText msg' := by
  rcases hheader : object.header with _ | hdr
  · rw [decodedMsg_of_no_header hheader] at h
    cases h
  · rw [decodedMsg_eq_committed hheader] at h
    rw [decodedMsgSingle_eq_alone hheader] at h'
    split_ifs at h h' with htype
    -- the first identity that opens and this one accept the same plaintext
    obtain ⟨body, hbody, haccepts⟩ := Option.bind_eq_some_iff.mp h'
    have halike : OpensAlike (opensMsg C hdr object) unlocked := opensAlike_opensMsg hC
    obtain ⟨first, hopened⟩ := halike.exists_first hmem hbody
    rw [committed_of_first hopened] at h
    exact sameText_of_accepted h haccepts

/-- The search leaves nobody out exactly when the first identity that opens is one that the plaintext
names, if there is such a one. -/
theorem firstIsRecipient_iff (hC : OpensOwn C.eciesDecrypt publicKey madeFor) : FirstIsRecipient C unlocked object ↔
    ∀ identity ∈ unlocked, (decodedMsgSingle C identity object).isSome → (decodedMsg C unlocked object).isSome := by
  rcases hheader : object.header with _ | hdr
  · refine iff_of_true (fun hdr h => ?_) (fun identity _ h => ?_)
    · rw [hheader] at h
      cases h
    · rw [decodedMsgSingle_of_no_header hheader] at h
      cases h
  have hfirst : FirstIsRecipient C unlocked object ↔ (hdr.objectType = objectMsg ∧ hdr.version = 1 →
      FirstHasKey (plaintextRecipient C hdr object) UnlockedIdentity.ripe (opensMsg C hdr object) unlocked) := by
    refine ⟨fun h => h hdr hheader, fun h hdr' hheader' => ?_⟩
    cases hheader.symm.trans hheader'
    exact h
  rw [hfirst]
  simp only [decodedMsg_eq_committed hheader, decodedMsgSingle_eq_alone hheader]
  by_cases htype : hdr.objectType = objectMsg ∧ hdr.version = 1
  · have halike : OpensAlike (opensMsg C hdr object) unlocked := opensAlike_opensMsg hC
    have haccepts : ∀ identity ∈ unlocked, ∀ body, (acceptsMsg C hdr object identity body).isSome ↔
        plaintextRecipient C hdr object body = some identity.ripe := fun _ _ _ => accepted_iff_named
    rw [imp_iff_right htype, ← halike.firstHasKey_iff haccepts]
    simp only [if_pos htype]
  · refine iff_of_true (fun h => absurd h htype) (fun identity _ h => ?_)
    rw [if_neg htype] at h
    cases h

/-- The keyring and the single identities agree on an object under the same condition. -/
theorem trialsAgree_iff (hC : OpensOwn C.eciesDecrypt publicKey madeFor) :
    TrialsAgree C unlocked object ↔ FirstIsRecipient C unlocked object := by
  rw [firstIsRecipient_iff hC]
  constructor
  · intro h identity hmem hsingle
    obtain ⟨msg', hmsg'⟩ := Option.isSome_iff_exists.mp hsingle
    obtain ⟨msg, hmsg, -⟩ := h.keyring_of_single identity hmem msg' hmsg'
    rw [hmsg]
    rfl
  · intro h
    constructor
    · intro msg hmsg
      obtain ⟨identity, hmem, hsingle⟩ := exists_single_of_keyring hmsg
      exact ⟨identity, hmem, msg, hsingle, rfl, rfl, rfl⟩
    · intro identity hmem msg' hmsg'
      obtain ⟨msg, hmsg⟩ := Option.isSome_iff_exists.mp (h identity hmem (Option.isSome_iff_exists.mpr ⟨msg', hmsg'⟩))
      exact ⟨msg, hmsg, sameText_of_single hC hmem hmsg hmsg'⟩

/-- Whether an identity decodes an object depends on its key and its ripe. -/
theorem decodedMsgSingle_isSome_of_keys {identity' : UnlockedIdentity}
    (hkey : identity.privEncryption = identity'.privEncryption) (hripe : identity.ripe = identity'.ripe)
    (h : (decodedMsgSingle C identity object).isSome) : (decodedMsgSingle C identity' object).isSome := by
  obtain ⟨msg, hmsg⟩ := Option.isSome_iff_exists.mp h
  rcases hheader : object.header with _ | hdr
  · rw [decodedMsgSingle_of_no_header hheader] at hmsg
    cases hmsg
  · rw [decodedMsgSingle_eq_alone hheader] at hmsg
    split_ifs at hmsg with htype
    obtain ⟨body, hbody, haccepts⟩ := Option.bind_eq_some_iff.mp hmsg
    have hnamed : plaintextRecipient C hdr object body = some identity.ripe :=
      accepted_iff_named.mp (Option.isSome_iff_exists.mpr ⟨msg, haccepts⟩)
    have hbody' : opensMsg C hdr object identity' = some body := by
      rw [opensMsg, ← hkey]
      exact hbody
    rw [decodedMsgSingle_eq_alone hheader, if_pos htype, alone, hbody', Option.bind_some]
    exact accepted_iff_named.mpr (hripe ▸ hnamed)

/-- It is enough that unlocked identities with one encryption key have one ripe. -/
theorem firstIsRecipient_of_keys (hC : OpensOwn C.eciesDecrypt publicKey madeFor)
    (h : ∀ i ∈ unlocked, ∀ j ∈ unlocked, publicKey i.privEncryption = publicKey j.privEncryption → i.ripe = j.ripe) :
    FirstIsRecipient C unlocked object := by
  intro hdr _ _ first body hfirst identity hmem hopens _
  obtain ⟨hmemFirst, hbody⟩ := firstOpened_eq_some hfirst
  obtain ⟨body', hbody'⟩ := Option.isSome_iff_exists.mp hopens
  exact h first hmemFirst identity hmem ((hC.own _ _ _ hbody).symm.trans (hC.own _ _ _ hbody'))

theorem opensMsg_congr (h : object.bytes = object'.bytes) (hheader : object.header = some hdr) :
    opensMsg C hdr object = opensMsg C hdr object' := by
  have hle := (Buf.header_eq_some hheader).2.2
  have hw := object.size_lt
  have hsub : subW object.size hdr.headerLen = object.size - hdr.headerLen :=
    subW_of_le (by unfold wordSize; omega) hle
  have hciphertext : msgCiphertext hdr object = msgCiphertext hdr object' := by
    rw [msgCiphertext, msgCiphertext, ← Buf.size_congr h, hsub, Buf.slice_congr h (by omega)]
  funext identity
  rw [opensMsg, opensMsg, hciphertext]

theorem acceptsMsg_congr (h : object.bytes = object'.bytes) (hheader : object.header = some hdr) :
    acceptsMsg C hdr object = acceptsMsg C hdr object' := by
  obtain ⟨-, hlen, hle⟩ := Buf.header_eq_some hheader
  have hw := object.size_lt
  have hsub : subW hdr.headerLen 8 = hdr.headerLen - 8 := subW_of_le (by unfold wordSize; omega) (by omega)
  have hsigned : object.slice 8 (subW hdr.headerLen 8) = object'.slice 8 (subW hdr.headerLen 8) := by
    rw [hsub]
    exact Buf.slice_congr h (by omega)
  funext identity body
  have hparser : trialDecryptBody C identity hdr object body = trialDecryptBody C identity hdr object' body := by
    unfold trialDecryptBody
    rw [hsigned]
  rw [acceptsMsg, acceptsMsg, hparser]

/-- A trial depends on the contents of the object only. -/
theorem decodedMsg_congr (h : object.bytes = object'.bytes) :
    decodedMsg C unlocked object = decodedMsg C unlocked object' := by
  have hheader' : object.header = object'.header := Buf.header_congr h
  rcases hheader : object.header with _ | hdr
  · rw [decodedMsg_of_no_header hheader, decodedMsg_of_no_header (hheader'.symm.trans hheader)]
  · rw [decodedMsg_eq_committed hheader, decodedMsg_eq_committed (hheader'.symm.trans hheader),
      opensMsg_congr h hheader, acceptsMsg_congr h hheader]

theorem decodedMsgSingle_congr (h : object.bytes = object'.bytes) :
    decodedMsgSingle C identity object = decodedMsgSingle C identity object' := by
  have hheader' : object.header = object'.header := Buf.header_congr h
  rcases hheader : object.header with _ | hdr
  · rw [decodedMsgSingle_of_no_header hheader, decodedMsgSingle_of_no_header (hheader'.symm.trans hheader)]
  · rw [decodedMsgSingle_eq_alone hheader, decodedMsgSingle_eq_alone (hheader'.symm.trans hheader),
      opensMsg_congr h hheader, acceptsMsg_congr h hheader]

end

/-! ### Version 5 -/

section

variable (C : Crypto) (P : PqCrypto)

/-- The message as an identity of version 5 parses it. -/
def pqOpensMsg (object : Buf) (identity : UnlockedPqIdentity) : Option PqMsgParsed :=
  (pqOpenAs P identity object).map Prod.snd

/-- What is stored of a parsed message, if its sender's address fits. -/
def pqAcceptsMsg (identity : UnlockedPqIdentity) (parsed : PqMsgParsed) : Option DecodedMsg :=
  (pqv5AddressEncode C.toHashes parsed.fromAddressVersion parsed.fromStream parsed.fromId).bind fun sender =>
    if addressStrMax ≤ sender.length then none
    else
      let text := decodeMessage parsed.encoding parsed.message
      some {
        fromAddressVersion := parsed.fromAddressVersion
        fromStream := parsed.fromStream
        fromAddress := sender
        toAddress := identity.address
        subject := text.1
        body := text.2
        ackPayload := parsed.ack }

/-- A sealed text opens only with the secret key that it was sealed for. -/
def PqCrypto.OpensOwn (publicKey madeFor : Bytes → Bytes) : Prop :=
  ∀ aad, Bitmessage.OpensOwn (fun sealed sk => P.pqv5Open sk aad sealed) publicKey madeFor

end

section

variable {C : Crypto} {P : PqCrypto} {hdr : ObjectHeader} {object object' : Buf} {identities : List UnlockedPqIdentity}
  {publicKey madeFor : Bytes → Bytes}

/-- The parser of the sealed part starts a reader of its own. -/
theorem result_pqParseMsgSealed (kemSk : Bytes) (plainLen : ℕ) (s : RBuf) :
    (pqParseMsgSealed P kemSk object plainLen).result s =
      if addW (addW 8 plainLen) pqv5SealOverhead ≤ object.size then
        (pqOpen P kemSk plainLen object).bind fun inner => (pqParseMsgInner P plainLen object inner).result rbufInit
      else none := by
  unfold pqParseMsgSealed
  by_cases hfits : addW (addW 8 plainLen) pqv5SealOverhead ≤ object.size
  · rw [result_require_bind hfits, result_pqOpenAccess_bind, if_pos hfits]
    cases pqOpen P kemSk plainLen object with
    | none => rw [result_stop, Option.bind_none]
    | some inner =>
      rw [Option.bind_some]
      unfold pqParseMsgInner
      rw [result_bind_of_result (result_set _ _), result_bind_of_result (result_set _ _)]
  · rw [result_bind, result_require, if_neg hfits, Option.bind_none, if_neg hfits]

/-- The parser of a message looks at the version in the header, and opens what stands behind it. -/
theorem pqParsed_pqParseMsg (kemSk : Bytes) : pqParsed (pqParseMsg P kemSk object) =
    object.header.bind fun hdr =>
      if hdr.version = pqMsgObjectVersion then pqParsed (pqParseMsgSealed P kemSk object (hdr.headerLen - 8))
      else none := by
  have hw := object.size_lt
  unfold Buf.header pqParsed pqParseMsg
  rw [result_objectParseHeader]
  by_cases h20 : 20 ≤ object.size
  · rw [result_require_bind h20, result_bind_of_result (result_set _ _), result_bind, result_rVarint h20, if_pos h20]
    simp only [Bool.false_eq_true, if_false]
    rcases hv : object.varintAt 20 with _ | ⟨v, p⟩
    · rw [Option.elim_none, Option.bind_some, result_bind_of_result (result_get _), result_bind, result_require,
        if_neg (by simp)]
      rfl
    obtain ⟨hlt, hp, -⟩ := Buf.varintAt_eq_some hv h20
    rw [Option.elim_some, Option.bind_some, result_bind_of_result (result_get _), Option.bind_some]
    by_cases hversion : v = pqMsgObjectVersion
    · rw [result_require_bind ⟨hversion, rfl⟩, result_bind, result_rVarint hp]
      simp only [Bool.false_eq_true, if_false]
      rcases hs : object.varintAt p with _ | ⟨w, q⟩
      · rw [Option.elim_none, Option.bind_some, result_bind_of_result (result_get _), result_bind, result_require,
          if_neg (by simp)]
        rfl
      obtain ⟨hlt', hq, -⟩ := Buf.varintAt_eq_some hs hp
      have hsub : subW q 8 = q - 8 := subW_of_le (by unfold wordSize; omega) (by omega)
      rw [Option.elim_some, Option.bind_some, result_bind_of_result (result_get _), result_require_bind rfl, hsub,
        Option.map_some, Option.map_some, Option.bind_some, if_pos hversion, result_pqParseMsgSealed,
        result_pqParseMsgSealed]
    · rw [result_bind, result_require, if_neg fun h => hversion h.1, Option.bind_none]
      rcases object.varintAt p with _ | ⟨w, q⟩
      · rfl
      · rw [Option.map_some, Option.map_some, Option.bind_some, if_neg hversion]
        rfl
  · rw [result_bind, result_require, if_neg (show ¬ 8 + 12 ≤ object.size from h20), Option.bind_none, if_neg h20]
    rfl

theorem pqParsed_pqParseMsg_congr (h : object.bytes = object'.bytes) (kemSk : Bytes) :
    pqParsed (pqParseMsg P kemSk object) = pqParsed (pqParseMsg P kemSk object') := by
  rw [pqParsed_pqParseMsg, pqParsed_pqParseMsg, ← Buf.header_congr h]
  refine Option.bind_congr fun hdr hheader => ?_
  obtain ⟨-, hlen, hle⟩ := Buf.header_eq_some hheader
  have hw := object.size_lt
  have hsub : subW (subW object.size 8) (hdr.headerLen - 8) = object.size - 8 - (hdr.headerLen - 8) := by
    rw [subW_of_le (by unfold wordSize; omega) (show 8 ≤ object.size by omega),
      subW_of_le (by unfold wordSize; omega) (by omega)]
  have hplain : object.slice 8 (hdr.headerLen - 8) = object'.slice 8 (hdr.headerLen - 8) :=
    Buf.slice_congr h (by omega)
  have hopen : pqOpen P kemSk (hdr.headerLen - 8) object = pqOpen P kemSk (hdr.headerLen - 8) object' := by
    rw [pqOpen, pqOpen, ← Buf.size_congr h, hsub, hplain, Buf.slice_congr h (by omega)]
  have hcheck (inner : Buf) (sigPk : Bytes) : pqCheckSignature P (hdr.headerLen - 8) object inner sigPk =
      pqCheckSignature P (hdr.headerLen - 8) object' inner sigPk := by
    unfold pqCheckSignature
    rw [hplain]
  have hinner (inner : Buf) : pqParseMsgInner P (hdr.headerLen - 8) object inner =
      pqParseMsgInner P (hdr.headerLen - 8) object' inner := by
    unfold pqParseMsgInner
    simp only [hcheck]
  unfold pqParsed
  rw [result_pqParseMsgSealed, result_pqParseMsgSealed, ← Buf.size_congr h, hopen]
  simp only [hinner]

/-- Two secret keys that open a message find the same in it. -/
theorem pqParsed_pqParseMsg_alike (hP : P.OpensOwn publicKey madeFor) {kemSk kemSk' : Bytes}
    {parsed parsed' : PqMsgParsed}
    (h : pqParsed (pqParseMsg P kemSk object) = some parsed)
    (h' : pqParsed (pqParseMsg P kemSk' object) = some parsed') : parsed = parsed' := by
  rw [pqParsed_pqParseMsg] at h h'
  obtain ⟨hdr, hheader, h⟩ := Option.bind_eq_some_iff.mp h
  obtain ⟨_, hheader', h'⟩ := Option.bind_eq_some_iff.mp h'
  cases hheader.symm.trans hheader'
  split_ifs at h h'
  obtain ⟨_, hresult, rfl⟩ := Option.map_eq_some_iff.mp h
  obtain ⟨_, hresult', rfl⟩ := Option.map_eq_some_iff.mp h'
  rw [result_pqParseMsgSealed] at hresult hresult'
  split_ifs at hresult hresult'
  obtain ⟨inner, hinner, hresult⟩ := Option.bind_eq_some_iff.mp hresult
  obtain ⟨inner', hinner', hresult'⟩ := Option.bind_eq_some_iff.mp hresult'
  cases (hP _).alike hinner hinner'
  rw [Option.some.inj (hresult.symm.trans hresult')]

theorem pqOpensMsg_eq_some {identity : UnlockedPqIdentity} {parsed : PqMsgParsed}
    (h : pqOpensMsg P object identity = some parsed) :
    pqOpenAs P identity object = some (identity, parsed) ∧
      ∃ kemSk, pqParsed (pqParseMsg P kemSk object) = some parsed := by
  obtain ⟨⟨identity', parsed'⟩, hopen, hparsed⟩ := Option.map_eq_some_iff.mp h
  obtain ⟨kemSk, -, hread⟩ := Option.bind_eq_some_iff.mp hopen
  obtain ⟨parsed'', hparse, hread⟩ := Option.bind_eq_some_iff.mp hread
  split_ifs at hread
  cases hread
  cases hparsed
  exact ⟨hopen, kemSk, hparse⟩

/-- The search through the identities of version 5. -/
theorem pqDecodedMsg_eq_committed : pqDecodedMsg C P identities object =
    committed (pqOpensMsg P object) (pqAcceptsMsg C) identities := by
  have hfirst : pqKeyringOpenMsg P identities object = firstOpened (pqOpensMsg P object) identities := by
    unfold pqKeyringOpenMsg firstOpened
    refine congrArg (fun f => identities.findSome? f) (funext fun identity => ?_)
    rcases hopens : pqOpensMsg P object identity with _ | parsed
    · exact Option.map_eq_none_iff.mp hopens
    · exact (pqOpensMsg_eq_some hopens).1
  rw [pqDecodedMsg, hfirst, committed]
  rfl

/-- Nothing is lost by the search. -/
theorem pqDecodedMsg_isSome_iff (hP : P.OpensOwn publicKey madeFor) : (pqDecodedMsg C P identities object).isSome ↔
    ∃ identity ∈ identities, (alone (pqOpensMsg P object) (pqAcceptsMsg C) identity).isSome := by
  have halike : OpensAlike (pqOpensMsg P object) identities := by
    intro identity _ identity' _ parsed parsed' h h'
    obtain ⟨-, kemSk, hparse⟩ := pqOpensMsg_eq_some h
    obtain ⟨-, kemSk', hparse'⟩ := pqOpensMsg_eq_some h'
    exact pqParsed_pqParseMsg_alike hP hparse hparse'
  rw [pqDecodedMsg_eq_committed, halike.committed_isSome_iff]
  intro identity _ identity' _ parsed _ _ haccepts
  obtain ⟨msg, hmsg⟩ := Option.isSome_iff_exists.mp haccepts
  obtain ⟨sender, hsender, hmsg⟩ := Option.bind_eq_some_iff.mp hmsg
  split_ifs at hmsg with hlong
  rw [pqAcceptsMsg, hsender, Option.bind_some, if_neg hlong]
  rfl

/-- A message of version 5 is not read without a header of its version. -/
theorem pqDecodedMsg_of_version (h : ∀ hdr, object.header = some hdr → hdr.version ≠ pqMsgObjectVersion) :
    pqDecodedMsg C P identities object = none := by
  rcases hdecoded : pqDecodedMsg C P identities object with _ | msg
  · rfl
  · rw [pqDecodedMsg_eq_committed] at hdecoded
    obtain ⟨identity, -, halone⟩ := exists_alone_of_committed hdecoded
    obtain ⟨parsed, hopens, -⟩ := Option.bind_eq_some_iff.mp halone
    obtain ⟨-, kemSk, hparse⟩ := pqOpensMsg_eq_some hopens
    rw [pqParsed_pqParseMsg] at hparse
    obtain ⟨hdr, hheader, hparse⟩ := Option.bind_eq_some_iff.mp hparse
    rw [if_neg (h hdr hheader)] at hparse
    cases hparse

theorem pqDecodedMsg_congr (h : object.bytes = object'.bytes) :
    pqDecodedMsg C P identities object = pqDecodedMsg C P identities object' := by
  have hopen (identity : UnlockedPqIdentity) : pqOpenAs P identity object = pqOpenAs P identity object' := by
    unfold pqOpenAs
    simp only [pqParsed_pqParseMsg_congr h]
  unfold pqDecodedMsg pqKeyringOpenMsg
  simp only [hopen]

end

end Bitmessage
