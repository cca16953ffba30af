import Bitmessage.Core.Address
import Bitmessage.Core.Identity
import Bitmessage.Infra.Object

/-! Receiving a `msg` object: every unlocked key is tried on the ciphertext, and the
plaintext of the first that opens it is parsed, its signature checked and its sender
named. The parser logs its accesses to the object and to the plaintext. -/

namespace Bitmessage

open Traced BufParser

/-- `struct bm_decoded_msg`. -/
structure DecodedMsg where
  fromAddressVersion : ℕ
  fromStream : ℕ
  fromAddress : Bytes
  toAddress : Bytes
  subject : Bytes
  body : Bytes
  ackPayload : Bytes

/-- `\nBody:`. -/
def bodyNeedle : Bytes := [0x0a, 0x42, 0x6f, 0x64, 0x79, 0x3a]

/-- `decode_simple`: the subject and the body of `Subject:...\nBody:...`. -/
def decodeSimple (data : Bytes) : Bytes × Bytes :=
  match (List.range (data.length + 1 - 6)).find? fun i => decide ((data.drop i).take 6 = bodyNeedle) with
  | some bodyIdx =>
    if 1 < bodyIdx then
      let line := (data.drop 8).take (min (bodyIdx - 8) 500)
      (line.takeWhile (· ≠ 0x0a), data.drop (bodyIdx + 6))
    else ([], data)
  | none => ([], data)

/-- The subject and the body for an encoding. -/
def decodeMessage (encoding : ℕ) (data : Bytes) : Bytes × Bytes :=
  if encoding = 2 then decodeSimple data else ([], data)

variable (C : Crypto)

/-- The two coordinates of a public key, with the room for the bitfield in front of them checked
together; the bitfield itself is skipped. -/
def senderKeys (body : Buf) : BufParser (Bytes × Bytes) := do
  room body (4 + 64 + 64)
  advance .body 4
  let signing ← bytes .body body 64
  let encryption ← bytes .body body 64
  pure (uncompressed signing, uncompressed encryption)

/-- The difficulty, present from address version 3 on and not used. -/
def senderDifficulty (body : Buf) (fromVer : ℕ) : BufParser Unit :=
  if 3 ≤ fromVer then do
    let _ ← varint .body body
    let _ ← varint .body body
    pure ()
  else pure ()

/-- `trial_decrypt_body`. -/
def trialDecryptBody (identity : UnlockedIdentity) (hdr : ObjectHeader) (object body : Buf) :
    BufParser DecodedMsg := do
  set 0
  let fromVer ← varint .body body
  let fromStream ← varint .body body
  let keys ← senderKeys body
  senderDifficulty body fromVer
  room body 20
  let toRipe ← bytes .body body 20
  require (toRipe = identity.ripe)
  let encoding ← varint .body body
  let msg ← lengthField .body body
  advance .body msg.2
  let ack ← lengthField .body body
  advance .body ack.2
  let presigOffset ← get
  let sig ← lengthField .body body
  emit (.read .object 8 (subW hdr.headerLen 8))
  emit (.read .body 0 presigOffset)
  emit (.read .body sig.1 sig.2)
  require (C.verify (object.slice 8 (subW hdr.headerLen 8) ++ body.slice 0 presigOffset)
    (body.slice sig.1 sig.2) keys.1 = true)
  let fromAddress := addressEncode C.toHashes fromVer fromStream (addressCalcRipe C.toHashes keys.1 keys.2)
  emit (.read .body msg.1 msg.2)
  let text := decodeMessage encoding (body.slice msg.1 msg.2)
  emit (.read .body ack.1 (if identity.isChan then 0 else ack.2))
  pure {
    fromAddressVersion := fromVer
    fromStream := fromStream
    fromAddress := toAddressBuffer (fromAddress.getD [])
    toAddress := identity.address
    subject := text.1
    body := text.2
    ackPayload := if identity.isChan then [] else body.slice ack.1 ack.2 }

/-- The first unlocked identity whose key opens the ciphertext, with the plaintext. -/
def trialOpen (unlocked : List UnlockedIdentity) (ciphertext : Bytes) : Option (UnlockedIdentity × Buf) :=
  unlocked.findSome? fun identity => (C.eciesDecrypt ciphertext identity.privEncryption).map fun body => (identity, body)

theorem trialOpen_eq_some {C : Crypto} {unlocked : List UnlockedIdentity} {ciphertext : Bytes}
    {identity : UnlockedIdentity} {body : Buf} (h : trialOpen C unlocked ciphertext = some (identity, body)) :
    identity ∈ unlocked ∧ C.eciesDecrypt ciphertext identity.privEncryption = some body := by
  obtain ⟨identity', hmem, ho⟩ := List.exists_of_findSome?_eq_some h
  obtain ⟨body', hbody, he⟩ := Option.map_eq_some_iff.mp ho
  cases he
  exact ⟨hmem, hbody⟩

theorem trialOpen_isSome {C : Crypto} {unlocked : List UnlockedIdentity} {ciphertext : Bytes}
    {identity : UnlockedIdentity} {body : Buf} (hmem : identity ∈ unlocked)
    (h : C.eciesDecrypt ciphertext identity.privEncryption = some body) :
    ∃ opened, trialOpen C unlocked ciphertext = some opened := by
  rw [← Option.isSome_iff_exists, trialOpen, List.findSome?_isSome_iff]
  exact ⟨identity, hmem, by simp [h]⟩

/-- `bm_trial_decrypt_msg` on the unlocked identities, once the key that opens the object is
found: it is given with the plaintext. -/
def trialDecryptMsgWith (opened : Option (UnlockedIdentity × Buf)) (hdr : ObjectHeader) (object : Buf) :
    BufParser DecodedMsg :=
  match opened with
  | none => stop
  | some (identity, body) => trialDecryptBody C identity hdr object body

/-- The ciphertext of a `msg` object. -/
def msgCiphertext (hdr : ObjectHeader) (object : Buf) : Bytes :=
  object.slice hdr.headerLen (subW object.size hdr.headerLen)

/-- `bm_trial_decrypt_msg`. -/
def trialDecryptMsg (unlocked : List UnlockedIdentity) (object : Buf) : BufParser DecodedMsg := do
  let hdr ← objectParseHeader object
  require (hdr.objectType = objectMsg ∧ hdr.version = 1)
  emit (.read .object hdr.headerLen (subW object.size hdr.headerLen))
  trialDecryptMsgWith C (trialOpen C unlocked (msgCiphertext hdr object)) hdr object

/-- The identity that opens a `msg` object, with the plaintext. -/
def msgOpened (unlocked : List UnlockedIdentity) (object : Buf) : Option (UnlockedIdentity × Buf) :=
  object.header.bind fun hdr => trialOpen C unlocked (msgCiphertext hdr object)

/-- The decoded message, if there is one. -/
def decodedMsg (unlocked : List UnlockedIdentity) (object : Buf) : Option DecodedMsg :=
  ((trialDecryptMsg C unlocked object).result 0).map Prod.fst

/-- `bm_trial_decrypt_msg_single`. -/
def trialDecryptMsgSingle (identity : UnlockedIdentity) (object : Buf) : BufParser DecodedMsg := do
  let hdr ← objectParseHeader object
  require (hdr.objectType = objectMsg ∧ hdr.version = 1)
  emit (.read .object hdr.headerLen (subW object.size hdr.headerLen))
  match C.eciesDecrypt (msgCiphertext hdr object) identity.privEncryption with
  | none => stop
  | some body => trialDecryptBody C identity hdr object body

/-- The message that one identity decodes. -/
def decodedMsgSingle (identity : UnlockedIdentity) (object : Buf) : Option DecodedMsg :=
  ((trialDecryptMsgSingle C identity object).result 0).map Prod.fst

/-! ### Bounds -/

/-- The fields behind the sender's address version. -/
def msgLayout (fromVer : ℕ) (toRipe : Bytes) : List Field :=
  .varint :: .block (4 + 64 + 64) :: (if 3 ≤ fromVer then [.varint, .varint] else []) ++
    [.expect toRipe, .varint, .sized, .sized, .sized]

/-- No length in the plaintext wraps. -/
def MsgLengthsFit (body : Buf) (toRipe : Bytes) : Prop :=
  ∀ fromVer p, body.varintAt 0 = some (fromVer, p) → LengthsFit body (msgLayout fromVer toRipe) p

section

variable {C} {size : Region → ℕ} {object body : Buf} {p : ℕ} {β : Type}

/-- The bitfield is skipped, and the two keys are read behind it, if there is room for all three. -/
theorem result_senderKeys (hp : p ≤ body.size) :
    (senderKeys body).result p =
      if p + (4 + 64 + 64) ≤ body.size then
        some ((uncompressed (body.slice (p + 4) 64), uncompressed (body.slice (p + 4 + 64) 64)), p + (4 + 64 + 64))
      else none := by
  have hw := body.size_lt
  unfold senderKeys
  rw [result_bind, result_room hp (by norm_num)]
  split_ifs
  · rw [Option.bind_some, result_bind_of_result (result_advance 4), addW_inside hp (by norm_num),
      result_bind_of_result (result_bytes (by unfold wordSize; omega)),
      result_bind_of_result (result_bytes (by unfold wordSize; omega)), result_pure]
  · rfl

theorem senderKeys_eq_some {q : ℕ} {keys : Bytes × Bytes} (hp : p ≤ body.size)
    (h : (senderKeys body).result p = some (keys, q)) :
    keys = (uncompressed (body.slice (p + 4) 64), uncompressed (body.slice (p + 4 + 64) 64)) ∧ q ≤ body.size := by
  rw [result_senderKeys hp] at h
  split_ifs at h with hin
  cases h
  exact ⟨rfl, hin⟩

theorem safe_senderKeys (hb : body.size = size .body) (hp : p ≤ body.size) :
    Safe (Access.InBounds size) (senderKeys body) p := by
  have hw := body.size_lt
  unfold senderKeys
  rw [safe_room_bind hp (by norm_num)]
  intro hin
  rw [safe_advance_bind, addW_inside hp (by norm_num), safe_bytes_bind (by unfold wordSize; omega),
    safe_bytes_bind (by unfold wordSize; omega), ← hb]
  exact ⟨by omega, by omega, by omega, safe_pure _ _⟩

theorem safe_senderKeys_bind (hb : body.size = size .body) (hp : p ≤ body.size) {f : Bytes × Bytes → BufParser β} :
    Safe (Access.InBounds size) (senderKeys body >>= f) p ↔
      (p + (4 + 64 + 64) ≤ body.size → Safe (Access.InBounds size)
        (f (uncompressed (body.slice (p + 4) 64), uncompressed (body.slice (p + 4 + 64) 64))) (p + (4 + 64 + 64))) := by
  have hsafe := safe_senderKeys hb hp
  have hres := result_senderKeys hp
  by_cases hin : p + (4 + 64 + 64) ≤ body.size
  · rw [if_pos hin] at hres
    rw [safe_bind_of_result hres, and_iff_right hsafe]
    exact ⟨fun h _ => h, fun h => h hin⟩
  · rw [if_neg hin] at hres
    rw [safe_bind, hres]
    simp [hin, hsafe]

/-- The optional difficulty is a part of the layout. -/
theorem safe_senderDifficulty_bind (hb : body.size = size .body) (hp : p ≤ body.size) {fromVer : ℕ}
    {fs : List Field} {f : Unit → BufParser β}
    (hf : ∀ q, q ≤ body.size → (Safe (Access.InBounds size) (f ()) q ↔ LengthsFit body fs q)) :
    Safe (Access.InBounds size) (senderDifficulty body fromVer >>= f) p ↔
      LengthsFit body ((if 3 ≤ fromVer then [.varint, .varint] else []) ++ fs) p := by
  unfold senderDifficulty
  split_ifs
  · simp only [seq_assoc, ret_bind]
    rw [List.cons_append, List.cons_append, List.nil_append, lengthsFit_varint, safe_varint_bind hb hp]
    refine forall₃_congr fun _ q hq => ?_
    have hq := (Buf.varintAt_eq_some hq hp).2.1
    rw [lengthsFit_varint, safe_varint_bind hb hq]
    exact forall₃_congr fun _ q' hq' => hf q' (Buf.varintAt_eq_some hq' hq).2.1
  · exact hf p hp

/-- The parser of the plaintext stays in bounds exactly when no length wraps. -/
theorem safe_trialDecryptBody {identity : UnlockedIdentity} {hdr : ObjectHeader} (ho : object.size = size .object)
    (hb : body.size = size .body) (hlen : 8 ≤ hdr.headerLen) (hle : hdr.headerLen ≤ object.size) :
    Safe (Access.InBounds size) (trialDecryptBody C identity hdr object body) p ↔
      MsgLengthsFit body identity.ripe := by
  have hw := object.size_lt
  have hripe : identity.ripe.length = 20 := identity.ripe_length
  have hsub : subW hdr.headerLen 8 = hdr.headerLen - 8 := subW_of_le (by unfold wordSize; omega) hlen
  unfold trialDecryptBody MsgLengthsFit msgLayout
  rw [safe_set_bind, safe_varint_bind hb (Nat.zero_le _)]
  refine forall₃_congr fun fromVer p₁ h₁ => ?_
  have h₁ := (Buf.varintAt_eq_some h₁ (Nat.zero_le _)).2.1
  rw [List.cons_append, lengthsFit_varint, safe_varint_bind hb h₁]
  refine forall₃_congr fun fromStream p₂ h₂ => ?_
  have h₂ := (Buf.varintAt_eq_some h₂ h₁).2.1
  rw [List.cons_append, lengthsFit_block, safe_senderKeys_bind hb h₂]
  refine imp_congr_right fun h₃ => safe_senderDifficulty_bind hb h₃ fun p₄ h₄ => ?_
  rw [lengthsFit_expect, safe_room_bind h₄ (by norm_num), hripe]
  refine imp_congr_right fun h₅ => ?_
  rw [safe_bytes_bind (by have := body.size_lt; unfold wordSize; omega), and_iff_right (hb ▸ h₅), safe_require_bind]
  refine imp_congr_right fun _ => ?_
  rw [lengthsFit_varint, safe_varint_bind hb h₅]
  refine forall₃_congr fun encoding p₆ h₆ => ?_
  have h₆ := (Buf.varintAt_eq_some h₆ h₅).2.1
  rw [lengthsFit_sized, safe_sized_bind hb h₆]
  refine forall₃_congr fun msgLen msgOff _ => and_congr_right fun _ => imp_congr_right fun hmsg => ?_
  rw [lengthsFit_sized, safe_sized_bind hb hmsg]
  refine forall₃_congr fun ackLen ackOff _ => and_congr_right fun _ => imp_congr_right fun hack => ?_
  rw [lengthsFit_sized, safe_get_bind, safe_lengthField_bind hb hack]
  refine forall₃_congr fun sigLen sigOff _ => and_congr_right fun _ => imp_congr_right fun hsig => ?_
  -- the slices have passed their checks: what is left reads them and the header
  refine iff_of_true ?_ trivial
  rw [safe_emit_bind, safe_emit_bind, safe_emit_bind, safe_require_bind]
  refine ⟨?_, ?_, ?_, fun _ => ?_⟩
  · simp only [Access.InBounds, hsub, ← ho]; omega
  · simp only [Access.InBounds, ← hb]; omega
  · simpa only [Access.InBounds, ← hb] using hsig
  · simp only [safe_emit_bind, safe_pure, and_true, Access.InBounds, ← hb]
    refine ⟨hmsg, ?_⟩
    split_ifs <;> omega

/-- The accesses of `bm_trial_decrypt_msg` to the object and to the plaintext. -/
theorem safe_trialDecryptMsg (unlocked : List UnlockedIdentity) (object : Buf) :
    Safe (Access.InBounds (sizes object ((msgOpened C unlocked object).map Prod.snd)))
        (trialDecryptMsg C unlocked object) 0 ↔
      ∀ hdr identity body, object.header = some hdr → hdr.objectType = objectMsg ∧ hdr.version = 1 →
        msgOpened C unlocked object = some (identity, body) → MsgLengthsFit body identity.ripe := by
  have hw := object.size_lt
  unfold trialDecryptMsg
  rw [safe_objectParseHeader_bind rfl]
  constructor
  · intro h hdr identity body hhdr htype hopen
    obtain ⟨-, hlen, hle⟩ := Buf.header_eq_some hhdr
    have hs := h hdr hhdr
    rw [safe_require_bind] at hs
    have hs := (safe_emit_bind.mp (hs htype)).2
    have hopen' : trialOpen C unlocked (msgCiphertext hdr object) = some (identity, body) := by
      simpa [msgOpened, hhdr] using hopen
    rw [hopen'] at hs
    exact (safe_trialDecryptBody rfl (by rw [hopen]; rfl) (by omega) hle).mp hs
  · intro h hdr hhdr
    obtain ⟨-, hlen, hle⟩ := Buf.header_eq_some hhdr
    have hsub : subW object.size hdr.headerLen = object.size - hdr.headerLen :=
      subW_of_le (by unfold wordSize; omega) hle
    rw [safe_require_bind]
    intro htype
    rw [safe_emit_bind]
    refine ⟨by simp only [Access.InBounds, hsub, sizes]; omega, ?_⟩
    have hopen : msgOpened C unlocked object = trialOpen C unlocked (msgCiphertext hdr object) := by
      simp [msgOpened, hhdr]
    rcases ho : trialOpen C unlocked (msgCiphertext hdr object) with _ | ⟨identity, body⟩
    · exact safe_stop _
    · rw [ho] at hopen
      refine (safe_trialDecryptBody rfl (by rw [hopen]; rfl) (by omega) hle).mpr ?_
      exact h hdr identity body hhdr htype hopen

end

end Bitmessage
