import Bitmessage.Core.TrialDecrypt

/-! Receiving a `broadcast` object on behalf of a subscription. The key is derived from
the subscribed address; a broadcast of version 5 also carries a tag derived from it,
which is compared before anything is decrypted. The plaintext is that of a `msg`
without a recipient and without an acknowledgement. -/

namespace Bitmessage

open Traced BufParser

/-- The address of a subscription. -/
structure Candidate where
  version : ℕ
  stream : ℕ
  ripe : Bytes

/-- `struct bm_decoded_broadcast`. -/
structure DecodedBroadcast where
  fromAddressVersion : ℕ
  fromStream : ℕ
  fromAddress : Bytes
  subject : Bytes
  body : Bytes

variable (C : Crypto)

/-- The bytes of the tag in front of the ciphertext. -/
def broadcastTagLen (hdr : ObjectHeader) : ℕ := if hdr.version = 5 then 32 else 0

/-- The part of `bm_trial_decrypt_broadcast` that works on the plaintext. -/
def trialDecryptBroadcastBody (candidate : Candidate) (hdr : ObjectHeader) (object body : Buf) :
    BufParser DecodedBroadcast := do
  set 0
  let fromVer ← varint .body body
  let fromStream ← varint .body body
  let keys ← senderKeys body
  senderDifficulty body fromVer
  let encoding ← varint .body body
  let msg ← lengthField .body body
  advance .body msg.2
  let presigOffset ← get
  let sig ← lengthField .body body
  emit (.read .object 8 (subW hdr.headerLen 8))
  emit (.read .object hdr.headerLen (broadcastTagLen hdr))
  emit (.read .body 0 presigOffset)
  emit (.read .body sig.1 sig.2)
  require (C.verify (object.slice 8 (subW hdr.headerLen 8) ++ object.slice hdr.headerLen (broadcastTagLen hdr) ++
    body.slice 0 presigOffset) (body.slice sig.1 sig.2) keys.1 = true)
  let computedRipe := addressCalcRipe C.toHashes keys.1 keys.2
  require (computedRipe = candidate.ripe)
  let fromAddress := addressEncode C.toHashes fromVer fromStream computedRipe
  emit (.read .body msg.1 msg.2)
  let text := decodeMessage encoding (body.slice msg.1 msg.2)
  pure {
    fromAddressVersion := fromVer
    fromStream := fromStream
    fromAddress := toAddressBuffer (fromAddress.getD [])
    subject := text.1
    body := text.2 }

/-- The tag of version 5: it has to be there and to be the candidate's. -/
def checkBroadcastTag (candidate : Candidate) (hdr : ObjectHeader) (object : Buf) : BufParser Unit :=
  if hdr.version = 5 then do
    room object 32
    let tag ← bytes .object object 32
    require (tag = (addressDeriveSecretAndTag C.toHashes candidate.version candidate.stream candidate.ripe).2)
  else pure ()

/-- The plaintext of a broadcast under the candidate's key. -/
def broadcastPlaintext (candidate : Candidate) (hdr : ObjectHeader) (object : Buf) : Option Buf :=
  let offset := hdr.headerLen + broadcastTagLen hdr
  C.eciesDecrypt (object.slice offset (subW object.size offset))
    (addressDeriveSecretAndTag C.toHashes candidate.version candidate.stream candidate.ripe).1

/-- `bm_trial_decrypt_broadcast`. -/
def trialDecryptBroadcast (candidate : Candidate) (object : Buf) : BufParser DecodedBroadcast := do
  let hdr ← objectParseHeader object
  require (hdr.objectType = objectBroadcast ∧ (hdr.version = 4 ∨ hdr.version = 5))
  checkBroadcastTag C candidate hdr object
  let offset ← get
  emit (.read .object offset (subW object.size offset))
  match broadcastPlaintext C candidate hdr object with
  | none => stop
  | some body => trialDecryptBroadcastBody C candidate hdr object body

/-- The plaintext of a broadcast object, if its header is complete and the key opens it. -/
def broadcastOpened (candidate : Candidate) (object : Buf) : Option Buf :=
  object.header.bind fun hdr => broadcastPlaintext C candidate hdr object

/-- The tag check passes. -/
def BroadcastTagOk (candidate : Candidate) (hdr : ObjectHeader) (object : Buf) : Prop :=
  hdr.version = 5 → hdr.headerLen + 32 ≤ object.size ∧ object.slice hdr.headerLen 32 =
    (addressDeriveSecretAndTag C.toHashes candidate.version candidate.stream candidate.ripe).2

/-! ### Bounds -/

/-- The fields behind the sender's address version. -/
def broadcastLayout (fromVer : ℕ) : List Field :=
  .varint :: .block (4 + 64 + 64) :: (if 3 ≤ fromVer then [.varint, .varint] else []) ++ [.varint, .sized, .sized]

/-- No length in the plaintext wraps. -/
def BroadcastLengthsFit (body : Buf) : Prop :=
  ∀ fromVer p, body.varintAt 0 = some (fromVer, p) → LengthsFit body (broadcastLayout fromVer) p

section

variable {C} {size : Region → ℕ} {object body : Buf} {p : ℕ}

theorem safe_trialDecryptBroadcastBody {candidate : Candidate} {hdr : ObjectHeader} (ho : object.size = size .object)
    (hb : body.size = size .body) (hlen : 8 ≤ hdr.headerLen)
    (hle : hdr.headerLen + broadcastTagLen hdr ≤ object.size) :
    Safe (Access.InBounds size) (trialDecryptBroadcastBody C candidate hdr object body) p ↔
      BroadcastLengthsFit body := by
  have hw := object.size_lt
  have hsub : subW hdr.headerLen 8 = hdr.headerLen - 8 := subW_of_le (by unfold wordSize; omega) hlen
  unfold trialDecryptBroadcastBody BroadcastLengthsFit broadcastLayout
  rw [safe_set_bind, safe_varint_bind hb (Nat.zero_le _)]
  refine forall₃_congr fun fromVer p₁ h₁ => ?_
  have h₁ := (Buf.varintAt_eq_some h₁ (Nat.zero_le _)).2.1
  rw [List.cons_append, lengthsFit_varint, safe_varint_bind hb h₁]
  refine forall₃_congr fun fromStream p₂ h₂ => ?_
  have h₂ := (Buf.varintAt_eq_some h₂ h₁).2.1
  rw [List.cons_append, lengthsFit_block, safe_senderKeys_bind hb h₂]
  refine imp_congr_right fun h₃ => safe_senderDifficulty_bind hb h₃ fun p₄ h₄ => ?_
  rw [lengthsFit_varint, safe_varint_bind hb h₄]
  refine forall₃_congr fun encoding p₅ h₅ => ?_
  have h₅ := (Buf.varintAt_eq_some h₅ h₄).2.1
  rw [lengthsFit_sized, safe_sized_bind hb h₅]
  refine forall₃_congr fun msgLen msgOff _ => and_congr_right fun _ => imp_congr_right fun hmsg => ?_
  rw [lengthsFit_sized, safe_get_bind, safe_lengthField_bind hb hmsg]
  refine forall₃_congr fun sigLen sigOff _ => and_congr_right fun _ => imp_congr_right fun hsig => ?_
  refine iff_of_true ?_ trivial
  rw [safe_emit_bind, safe_emit_bind, safe_emit_bind, safe_emit_bind, safe_require_bind]
  refine ⟨?_, ?_, ?_, ?_, fun _ => ?_⟩
  · simp only [Access.InBounds, hsub, ← ho]; omega
  · simpa only [Access.InBounds, ← ho] using hle
  · simp only [Access.InBounds, ← hb]; omega
  · simpa only [Access.InBounds, ← hb] using hsig
  · rw [safe_require_bind]
    intro _
    rw [safe_emit_bind]
    exact ⟨by simpa only [Access.InBounds, ← hb] using hmsg, safe_pure _ _⟩

/-- The tag is read inside the object; behind it the cursor stands at the ciphertext. -/
theorem safe_checkBroadcastTag_bind {candidate : Candidate} {hdr : ObjectHeader} (ho : object.size = size .object)
    (hle : hdr.headerLen ≤ object.size) {β : Type} {f : Unit → BufParser β} :
    Safe (Access.InBounds size) (checkBroadcastTag C candidate hdr object >>= f) hdr.headerLen ↔
      (BroadcastTagOk C candidate hdr object →
        Safe (Access.InBounds size) (f ()) (hdr.headerLen + broadcastTagLen hdr)) := by
  have hw := object.size_lt
  unfold checkBroadcastTag BroadcastTagOk broadcastTagLen
  by_cases h5 : hdr.version = 5
  · simp only [h5, if_true, true_implies, seq_assoc]
    rw [safe_room_bind hle (by norm_num), and_imp]
    refine imp_congr_right fun h32 => ?_
    rw [safe_bytes_bind (by unfold wordSize; omega), and_iff_right (ho ▸ h32), safe_require_bind]
  · simp [h5, ret_bind]

theorem safe_trialDecryptBroadcast (candidate : Candidate) (object : Buf) :
    Safe (Access.InBounds (sizes object (broadcastOpened C candidate object)))
        (trialDecryptBroadcast C candidate object) 0 ↔
      ∀ hdr body, object.header = some hdr →
        hdr.objectType = objectBroadcast ∧ (hdr.version = 4 ∨ hdr.version = 5) →
        BroadcastTagOk C candidate hdr object → broadcastOpened C candidate object = some body →
        BroadcastLengthsFit body := by
  have hw := object.size_lt
  unfold trialDecryptBroadcast
  rw [safe_objectParseHeader_bind rfl]
  refine forall_congr' fun hdr => ⟨fun h body hhdr htype htag hopen => ?_, fun h hhdr => ?_⟩
  all_goals
    obtain ⟨-, hlen, hle⟩ := Buf.header_eq_some hhdr
    have hopened : broadcastOpened C candidate object = broadcastPlaintext C candidate hdr object := by
      simp [broadcastOpened, hhdr]
  · have hle' : hdr.headerLen + broadcastTagLen hdr ≤ object.size := by
      unfold broadcastTagLen
      split_ifs with h5
      · exact (htag h5).1
      · omega
    have hs := h hhdr
    rw [safe_require_bind] at hs
    have hs := (safe_checkBroadcastTag_bind (by rfl) hle).mp (hs htype) htag
    rw [safe_get_bind, safe_emit_bind, ← hopened, hopen] at hs
    exact (safe_trialDecryptBroadcastBody rfl rfl (by omega) hle').mp hs.2
  · rw [safe_require_bind]
    intro htype
    rw [safe_checkBroadcastTag_bind (by rfl) hle]
    intro htag
    have hle' : hdr.headerLen + broadcastTagLen hdr ≤ object.size := by
      unfold broadcastTagLen
      split_ifs with h5
      · exact (htag h5).1
      · omega
    have hsub : subW object.size (hdr.headerLen + broadcastTagLen hdr) =
        object.size - (hdr.headerLen + broadcastTagLen hdr) := subW_of_le (by unfold wordSize; omega) hle'
    rw [safe_get_bind, safe_emit_bind]
    refine ⟨by simp only [Access.InBounds, hsub, sizes]; omega, ?_⟩
    rcases hp : broadcastPlaintext C candidate hdr object with _ | body
    · exact safe_stop _
    · rw [hp] at hopened
      exact (safe_trialDecryptBroadcastBody rfl (by rw [hopened]; rfl) (by omega) hle').mpr
        (h body hhdr htype htag hopened)

end

end Bitmessage
