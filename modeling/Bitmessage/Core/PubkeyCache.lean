import Bitmessage.Core.BroadcastDecrypt

/-! Parsing `pubkey` objects. The versions 2 and 3 carry the keys in the clear, so the
parser works on the object itself, behind its header; version 4 carries them encrypted
under a key derived from the address, behind a tag. The versions 3 and 4 are signed over
the header and the fields in front of the signature. -/

namespace Bitmessage

open Traced BufParser

/-- `struct bm_cached_pubkey`. -/
structure CachedPubkey where
  addressVersion : ℕ
  stream : ℕ
  ripe : Bytes
  tag : Bytes
  behaviorBitfield : ℕ
  signingPubkey : Bytes
  encryptionPubkey : Bytes
  nonceTrialsPerByte : ℕ
  payloadLengthExtraBytes : ℕ

variable (C : Crypto)

/-- The fields of a public key, with the offset of the length of the signature and the signature. -/
structure PubkeyFields where
  bitfield : ℕ
  signing : Bytes
  encryption : Bytes
  nonceTrials : ℕ
  extraBytes : ℕ
  presigOffset : ℕ
  sig : ℕ × ℕ

/-- The fields, from the start of the buffer, with the check of the signature's length. -/
def pubkeyFields (body : Buf) : BufParser PubkeyFields := do
  set 0
  room body (4 + 64 + 64)
  let bitfield ← readBe .body body 4
  let signing ← bytes .body body 64
  let encryption ← bytes .body body 64
  let nonceTrials ← varint .body body
  let extraBytes ← varint .body body
  let presigOffset ← get
  let sig ← lengthField .body body
  pure ⟨bitfield, uncompressed signing, uncompressed encryption, nonceTrials, extraBytes, presigOffset, sig⟩

/-- The check of the signature over the header, `tagLen` bytes behind it, and the fields. -/
def checkPubkeySignature (hdr : ObjectHeader) (tagLen : ℕ) (object body : Buf) (f : PubkeyFields) :
    BufParser Unit := do
  emit (.read .object 8 (subW hdr.headerLen 8))
  emit (.read .object hdr.headerLen tagLen)
  emit (.read .body 0 f.presigOffset)
  emit (.read .body f.sig.1 f.sig.2)
  require (C.verify (object.slice 8 (subW hdr.headerLen 8) ++ object.slice hdr.headerLen tagLen ++
    body.slice 0 f.presigOffset) (body.slice f.sig.1 f.sig.2) f.signing = true)

/-- `bm_parse_pubkey_v2`. -/
def parsePubkeyV2 (object : Buf) : BufParser CachedPubkey := do
  let hdr ← objectParseHeader object
  require (hdr.objectType = objectPubkey ∧ hdr.version = 2)
  require (subW object.size hdr.headerLen = 4 + 64 + 64)
  let bitfield ← readBe .object object 4
  let signing ← bytes .object object 64
  let encryption ← bytes .object object 64
  pure {
    addressVersion := 2
    stream := hdr.stream
    ripe := addressCalcRipe C.toHashes (uncompressed signing) (uncompressed encryption)
    tag := List.replicate 32 0
    behaviorBitfield := bitfield
    signingPubkey := uncompressed signing
    encryptionPubkey := uncompressed encryption
    nonceTrialsPerByte := 0
    payloadLengthExtraBytes := 0 }

/-- `bm_parse_pubkey_v3`. The body is the object behind its header. -/
def parsePubkeyV3 (object : Buf) : BufParser CachedPubkey := do
  let hdr ← objectParseHeader object
  require (hdr.objectType = objectPubkey ∧ hdr.version = 3)
  let body := object.suffix hdr.headerLen
  let f ← pubkeyFields body
  checkPubkeySignature C hdr 0 object body f
  pure {
    addressVersion := 3
    stream := hdr.stream
    ripe := addressCalcRipe C.toHashes f.signing f.encryption
    tag := List.replicate 32 0
    behaviorBitfield := f.bitfield
    signingPubkey := f.signing
    encryptionPubkey := f.encryption
    nonceTrialsPerByte := f.nonceTrials
    payloadLengthExtraBytes := f.extraBytes }

/-- The plaintext of a `pubkey` of version 4 under the candidate's key. -/
def pubkeyPlaintext (candidate : Candidate) (hdr : ObjectHeader) (object : Buf) : Option Buf :=
  C.eciesDecrypt (object.slice (hdr.headerLen + 32) (subW (subW object.size hdr.headerLen) 32))
    (addressDeriveSecretAndTag C.toHashes candidate.version candidate.stream candidate.ripe).1

/-- The part of `bm_parse_pubkey_v4` that works on the plaintext. -/
def parsePubkeyV4Body (candidate : Candidate) (hdr : ObjectHeader) (object body : Buf) : BufParser CachedPubkey := do
  let f ← pubkeyFields body
  checkPubkeySignature C hdr 32 object body f
  require (addressCalcRipe C.toHashes f.signing f.encryption = candidate.ripe)
  pure {
    addressVersion := candidate.version
    stream := candidate.stream
    ripe := candidate.ripe
    tag := object.slice hdr.headerLen 32
    behaviorBitfield := f.bitfield
    signingPubkey := f.signing
    encryptionPubkey := f.encryption
    nonceTrialsPerByte := f.nonceTrials
    payloadLengthExtraBytes := f.extraBytes }

/-- `bm_parse_pubkey_v4`. -/
def parsePubkeyV4 (candidate : Candidate) (object : Buf) : BufParser CachedPubkey := do
  let hdr ← objectParseHeader object
  require (hdr.objectType = objectPubkey ∧ hdr.version = 4)
  room object 32
  let tag ← bytes .object object 32
  require (tag = (addressDeriveSecretAndTag C.toHashes candidate.version candidate.stream candidate.ripe).2)
  emit (.read .object (hdr.headerLen + 32) (subW (subW object.size hdr.headerLen) 32))
  match pubkeyPlaintext C candidate hdr object with
  | none => stop
  | some body => parsePubkeyV4Body C candidate hdr object body

/-- The public key that a parser returns. -/
def parsedPubkey (parser : BufParser CachedPubkey) : Option CachedPubkey := (parser.result 0).map Prod.fst

/-! ### Bounds -/

/-- The fields of a public key. -/
def pubkeyLayout : List Field := [.block (4 + 64 + 64), .varint, .varint, .sized]

section

variable {C} {size : Region → ℕ} {object body : Buf} {p : ℕ} {β : Type}

/-- Behind the fields the offsets are known to be inside the buffer. -/
theorem safe_pubkeyFields_bind (hb : body.size = size .body) {f : PubkeyFields → BufParser β}
    (hf : ∀ x q, x.presigOffset ≤ body.size → x.sig.1 + x.sig.2 ≤ body.size → Safe (Access.InBounds size) (f x) q) :
    Safe (Access.InBounds size) (pubkeyFields body >>= f) p ↔ LengthsFit body pubkeyLayout 0 := by
  have hw := body.size_lt
  unfold pubkeyFields pubkeyLayout
  simp only [seq_assoc, ret_bind]
  rw [safe_set_bind, lengthsFit_block, safe_room_bind (Nat.zero_le _) (by norm_num)]
  refine imp_congr_right fun h₁ => ?_
  rw [safe_readBe_bind (by norm_num), safe_bytes_bind (by norm_num), safe_bytes_bind (by norm_num),
    and_iff_right (by rw [← hb]; omega), and_iff_right (by rw [← hb]; omega), and_iff_right (by rw [← hb]; omega),
    lengthsFit_varint, safe_varint_bind hb h₁]
  refine forall₃_congr fun _ p₂ h₂ => ?_
  have h₂ := (Buf.varintAt_eq_some h₂ h₁).2.1
  rw [lengthsFit_varint, safe_varint_bind hb h₂]
  refine forall₃_congr fun _ p₃ h₃ => ?_
  have h₃ := (Buf.varintAt_eq_some h₃ h₂).2.1
  rw [lengthsFit_sized, safe_get_bind, safe_lengthField_bind hb h₃]
  refine forall₃_congr fun sigLen sigOff _ => and_congr_right fun _ => imp_congr_right fun hsig => ?_
  exact iff_of_true (hf _ _ h₃ hsig) trivial

theorem safe_checkPubkeySignature_bind {hdr : ObjectHeader} {tagLen : ℕ} (ho : object.size = size .object)
    (hb : body.size = size .body) (hlen : 8 ≤ hdr.headerLen) (hle : hdr.headerLen + tagLen ≤ object.size)
    {x : PubkeyFields} (hp : x.presigOffset ≤ body.size) (hs : x.sig.1 + x.sig.2 ≤ body.size)
    {f : Unit → BufParser β} (hf : Safe (Access.InBounds size) (f ()) p) :
    Safe (Access.InBounds size) (checkPubkeySignature C hdr tagLen object body x >>= f) p := by
  have hw := object.size_lt
  have hsub : subW hdr.headerLen 8 = hdr.headerLen - 8 := subW_of_le (by unfold wordSize; omega) hlen
  unfold checkPubkeySignature
  simp only [seq_assoc]
  rw [safe_emit_bind, safe_emit_bind, safe_emit_bind, safe_emit_bind, safe_require_bind]
  refine ⟨?_, ?_, ?_, ?_, fun _ => hf⟩
  · simp only [Access.InBounds, hsub, ← ho]; omega
  · simpa only [Access.InBounds, ← ho] using hle
  · simp only [Access.InBounds, ← hb]; omega
  · simpa only [Access.InBounds, ← hb] using hs

theorem safe_parsePubkeyV3 (object : Buf) :
    Safe (Access.InBounds (sizes object (object.header.map fun hdr => object.suffix hdr.headerLen)))
        (parsePubkeyV3 C object) 0 ↔
      ∀ hdr, object.header = some hdr → hdr.objectType = objectPubkey ∧ hdr.version = 3 →
        LengthsFit (object.suffix hdr.headerLen) pubkeyLayout 0 := by
  unfold parsePubkeyV3
  rw [safe_objectParseHeader_bind rfl]
  refine forall₂_congr fun hdr hhdr => ?_
  obtain ⟨-, hlen, hle⟩ := Buf.header_eq_some hhdr
  have hb : (object.suffix hdr.headerLen).size =
      sizes object (object.header.map fun hdr => object.suffix hdr.headerLen) .body := by rw [hhdr]; rfl
  rw [safe_require_bind]
  refine imp_congr_right fun _ => safe_pubkeyFields_bind hb fun x q hp hs => ?_
  exact safe_checkPubkeySignature_bind rfl hb (by omega) (by omega) hp hs (safe_pure _ _)

/-- The plaintext of a `pubkey` object of version 4. -/
def pubkeyOpened (C : Crypto) (candidate : Candidate) (object : Buf) : Option Buf :=
  object.header.bind fun hdr => pubkeyPlaintext C candidate hdr object

theorem safe_parsePubkeyV4 (candidate : Candidate) (object : Buf) :
    Safe (Access.InBounds (sizes object (pubkeyOpened C candidate object))) (parsePubkeyV4 C candidate object) 0 ↔
      ∀ hdr body, object.header = some hdr → hdr.objectType = objectPubkey ∧ hdr.version = 4 →
        hdr.headerLen + 32 ≤ object.size → object.slice hdr.headerLen 32 =
          (addressDeriveSecretAndTag C.toHashes candidate.version candidate.stream candidate.ripe).2 →
        pubkeyOpened C candidate object = some body → LengthsFit body pubkeyLayout 0 := by
  have hw := object.size_lt
  have hbody : ∀ hdr body p, object.header = some hdr → hdr.headerLen + 32 ≤ object.size →
      pubkeyOpened C candidate object = some body →
      (Safe (Access.InBounds (sizes object (pubkeyOpened C candidate object)))
        (parsePubkeyV4Body C candidate hdr object body) p ↔ LengthsFit body pubkeyLayout 0) := by
    intro hdr body p hhdr hle hopen
    obtain ⟨-, hlen, -⟩ := Buf.header_eq_some hhdr
    have hb : body.size = sizes object (pubkeyOpened C candidate object) .body := by rw [hopen]; rfl
    refine safe_pubkeyFields_bind hb fun x q hp hs => ?_
    refine safe_checkPubkeySignature_bind rfl hb (by omega) hle hp hs ?_
    rw [safe_require_bind]
    exact fun _ => safe_pure _ _
  unfold parsePubkeyV4
  rw [safe_objectParseHeader_bind rfl]
  refine forall_congr' fun hdr => ⟨fun h body hhdr htype hle htag hopen => ?_, fun h hhdr => ?_⟩
  all_goals
    obtain ⟨-, hlen, hle₀⟩ := Buf.header_eq_some hhdr
    have hopened : pubkeyOpened C candidate object = pubkeyPlaintext C candidate hdr object := by
      simp [pubkeyOpened, hhdr]
  · have hs := h hhdr
    rw [safe_require_bind] at hs
    have hs := (safe_room_bind hle₀ (by norm_num)).mp (hs htype) hle
    rw [safe_bytes_bind (by unfold wordSize; omega), safe_require_bind] at hs
    have hs := (safe_emit_bind.mp (hs.2 htag)).2
    rw [← hopened, hopen] at hs
    exact (hbody hdr body _ hhdr hle hopen).mp (by rw [hopen]; exact hs)
  · rw [safe_require_bind]
    intro htype
    rw [safe_room_bind hle₀ (by norm_num)]
    intro hle
    rw [safe_bytes_bind (by unfold wordSize; omega), safe_require_bind]
    refine ⟨hle, fun htag => ?_⟩
    have hsub : subW (subW object.size hdr.headerLen) 32 = object.size - hdr.headerLen - 32 := by
      rw [subW_of_le (by unfold wordSize; omega) hle₀, subW_of_le (by unfold wordSize; omega) (by omega)]
    rw [safe_emit_bind]
    refine ⟨by simp only [Access.InBounds, hsub, sizes]; omega, ?_⟩
    rcases hp : pubkeyPlaintext C candidate hdr object with _ | body
    · exact safe_stop _
    · rw [hp] at hopened
      exact (hbody hdr body _ hhdr hle hopened).mpr (h body hhdr htype hle htag hopened)

end

end Bitmessage
