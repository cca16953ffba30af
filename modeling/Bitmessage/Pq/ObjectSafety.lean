import Bitmessage.Pq.Object

/-! The parsers of the post-quantum objects on every input. They stay inside the object and
inside the plaintext, whatever lengths these announce, since every read is bounded by the
reader itself. They return only what is signed, together with the header, by the key that
the plaintext carries; the parsers with a tag return only what comes from the keys of the
candidate. -/

namespace Bitmessage

open Traced StickyParser

/-- The keys stand in the plaintext at `off`, behind the bitfield, and the plaintext up to some
offset behind them is signed with them together with the header. -/
def PqSigned (C : PqCrypto) (plainLen : ℕ) (object inner : Buf) (off : ℕ) (sigPk kemPk : Bytes) : Prop :=
  sigPk = inner.slice (off + 4) pqv5SigPkLen ∧ kemPk = inner.slice (off + 4 + pqv5SigPkLen) pqv5KemPkLen ∧
  8 + plainLen ≤ object.size ∧
  ∃ presig sigOff, off + 4 + pqv5SigPkLen + pqv5KemPkLen ≤ presig ∧
    inner.varintAt presig = some (pqv5SigLen, sigOff) ∧ sigOff + pqv5SigLen ≤ inner.size ∧
    C.pqv5Verify (object.slice 8 plainLen ++ inner.slice 0 presig) (inner.slice sigOff pqv5SigLen) sigPk = true

section

variable {C : PqCrypto} {size : Region → ℕ} {object inner : Buf} {s t : RBuf} {β : Type}

/-! ### The parts of the parsers -/

theorem pqKeyFields_eq_some {keys : PqKeyFields} (hp : s.p ≤ inner.size)
    (h : (pqKeyFields inner).result s = some (keys, t)) :
    t.p ≤ inner.size ∧ (t.error = false → s.error = false ∧
      keys.sigPk = inner.slice (s.p + 4) pqv5SigPkLen ∧ keys.kemPk = inner.slice (s.p + 4 + pqv5SigPkLen) pqv5KemPkLen ∧
      s.p + 4 + pqv5SigPkLen + pqv5KemPkLen ≤ t.p) := by
  unfold pqKeyFields at h
  obtain ⟨bitfield, s₁, h₁, h⟩ := result_bind_eq_some.mp h
  obtain ⟨sigPk, s₂, h₂, h⟩ := result_bind_eq_some.mp h
  obtain ⟨kemPk, s₃, h₃, h⟩ := result_bind_eq_some.mp h
  obtain ⟨trials, s₄, h₄, h⟩ := result_bind_eq_some.mp h
  obtain ⟨extra, s₅, h₅, h⟩ := result_bind_eq_some.mp h
  rw [result_pure] at h
  cases h
  obtain ⟨hp₁, ok₁⟩ := rU32_eq_some hp h₁
  obtain ⟨hp₂, ok₂⟩ := rBytes_eq_some hp₁ h₂
  obtain ⟨hp₃, ok₃⟩ := rBytes_eq_some hp₂ h₃
  obtain ⟨hp₄, ok₄⟩ := rVarint_eq_some hp₃ h₄
  obtain ⟨hp₅, ok₅⟩ := rVarint_eq_some hp₄ h₅
  refine ⟨hp₅, fun herr => ?_⟩
  -- the mark is clear at the end, so it was clear at every step before
  obtain ⟨e₄, v₅⟩ := ok₅ herr
  obtain ⟨e₃, v₄⟩ := ok₄ e₄
  obtain ⟨e₂, -, hkem, q₃⟩ := ok₃ e₃
  obtain ⟨e₁, -, hsig, q₂⟩ := ok₂ e₂
  obtain ⟨e₀, -, -, q₁⟩ := ok₁ e₁
  have hlt₄ := (Buf.varintAt_eq_some v₄ hp₃).1
  have hlt₅ := (Buf.varintAt_eq_some v₅ hp₄).1
  rw [q₁] at hsig q₂
  rw [q₂] at hkem q₃
  exact ⟨e₀, hsig, hkem, by omega⟩

theorem safe_pqKeyFields_bind (hb : inner.size = size .body) (hp : s.p ≤ inner.size)
    {f : PqKeyFields → StickyParser β} (hf : ∀ keys t, t.p ≤ inner.size → Safe (Access.InBounds size) (f keys) t) :
    Safe (Access.InBounds size) (pqKeyFields inner >>= f) s := by
  refine safe_bind.mpr ⟨?_, fun keys t h => hf keys t (pqKeyFields_eq_some hp h).1⟩
  refine safe_rU32_bind hb hp fun _ _ hp => safe_rBytes_bind hb hp fun _ _ hp => safe_rBytes_bind hb hp fun _ _ hp => ?_
  exact safe_rVarint_bind hb hp fun _ _ hp => safe_rVarint_bind hb hp fun _ _ _ => safe_pure _ _

/-- A length that passed its check: the mark is clear and as many bytes are left. -/
theorem pqLength_eq_some {len : ℕ} (hp : s.p ≤ inner.size) (h : (pqLength inner).result s = some (len, t)) :
    s.error = false ∧ t.error = false ∧ s.p ≤ t.p ∧ t.p + len ≤ inner.size := by
  have hw := inner.size_lt
  unfold pqLength at h
  obtain ⟨lenField, s₁, h₁, h⟩ := result_bind_eq_some.mp h
  rw [result_bind_of_result (result_get _)] at h
  obtain ⟨u, s₂, h₂, h⟩ := result_bind_eq_some.mp h
  obtain ⟨⟨herr, hle⟩, rfl⟩ := result_require_eq_some.mp h₂
  rw [result_emit_bind, result_pure] at h
  cases h
  obtain ⟨hp₁, ok₁⟩ := rVarint_eq_some hp h₁
  obtain ⟨e₀, v₁⟩ := ok₁ herr
  have hlt := (Buf.varintAt_eq_some v₁ hp).1
  rw [subW_of_le (by unfold wordSize; omega) hp₁] at hle
  exact ⟨e₀, herr, hlt.le, by omega⟩

theorem safe_pqLength_bind (hb : inner.size = size .body) (hp : s.p ≤ inner.size) {f : ℕ → StickyParser β}
    (hf : ∀ len t, t.p ≤ inner.size → Safe (Access.InBounds size) (f len) t) :
    Safe (Access.InBounds size) (pqLength inner >>= f) s := by
  have hw := inner.size_lt
  refine safe_bind.mpr ⟨?_, fun len t h => hf len t (le_trans (Nat.le_add_right _ _) (pqLength_eq_some hp h).2.2.2)⟩
  refine safe_rVarint_bind hb hp fun len t hp => ?_
  rw [safe_get_bind, safe_require_bind]
  rintro ⟨-, hle⟩
  rw [subW_of_le (by unfold wordSize; omega) hp] at hle
  rw [safe_emit_bind]
  exact ⟨by rw [Access.InBounds, ← hb]; omega, safe_pure _ _⟩

/-- The check of the signature passes only with a clear mark and a signature that verifies. -/
theorem pqCheckSignature_eq_some {plainLen : ℕ} {sigPk : Bytes} {u : Unit} (hp : s.p ≤ inner.size)
    (h : (pqCheckSignature C plainLen object inner sigPk).result s = some (u, t)) :
    s.error = false ∧ ∃ sigOff, inner.varintAt s.p = some (pqv5SigLen, sigOff) ∧ sigOff + pqv5SigLen ≤ inner.size ∧
      C.pqv5Verify (object.slice 8 plainLen ++ inner.slice 0 s.p) (inner.slice sigOff pqv5SigLen) sigPk = true := by
  unfold pqCheckSignature at h
  rw [result_bind_of_result (result_get _)] at h
  obtain ⟨sigLen, s₁, h₁, g₁⟩ := result_bind_eq_some.mp h
  rw [result_bind_of_result (result_get _)] at g₁
  obtain ⟨_, s₂, h₂, g₂⟩ := result_bind_eq_some.mp g₁
  obtain ⟨⟨e₁, hlen⟩, heq₂⟩ := result_require_eq_some.mp h₂
  obtain ⟨sig, s₃, h₃, g₃⟩ := result_bind_eq_some.mp g₂
  rw [result_bind_of_result (result_get _)] at g₃
  obtain ⟨_, s₄, h₄, g₄⟩ := result_bind_eq_some.mp g₃
  have e₃ := (result_require_eq_some.mp h₄).1
  rw [result_emit_bind, result_emit_bind] at g₄
  have hverify := (result_require_eq_some.mp g₄).1
  rw [heq₂] at h₃
  obtain ⟨hp₁, ok₁⟩ := rVarint_eq_some hp h₁
  obtain ⟨-, hfit, hsig, -⟩ := (rBytes_eq_some hp₁ h₃).2 e₃
  obtain ⟨e₀, v₁⟩ := ok₁ e₁
  rw [hsig] at hverify
  rw [hlen] at v₁
  exact ⟨e₀, s₁.p, v₁, hfit, hverify⟩

theorem safe_pqCheckSignature_bind {plainLen : ℕ} {sigPk : Bytes} (ho : object.size = size .object)
    (hb : inner.size = size .body) (hplain : 8 + plainLen ≤ object.size) (hp : s.p ≤ inner.size)
    {f : Unit → StickyParser β} (hf : ∀ t, Safe (Access.InBounds size) (f ()) t) :
    Safe (Access.InBounds size) (pqCheckSignature C plainLen object inner sigPk >>= f) s := by
  refine safe_bind.mpr ⟨?_, fun _ t _ => hf t⟩
  unfold pqCheckSignature
  rw [safe_get_bind]
  refine safe_rVarint_bind hb hp fun sigLen t hp₁ => ?_
  rw [safe_get_bind, safe_require_bind]
  intro _
  refine safe_rBytes_bind hb hp₁ fun sig t _ => ?_
  rw [safe_get_bind, safe_require_bind]
  intro _
  rw [safe_emit_bind, safe_emit_bind]
  refine ⟨by rw [Access.InBounds, ← ho]; exact hplain, ?_, safe_require _ _⟩
  rw [Access.InBounds, ← hb, Nat.zero_add]
  exact hp

theorem safe_pqOpenAccess_bind {plainLen : ℕ} (ho : object.size = size .object) (hplain : 8 + plainLen ≤ object.size)
    {f : Unit → StickyParser β} (hf : Safe (Access.InBounds size) (f ()) s) :
    Safe (Access.InBounds size) (pqOpenAccess plainLen object >>= f) s := by
  have hw := object.size_lt
  unfold pqOpenAccess
  rw [seq_assoc, safe_emit_bind, safe_emit_bind, subW_of_le (by unfold wordSize; omega) (show 8 ≤ object.size by omega),
    subW_of_le (by unfold wordSize; omega) (by omega)]
  refine ⟨by rw [Access.InBounds, ← ho]; exact hplain, ?_, hf⟩
  rw [Access.InBounds, ← ho]
  omega

/-! ### Objects with a tag -/

theorem pqOpenTagged_eq_some {objectVersion : ℕ} {candidate : PqCandidate}
    (h : (pqOpenTagged C objectVersion candidate object).result s = some (inner, t)) :
    pqTaggedInner C objectVersion candidate object = some inner ∧ t = ⟨0, false⟩ ∧
      8 + (objectHeaderSize objectVersion candidate.stream + 32) ≤ object.size ∧
      object.slice (8 + objectHeaderSize objectVersion candidate.stream) 32 = candidate.tag C := by
  unfold pqOpenTagged at h
  obtain ⟨_, s₁, h₁, g₁⟩ := result_bind_eq_some.mp h
  obtain ⟨_, s₂, h₂, g₂⟩ := result_bind_eq_some.mp g₁
  have hsize := (result_require_eq_some.mp h₂).1
  rw [addW_taggedLen] at hsize
  rw [result_emit_bind] at g₂
  obtain ⟨_, s₃, h₃, g₃⟩ := result_bind_eq_some.mp g₂
  have htag := (result_require_eq_some.mp h₃).1
  rw [result_pqOpenAccess_bind] at g₃
  rcases hinner : pqTaggedInner C objectVersion candidate object with _ | inner'
  · rw [hinner] at g₃
    cases g₃
  · rw [hinner] at g₃
    dsimp only at g₃
    rw [result_bind_of_result (result_set _ _), result_pure] at g₃
    cases g₃
    exact ⟨rfl, rfl, by omega, htag⟩

theorem safe_pqOpenTagged_bind {objectVersion : ℕ} {candidate : PqCandidate} (ho : object.size = size .object)
    {f : Buf → StickyParser β}
    (hf : ∀ inner, pqTaggedInner C objectVersion candidate object = some inner →
      8 + (objectHeaderSize objectVersion candidate.stream + 32) ≤ object.size →
      Safe (Access.InBounds size) (f inner) ⟨0, false⟩) :
    Safe (Access.InBounds size) (pqOpenTagged C objectVersion candidate object >>= f) s := by
  refine safe_bind.mpr ⟨?_, fun inner t h => ?_⟩
  · unfold pqOpenTagged
    rw [safe_require_bind]
    intro _
    rw [safe_require_bind, addW_taggedLen]
    intro hsize
    rw [safe_emit_bind, safe_require_bind]
    refine ⟨by rw [Access.InBounds, ← ho]; omega, fun _ => safe_pqOpenAccess_bind ho (by omega) ?_⟩
    rcases pqTaggedInner C objectVersion candidate object with _ | inner
    · exact safe_stop _
    · dsimp only
      rw [safe_set_bind]
      exact safe_pure _ _
  · obtain ⟨hinner, rfl, hplain, -⟩ := pqOpenTagged_eq_some h
    exact hf inner hinner hplain

/-- The tag of the object is the candidate's, and the keys at `off` of the plaintext are those of
the candidate and have signed it. -/
def PqFromCandidate (C : PqCrypto) (objectVersion : ℕ) (candidate : PqCandidate) (object inner : Buf) (off : ℕ)
    (sigPk kemPk : Bytes) : Prop :=
  pqTaggedInner C objectVersion candidate object = some inner ∧
  object.slice (8 + objectHeaderSize objectVersion candidate.stream) 32 = candidate.tag C ∧
  PqSigned C (objectHeaderSize objectVersion candidate.stream + 32) object inner off sigPk kemPk ∧
  pqv5CalcId C sigPk kemPk = candidate.id

theorem safe_pqParsePubkey (candidate : PqCandidate) (object : Buf) :
    Safe (Access.InBounds (sizes object (pqTaggedInner C pqPubkeyObjectVersion candidate object)))
      (pqParsePubkey C candidate object) s := by
  refine safe_pqOpenTagged_bind rfl fun inner hinner hplain => ?_
  have hb : inner.size = sizes object (pqTaggedInner C pqPubkeyObjectVersion candidate object) .body := by
    rw [hinner]
    rfl
  refine safe_pqKeyFields_bind hb (Nat.zero_le _) fun keys t hp => ?_
  refine safe_pqCheckSignature_bind rfl hb hplain hp fun t => ?_
  rw [safe_require_bind]
  exact fun _ => safe_pure _ _

theorem pqParsePubkey_eq_some {candidate : PqCandidate} {out : PqPubkeyParsed}
    (h : (pqParsePubkey C candidate object).result s = some (out, t)) :
    ∃ inner, PqFromCandidate C pqPubkeyObjectVersion candidate object inner 0 out.sigPk out.kemPk := by
  unfold pqParsePubkey at h
  obtain ⟨inner, s₀, h₀, g₀⟩ := result_bind_eq_some.mp h
  obtain ⟨keys, s₁, h₁, g₁⟩ := result_bind_eq_some.mp g₀
  obtain ⟨_, s₂, h₂, g₂⟩ := result_bind_eq_some.mp g₁
  obtain ⟨_, s₃, h₃, g₃⟩ := result_bind_eq_some.mp g₂
  have hid := (result_require_eq_some.mp h₃).1
  rw [result_pure] at g₃
  cases g₃
  obtain ⟨hinner, rfl, hplain, htag⟩ := pqOpenTagged_eq_some h₀
  obtain ⟨hp₁, ok₁⟩ := pqKeyFields_eq_some (Nat.zero_le _) h₁
  obtain ⟨e₁, sigOff, hat, hsig, hverify⟩ := pqCheckSignature_eq_some hp₁ h₂
  obtain ⟨-, hsigPk, hkemPk, hle⟩ := ok₁ e₁
  exact ⟨inner, hinner, htag, ⟨hsigPk, hkemPk, hplain, s₁.p, sigOff, hle, hat, hsig, hverify⟩, hid⟩

theorem safe_pqParseBroadcast (candidate : PqCandidate) (object : Buf) :
    Safe (Access.InBounds (sizes object (pqTaggedInner C pqBroadcastObjectVersion candidate object)))
      (pqParseBroadcast C candidate object) s := by
  refine safe_pqOpenTagged_bind rfl fun inner hinner hplain => ?_
  have hb : inner.size = sizes object (pqTaggedInner C pqBroadcastObjectVersion candidate object) .body := by
    rw [hinner]
    rfl
  refine safe_rVarint_bind hb (Nat.zero_le _) fun _ _ hp => safe_rVarint_bind hb hp fun _ _ hp => ?_
  refine safe_pqKeyFields_bind hb hp fun keys t hp => safe_rVarint_bind hb hp fun _ _ hp => ?_
  refine safe_pqLength_bind hb hp fun len t hp => safe_rBytes_bind hb hp fun _ _ hp => ?_
  refine safe_pqCheckSignature_bind rfl hb hplain hp fun t => ?_
  rw [safe_require_bind]
  exact fun _ => safe_pure _ _

/-- The sender's fields in front of a text: the offset of the keys, and the mark. -/
theorem senderFields_eq_some {version stream : ℕ} {s₁ s₂ : RBuf} (hp : s.p ≤ inner.size)
    (h₁ : (rVarint .body inner).result s = some (version, s₁))
    (h₂ : (rVarint .body inner).result s₁ = some (stream, s₂)) :
    s₂.p ≤ inner.size ∧ (s₂.error = false → s.error = false ∧ ∃ q, inner.varintAt s.p = some (version, q) ∧
      inner.varintAt q = some (stream, s₂.p)) := by
  obtain ⟨hp₁, ok₁⟩ := rVarint_eq_some hp h₁
  obtain ⟨hp₂, ok₂⟩ := rVarint_eq_some hp₁ h₂
  refine ⟨hp₂, fun herr => ?_⟩
  obtain ⟨e₁, hstream⟩ := ok₂ herr
  obtain ⟨e₀, hversion⟩ := ok₁ e₁
  exact ⟨e₀, s₁.p, hversion, hstream⟩

/-- The fields behind the keys keep the cursor behind them. -/
theorem rBytes_mono {len : ℕ} {v : Bytes} (hp : s.p ≤ inner.size)
    (h : (rBytes .body inner len).result s = some (v, t)) (herr : t.error = false) : s.error = false ∧ s.p ≤ t.p := by
  obtain ⟨hs, -, -, ht⟩ := (rBytes_eq_some hp h).2 herr
  exact ⟨hs, by omega⟩

theorem rVarint_mono {v : ℕ} (hp : s.p ≤ inner.size) (h : (rVarint .body inner).result s = some (v, t))
    (herr : t.error = false) : s.error = false ∧ s.p ≤ t.p := by
  obtain ⟨hs, hat⟩ := (rVarint_eq_some hp h).2 herr
  exact ⟨hs, (Buf.varintAt_eq_some hat hp).1.le⟩

theorem pqParseBroadcast_eq_some {candidate : PqCandidate} {out : PqBroadcastParsed}
    (h : (pqParseBroadcast C candidate object).result s = some (out, t)) :
    ∃ inner q off, inner.varintAt 0 = some (out.fromAddressVersion, q) ∧ inner.varintAt q = some (out.fromStream, off) ∧
      PqFromCandidate C pqBroadcastObjectVersion candidate object inner off out.fromSigPk out.fromKemPk ∧
      out.fromId = candidate.id := by
  unfold pqParseBroadcast at h
  obtain ⟨inner, s₀, h₀, g₀⟩ := result_bind_eq_some.mp h
  obtain ⟨version, s₁, h₁, g₁⟩ := result_bind_eq_some.mp g₀
  obtain ⟨stream, s₂, h₂, g₂⟩ := result_bind_eq_some.mp g₁
  obtain ⟨keys, s₃, h₃, g₃⟩ := result_bind_eq_some.mp g₂
  obtain ⟨encoding, s₄, h₄, g₄⟩ := result_bind_eq_some.mp g₃
  obtain ⟨len, s₅, h₅, g₅⟩ := result_bind_eq_some.mp g₄
  obtain ⟨message, s₆, h₆, g₆⟩ := result_bind_eq_some.mp g₅
  obtain ⟨_, s₇, h₇, g₇⟩ := result_bind_eq_some.mp g₆
  obtain ⟨_, s₈, h₈, g₈⟩ := result_bind_eq_some.mp g₇
  have hid := (result_require_eq_some.mp h₈).1
  rw [result_pure] at g₈
  cases g₈
  obtain ⟨hinner, rfl, hplain, htag⟩ := pqOpenTagged_eq_some h₀
  obtain ⟨hp₂, ok₂⟩ := senderFields_eq_some (Nat.zero_le _) h₁ h₂
  obtain ⟨hp₃, ok₃⟩ := pqKeyFields_eq_some hp₂ h₃
  have hp₄ := (rVarint_eq_some hp₃ h₄).1
  obtain ⟨e₄, e₅, hle₅, hfit⟩ := pqLength_eq_some hp₄ h₅
  have hp₅ : s₅.p ≤ inner.size := le_trans (Nat.le_add_right _ _) hfit
  obtain ⟨e₆, sigOff, hat, hsig, hverify⟩ := pqCheckSignature_eq_some (rBytes_eq_some hp₅ h₆).1 h₇
  have hle₆ := (rBytes_mono hp₅ h₆ e₆).2
  obtain ⟨e₃, hle₄⟩ := rVarint_mono hp₃ h₄ e₄
  obtain ⟨e₂, hsigPk, hkemPk, hle₃⟩ := ok₃ e₃
  obtain ⟨-, q, hversion, hstream⟩ := ok₂ e₂
  refine ⟨inner, q, s₂.p, hversion, hstream, ⟨hinner, htag, ⟨hsigPk, hkemPk, hplain, s₆.p, sigOff, ?_, hat, hsig,
    hverify⟩, hid⟩, hid⟩
  omega

/-! ### Messages -/

/-- The plaintext of a message behind the header that the parser finds. -/
def pqMsgInner (C : PqCrypto) (kemSk : Bytes) (object : Buf) : Option Buf :=
  (object.varintAt 20).bind fun v => (object.varintAt v.2).bind fun st => pqOpen C kemSk (st.2 - 8) object

theorem safe_pqParseMsgInner {plainLen : ℕ} (ho : object.size = size .object) (hb : inner.size = size .body)
    (hplain : 8 + plainLen ≤ object.size) :
    Safe (Access.InBounds size) (pqParseMsgInner C plainLen object inner) s := by
  unfold pqParseMsgInner
  rw [safe_set_bind]
  refine safe_rVarint_bind hb (Nat.zero_le _) fun _ _ hp => safe_rVarint_bind hb hp fun _ _ hp => ?_
  refine safe_pqKeyFields_bind hb hp fun keys t hp => safe_rBytes_bind hb hp fun _ _ hp => ?_
  refine safe_rVarint_bind hb hp fun _ _ hp => safe_pqLength_bind hb hp fun len t hp => ?_
  refine safe_rBytes_bind hb hp fun _ _ hp => safe_pqLength_bind hb hp fun ackLen t hp => ?_
  unfold pqAck
  split
  · refine safe_rBytes_bind hb hp fun _ _ hp => ?_
    exact safe_pqCheckSignature_bind ho hb hplain hp fun t => safe_pure _ _
  · rw [ret_bind]
    exact safe_pqCheckSignature_bind ho hb hplain hp fun t => safe_pure _ _

/-- The header of a message: the plaintext behind it is the one that is parsed. -/
theorem pqParseMsg_header (kemSk : Bytes) {v w : ℕ} {s₁ s₂ : RBuf} (h20 : 20 ≤ object.size)
    (h₁ : (rVarint .object object).result ⟨8 + 8 + 4, false⟩ = some (v, s₁)) (e₁ : s₁.error = false)
    (h₂ : (rVarint .object object).result s₁ = some (w, s₂)) (e₂ : s₂.error = false) :
    subW s₂.p 8 = s₂.p - 8 ∧ s₂.p ≤ object.size ∧ 20 < s₂.p ∧
      pqMsgInner C kemSk object = pqOpen C kemSk (s₂.p - 8) object := by
  have hw := object.size_lt
  obtain ⟨hp₁, ok₁⟩ := rVarint_eq_some h20 h₁
  obtain ⟨hp₂, ok₂⟩ := rVarint_eq_some hp₁ h₂
  obtain ⟨-, v₁⟩ := ok₁ e₁
  obtain ⟨-, v₂⟩ := ok₂ e₂
  have hlt₁ : 20 < s₁.p := (Buf.varintAt_eq_some v₁ h20).1
  have hlt₂ := (Buf.varintAt_eq_some v₂ hp₁).1
  refine ⟨subW_of_le (by unfold wordSize; omega) (by omega), hp₂, by omega, ?_⟩
  have v₁' : object.varintAt 20 = some (v, s₁.p) := v₁
  rw [pqMsgInner, v₁', Option.bind_some, v₂, Option.bind_some]

theorem safe_pqParseMsg (kemSk : Bytes) (object : Buf) :
    Safe (Access.InBounds (sizes object (pqMsgInner C kemSk object))) (pqParseMsg C kemSk object) s := by
  have hw := object.size_lt
  have hover : pqv5SealOverhead = 1136 := rfl
  unfold pqParseMsg
  rw [safe_require_bind]
  intro h20
  rw [safe_set_bind]
  refine safe_bind.mpr ⟨safe_rVarint rfl h20, fun v s₁ h₁ => ?_⟩
  have hp₁ := (rVarint_eq_some h20 h₁).1
  rw [safe_get_bind, safe_require_bind]
  rintro ⟨-, e₁⟩
  refine safe_bind.mpr ⟨safe_rVarint rfl hp₁, fun w s₂ h₂ => ?_⟩
  rw [safe_get_bind, safe_require_bind]
  intro e₂
  obtain ⟨hsub, hp₂, hlt, hinner⟩ := pqParseMsg_header (C := C) kemSk h20 h₁ e₁ h₂ e₂
  have hlen : addW (addW 8 (s₂.p - 8)) pqv5SealOverhead = s₂.p + pqv5SealOverhead := by
    rw [addW_of_lt (show 8 + (s₂.p - 8) < wordSize by unfold wordSize; omega),
      addW_of_lt (by unfold wordSize; omega)]
    omega
  unfold pqParseMsgSealed
  rw [hsub, safe_require_bind, hlen]
  intro hsize
  have hplain : 8 + (s₂.p - 8) ≤ object.size := by omega
  refine safe_pqOpenAccess_bind rfl hplain ?_
  rcases hopen : pqOpen C kemSk (s₂.p - 8) object with _ | inner
  · exact safe_stop _
  · have hb : inner.size = sizes object (pqMsgInner C kemSk object) .body := by
      rw [hinner, hopen]
      rfl
    exact safe_pqParseMsgInner rfl hb hplain

/-- The keys of the plaintext have signed it, and the sender's id is theirs. -/
theorem pqParseMsgInner_eq_some {plainLen : ℕ} {out : PqMsgParsed} (hplain : 8 + plainLen ≤ object.size)
    (h : (pqParseMsgInner C plainLen object inner).result s = some (out, t)) :
    ∃ q off, inner.varintAt 0 = some (out.fromAddressVersion, q) ∧ inner.varintAt q = some (out.fromStream, off) ∧
      PqSigned C plainLen object inner off out.fromSigPk out.fromKemPk ∧
      out.fromId = pqv5CalcId C out.fromSigPk out.fromKemPk := by
  unfold pqParseMsgInner at h
  rw [result_bind_of_result (result_set _ _)] at h
  obtain ⟨version, s₁, h₁, g₁⟩ := result_bind_eq_some.mp h
  obtain ⟨stream, s₂, h₂, g₂⟩ := result_bind_eq_some.mp g₁
  obtain ⟨keys, s₃, h₃, g₃⟩ := result_bind_eq_some.mp g₂
  obtain ⟨toId, s₄, h₄, g₄⟩ := result_bind_eq_some.mp g₃
  obtain ⟨encoding, s₅, h₅, g₅⟩ := result_bind_eq_some.mp g₄
  obtain ⟨len, s₆, h₆, g₆⟩ := result_bind_eq_some.mp g₅
  obtain ⟨message, s₇, h₇, g₇⟩ := result_bind_eq_some.mp g₆
  obtain ⟨ackLen, s₈, h₈, g₈⟩ := result_bind_eq_some.mp g₇
  obtain ⟨ack, s₉, h₉, g₉⟩ := result_bind_eq_some.mp g₈
  obtain ⟨_, s₁₀, h₁₀, g₁₀⟩ := result_bind_eq_some.mp g₉
  rw [result_pure] at g₁₀
  cases g₁₀
  obtain ⟨hp₂, ok₂⟩ := senderFields_eq_some (Nat.zero_le _) h₁ h₂
  obtain ⟨hp₃, ok₃⟩ := pqKeyFields_eq_some hp₂ h₃
  have hp₄ := (rBytes_eq_some hp₃ h₄).1
  have hp₅ := (rVarint_eq_some hp₄ h₅).1
  obtain ⟨e₅, -, hle₆, hfit₆⟩ := pqLength_eq_some hp₅ h₆
  have hp₆ : s₆.p ≤ inner.size := le_trans (Nat.le_add_right _ _) hfit₆
  have hp₇ := (rBytes_eq_some hp₆ h₇).1
  obtain ⟨e₇, e₈, hle₈, hfit₈⟩ := pqLength_eq_some hp₇ h₈
  have hp₈ : s₈.p ≤ inner.size := le_trans (Nat.le_add_right _ _) hfit₈
  -- the acknowledgement is read only when it has bytes
  have hack : s₉.p ≤ inner.size ∧ (s₉.error = false → s₈.p ≤ s₉.p) := by
    unfold pqAck at h₉
    split at h₉
    · exact ⟨(rBytes_eq_some hp₈ h₉).1, fun e₉ => (rBytes_mono hp₈ h₉ e₉).2⟩
    · rw [result_pure] at h₉
      cases h₉
      exact ⟨hp₈, fun _ => le_rfl⟩
  obtain ⟨e₉, sigOff, hat, hsig, hverify⟩ := pqCheckSignature_eq_some hack.1 h₁₀
  have hle₉ := hack.2 e₉
  have hle₇ := (rBytes_mono hp₆ h₇ e₇).2
  obtain ⟨e₄, hle₅⟩ := rVarint_mono hp₄ h₅ e₅
  obtain ⟨e₃, hle₄⟩ := rBytes_mono hp₃ h₄ e₄
  obtain ⟨e₂, hsigPk, hkemPk, hle₃⟩ := ok₃ e₃
  obtain ⟨-, q, hversion, hstream⟩ := ok₂ e₂
  refine ⟨q, s₂.p, hversion, hstream, ⟨hsigPk, hkemPk, hplain, s₉.p, sigOff, ?_, hat, hsig, hverify⟩, rfl⟩
  omega

/-- Behind the header the parser works on the plaintext that the key opens. -/
theorem pqParseMsg_opened {kemSk : Bytes} {out : PqMsgParsed}
    (h : (pqParseMsg C kemSk object).result s = some (out, t)) :
    ∃ inner plainLen u, pqMsgInner C kemSk object = some inner ∧
      (∃ v, object.varintAt 20 = some (pqMsgObjectVersion, v) ∧ ∃ w, object.varintAt v = some (w, 8 + plainLen)) ∧
      8 + plainLen ≤ object.size ∧ pqOpen C kemSk plainLen object = some inner ∧
      (pqParseMsgInner C plainLen object inner).result u = some (out, t) := by
  have hw := object.size_lt
  unfold pqParseMsg at h
  obtain ⟨_, s₀, h₀, g₀⟩ := result_bind_eq_some.mp h
  have h20 := (result_require_eq_some.mp h₀).1
  rw [result_bind_of_result (result_set _ _)] at g₀
  obtain ⟨v, s₁, h₁, g₁⟩ := result_bind_eq_some.mp g₀
  rw [result_bind_of_result (result_get _)] at g₁
  obtain ⟨_, s₂, h₂, g₂⟩ := result_bind_eq_some.mp g₁
  obtain ⟨⟨hversion, e₁⟩, heq₂⟩ := result_require_eq_some.mp h₂
  obtain ⟨w, s₃, h₃, g₃⟩ := result_bind_eq_some.mp g₂
  rw [result_bind_of_result (result_get _)] at g₃
  obtain ⟨_, s₄, h₄, g₄⟩ := result_bind_eq_some.mp g₃
  have e₃ := (result_require_eq_some.mp h₄).1
  rw [heq₂] at h₃
  obtain ⟨hsub, hp₃, hlt, hinner⟩ := pqParseMsg_header (C := C) kemSk h20 h₁ e₁ h₃ e₃
  have heq₄ := (result_require_eq_some.mp h₄).2
  rw [heq₄, hsub] at g₄
  obtain ⟨_, s₅, h₅, g₅⟩ := result_bind_eq_some.mp g₄
  rw [result_pqOpenAccess_bind] at g₅
  rw [hversion] at h₁
  obtain ⟨hp₁, ok₁⟩ := rVarint_eq_some h20 h₁
  obtain ⟨-, hat₁⟩ := ok₁ e₁
  obtain ⟨-, hat₃⟩ := (rVarint_eq_some hp₁ h₃).2 e₃
  have hlen : 8 + (s₃.p - 8) = s₃.p := by omega
  rcases hopen : pqOpen C kemSk (s₃.p - 8) object with _ | inner
  · rw [hopen] at g₅
    cases g₅
  · rw [hopen] at g₅
    exact ⟨inner, s₃.p - 8, s₅, by rw [hinner, hopen], ⟨s₁.p, hat₁, w, by rw [hlen]; exact hat₃⟩, by omega, hopen, g₅⟩

theorem pqParseMsg_eq_some {kemSk : Bytes} {out : PqMsgParsed}
    (h : (pqParseMsg C kemSk object).result s = some (out, t)) :
    ∃ inner plainLen q off, pqMsgInner C kemSk object = some inner ∧
      (∃ v, object.varintAt 20 = some (pqMsgObjectVersion, v) ∧ ∃ w, object.varintAt v = some (w, 8 + plainLen)) ∧
      inner.varintAt 0 = some (out.fromAddressVersion, q) ∧ inner.varintAt q = some (out.fromStream, off) ∧
      PqSigned C plainLen object inner off out.fromSigPk out.fromKemPk ∧
      out.fromId = pqv5CalcId C out.fromSigPk out.fromKemPk := by
  obtain ⟨inner, plainLen, u, hinner, hheader, hplain, -, hresult⟩ := pqParseMsg_opened h
  obtain ⟨q, off, hq, hoff, hsigned, hid⟩ := pqParseMsgInner_eq_some hplain hresult
  exact ⟨inner, plainLen, q, off, hinner, hheader, hq, hoff, hsigned, hid⟩

theorem pqParsed_eq_some {α : Type} {parser : StickyParser α} {out : α} (h : pqParsed parser = some out) :
    ∃ t, parser.result rbufInit = some (out, t) := by
  obtain ⟨⟨out', t⟩, hresult, rfl⟩ := Option.map_eq_some_iff.mp h
  exact ⟨t, hresult⟩

/-- On every object and for every plaintext that opens it, the parsers stay in bounds, and what
they return is authentic: signed over the header and the plaintext in front of the signature by
the embedded key; for a public key and a broadcast with the candidate's tag and id, and for a
message with the id of the embedded keys. -/
theorem pqParsers_safe_and_authentic (C : PqCrypto) (object : Buf) :
    (∀ candidate,
      Safe (Access.InBounds (sizes object (pqTaggedInner C pqPubkeyObjectVersion candidate object)))
        (pqParsePubkey C candidate object) rbufInit ∧
      ∀ out, pqParsed (pqParsePubkey C candidate object) = some out →
        ∃ inner, PqFromCandidate C pqPubkeyObjectVersion candidate object inner 0 out.sigPk out.kemPk) ∧
    (∀ kemSk,
      Safe (Access.InBounds (sizes object (pqMsgInner C kemSk object))) (pqParseMsg C kemSk object) rbufInit ∧
      ∀ out, pqParsed (pqParseMsg C kemSk object) = some out →
        ∃ inner plainLen q off, pqMsgInner C kemSk object = some inner ∧
          (∃ v, object.varintAt 20 = some (pqMsgObjectVersion, v) ∧ ∃ w, object.varintAt v = some (w, 8 + plainLen)) ∧
          inner.varintAt 0 = some (out.fromAddressVersion, q) ∧ inner.varintAt q = some (out.fromStream, off) ∧
          PqSigned C plainLen object inner off out.fromSigPk out.fromKemPk ∧
          out.fromId = pqv5CalcId C out.fromSigPk out.fromKemPk) ∧
    (∀ candidate,
      Safe (Access.InBounds (sizes object (pqTaggedInner C pqBroadcastObjectVersion candidate object)))
        (pqParseBroadcast C candidate object) rbufInit ∧
      ∀ out, pqParsed (pqParseBroadcast C candidate object) = some out →
        ∃ inner q off, inner.varintAt 0 = some (out.fromAddressVersion, q) ∧
          inner.varintAt q = some (out.fromStream, off) ∧
          PqFromCandidate C pqBroadcastObjectVersion candidate object inner off out.fromSigPk out.fromKemPk ∧
          out.fromId = candidate.id) := by
  refine ⟨fun candidate => ⟨safe_pqParsePubkey candidate object, fun out h => ?_⟩,
    fun kemSk => ⟨safe_pqParseMsg kemSk object, fun out h => ?_⟩,
    fun candidate => ⟨safe_pqParseBroadcast candidate object, fun out h => ?_⟩⟩
  · obtain ⟨t, hresult⟩ := pqParsed_eq_some h
    exact pqParsePubkey_eq_some hresult
  · obtain ⟨t, hresult⟩ := pqParsed_eq_some h
    exact pqParseMsg_eq_some hresult
  · obtain ⟨t, hresult⟩ := pqParsed_eq_some h
    exact pqParseBroadcast_eq_some hresult

end

end Bitmessage
