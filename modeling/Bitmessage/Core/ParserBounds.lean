import Bitmessage.Core.PubkeyCache

/-! When the parsers of received objects stay in bounds. Their cursors always do, and
every check but one is exact. The check of a length field adds the length to the
cursor in 64 bits: a length that makes the sum wrap passes, and the slice it announces
reaches past the end. There is no other way to leave a buffer. -/

namespace Bitmessage

open Traced

/-- A `msg` object stays in bounds: the plaintext under the first key that opens it holds no
length that wraps. -/
def MsgInBounds (C : Crypto) (unlocked : List UnlockedIdentity) (object : Buf) : Prop :=
  Safe (Access.InBounds (sizes object ((msgOpened C unlocked object).map Prod.snd)))
    (trialDecryptMsg C unlocked object) 0

def BroadcastInBounds (C : Crypto) (candidate : Candidate) (object : Buf) : Prop :=
  Safe (Access.InBounds (sizes object (broadcastOpened C candidate object))) (trialDecryptBroadcast C candidate object) 0

def PubkeyV3InBounds (C : Crypto) (object : Buf) : Prop :=
  Safe (Access.InBounds (sizes object (object.header.map fun hdr => object.suffix hdr.headerLen)))
    (parsePubkeyV3 C object) 0

def PubkeyV4InBounds (C : Crypto) (candidate : Candidate) (object : Buf) : Prop :=
  Safe (Access.InBounds (sizes object (pubkeyOpened C candidate object))) (parsePubkeyV4 C candidate object) 0

/-- The four parsers read and slice inside their buffers exactly when no length field that they
reach makes the sum with its offset exceed 64 bits. -/
theorem parsers_inBounds_iff (C : Crypto) (unlocked : List UnlockedIdentity) (candidate : Candidate) (object : Buf) :
    (MsgInBounds C unlocked object ↔
      ∀ hdr identity body, object.header = some hdr → hdr.objectType = objectMsg ∧ hdr.version = 1 →
        msgOpened C unlocked object = some (identity, body) → MsgLengthsFit body identity.ripe) ∧
    (BroadcastInBounds C candidate object ↔
      ∀ hdr body, object.header = some hdr →
        hdr.objectType = objectBroadcast ∧ (hdr.version = 4 ∨ hdr.version = 5) →
        BroadcastTagOk C candidate hdr object → broadcastOpened C candidate object = some body →
        BroadcastLengthsFit body) ∧
    (PubkeyV3InBounds C object ↔
      ∀ hdr, object.header = some hdr → hdr.objectType = objectPubkey ∧ hdr.version = 3 →
        LengthsFit (object.suffix hdr.headerLen) pubkeyLayout 0) ∧
    (PubkeyV4InBounds C candidate object ↔
      ∀ hdr body, object.header = some hdr → hdr.objectType = objectPubkey ∧ hdr.version = 4 →
        hdr.headerLen + 32 ≤ object.size → object.slice hdr.headerLen 32 =
          (addressDeriveSecretAndTag C.toHashes candidate.version candidate.stream candidate.ripe).2 →
        pubkeyOpened C candidate object = some body → LengthsFit body pubkeyLayout 0) :=
  ⟨safe_trialDecryptMsg unlocked object, safe_trialDecryptBroadcast candidate object, safe_parsePubkeyV3 object,
    safe_parsePubkeyV4 candidate object⟩

/-- A library that opens nothing and accepts no signature. -/
def nullCrypto : Crypto where
  sha512 _ := List.replicate 64 0
  ripemd160 _ := List.replicate 20 0
  length_sha512 _ := List.length_replicate
  length_ripemd160 _ := List.length_replicate
  eciesDecrypt _ _ := none
  verify _ _ _ := false

/-- A `pubkey` object of version 3 whose signature claims `2 ^ 64 - 1` bytes. -/
def wrappingPubkey : Buf :=
  Buf.ofBytes (List.replicate 16 0 ++ [0, 0, 0, 1, 3, 1] ++ List.replicate 132 0 ++ [0, 0] ++ List.replicate 9 0xff)
    (by decide +kernel)

theorem parsePubkeyV3_wraps : ¬ PubkeyV3InBounds nullCrypto wrappingPubkey := by
  intro h
  have hhdr : wrappingPubkey.header = some ⟨0, 0, 1, 3, 1, 22⟩ := by
    rw [Buf.header, result_objectParseHeader]
    decide +kernel
  have hfit := (safe_parsePubkeyV3 wrappingPubkey).mp h _ hhdr (by decide)
  have hlen := hfit (by decide +kernel) 0 133 (by decide +kernel) 0 134 (by decide +kernel) (2 ^ 64 - 1) 143
    (by decide +kernel)
  exact absurd hlen.1 (by decide)

end Bitmessage
