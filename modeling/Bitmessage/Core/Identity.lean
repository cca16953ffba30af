import Bitmessage.Common.Buffer
import Bitmessage.Common.Hash

/-! The identities whose private keys are in memory, and the public-key cryptography
that works with them. Encryption and signatures come from the crypto library and are
parameters of the model. -/

namespace Bitmessage

/-- `BM_RIPE_LEN`. -/
def ripeLen : ℕ := 20

/-- `struct bm_unlocked_identity`. -/
structure UnlockedIdentity where
  address : Bytes
  ripe : Bytes
  privSigning : Bytes
  privEncryption : Bytes
  pubSigning : Bytes
  pubEncryption : Bytes
  addressVersion : ℕ
  stream : ℕ
  nonceTrialsPerByte : ℕ
  payloadLengthExtraBytes : ℕ
  isChan : Bool
  unlockedAt : ℤ
  ripe_length : ripe.length = ripeLen
  deriving DecidableEq

/-- The operations of `crypto.h` that a receiver uses, with the hashes. -/
structure Crypto extends Hashes where
  /-- `bm_crypto_ecies_decrypt`: the plaintext in a buffer of its own. -/
  eciesDecrypt (ciphertext priv : Bytes) : Option Buf
  /-- `bm_crypto_verify`. -/
  verify (data sig pub : Bytes) : Bool

/-- A library without secrets: the ciphertext is the plaintext and every signature verifies. -/
def plainCrypto : Crypto where
  toHashes := prefixHashes
  eciesDecrypt ciphertext _ := if h : ciphertext.length < 2 ^ 63 then some (Buf.ofBytes ciphertext h) else none
  verify _ _ _ := true

/-- An uncompressed public key from its coordinates. -/
def uncompressed (coordinates : Bytes) : Bytes := 0x04 :: coordinates

/-- The bytes from offset `off` on, as a buffer of its own. -/
def Buf.suffix (b : Buf) (off : ℕ) : Buf :=
  ⟨fun i => b.mem (off + i), b.size - off, lt_of_le_of_lt (Nat.sub_le _ _) b.size_lt⟩

end Bitmessage
