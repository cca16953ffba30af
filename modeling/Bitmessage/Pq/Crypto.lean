import Bitmessage.Common.Buffer

/-! The identities of address version 5 and the hybrid cryptography that works with them.
Hashing, signing and sealing come from the crypto libraries and are parameters of the
model, with the sizes of what they return. -/

namespace Bitmessage

/-- `BM_PQV5_SIG_PK_LEN`, `BM_PQV5_KEM_PK_LEN`, `BM_PQV5_SIG_LEN`, `BM_PQV5_ID_LEN` and
`BM_PQV5_SEAL_OVERHEAD`. -/
def pqv5SigPkLen : ℕ := 1984
def pqv5KemPkLen : ℕ := 1216
def pqv5SigLen : ℕ := 3373
def pqv5IdLen : ℕ := 32
def pqv5SealOverhead : ℕ := 1120 + 16

/-- `BM_PQ_GETPUBKEY_OBJECT_VERSION`, `BM_PQ_MSG_OBJECT_VERSION`, `BM_PQ_PUBKEY_OBJECT_VERSION` and
`BM_PQ_BROADCAST_OBJECT_VERSION`. -/
def pqGetpubkeyObjectVersion : ℕ := 5
def pqMsgObjectVersion : ℕ := 2
def pqPubkeyObjectVersion : ℕ := 5
def pqBroadcastObjectVersion : ℕ := 6

/-- The operations of `pq_hybrid.h`. Signing and sealing may use randomness, which is a
parameter of each call. -/
structure PqCrypto where
  /-- `bm_pq_sha3_256` and `bm_pq_sha3_512`. -/
  sha3_256 : Bytes → Bytes
  sha3_512 : Bytes → Bytes
  /-- `bm_pqv5_kem_keypair_from_seed`: the public and the secret key. -/
  kemKeypairFromSeed (seed : Bytes) : Option (Bytes × Bytes)
  /-- `bm_pqv5_sign`. -/
  pqv5Sign (seed data sk : Bytes) : Option Bytes
  /-- `bm_pqv5_verify`. -/
  pqv5Verify (data sig pk : Bytes) : Bool
  /-- `bm_pqv5_seal`. -/
  pqv5Seal (seed pk aad plaintext : Bytes) : Option Bytes
  /-- `bm_pqv5_open`: the plaintext in a buffer of its own. -/
  pqv5Open (sk aad sealed : Bytes) : Option Buf
  length_sha3_256 : ∀ data, (sha3_256 data).length = 32
  length_sha3_512 : ∀ data, (sha3_512 data).length = 64
  length_pqv5Sign : ∀ seed data sk sig, pqv5Sign seed data sk = some sig → sig.length = pqv5SigLen

/-- `struct bm_pqv5_identity`. -/
structure Pqv5Identity where
  version : ℕ
  stream : ℕ
  sigPk : Bytes
  sigSk : Bytes
  kemPk : Bytes
  kemSk : Bytes
  id : Bytes
  version_lt : version < wordSize
  stream_lt : stream < wordSize
  length_sigPk : sigPk.length = pqv5SigPkLen
  length_kemPk : kemPk.length = pqv5KemPkLen
  length_id : id.length = pqv5IdLen

/-- `struct bm_pq_sender_info`. -/
structure PqSenderInfo where
  identity : Pqv5Identity
  bitfield : ℕ
  nonceTrialsPerByte : ℕ
  payloadLengthExtraBytes : ℕ
  bitfield_lt : bitfield < 2 ^ 32
  nonceTrialsPerByte_lt : nonceTrialsPerByte < wordSize
  payloadLengthExtraBytes_lt : payloadLengthExtraBytes < wordSize

/-- An address of version 5 that an object is tried for. -/
structure PqCandidate where
  version : ℕ
  stream : ℕ
  id : Bytes

variable (C : PqCrypto)

/-- `bm_pqv5_calc_id`. -/
def pqv5CalcId (sigPk kemPk : Bytes) : Bytes := C.sha3_256 (sigPk ++ kemPk)

/-- `bm_pqv5_derive_secret_and_tag`. -/
def pqv5DeriveSecretAndTag (version stream : ℕ) (id : Bytes) : Bytes × Bytes :=
  let digest := C.sha3_512 (varintEncode version ++ varintEncode stream ++ id)
  (digest.take 32, digest.drop 32)

/-- `bm_pqv5_address_kem_keypair`. -/
def pqv5AddressKemKeypair (version stream : ℕ) (id : Bytes) : Option (Bytes × Bytes) :=
  C.kemKeypairFromSeed (pqv5DeriveSecretAndTag C version stream id).1

/-- The tag of a candidate. -/
def PqCandidate.tag (candidate : PqCandidate) : Bytes :=
  (pqv5DeriveSecretAndTag C candidate.version candidate.stream candidate.id).2

theorem PqCandidate.length_tag (candidate : PqCandidate) : (candidate.tag C).length = 32 := by
  simp only [PqCandidate.tag, pqv5DeriveSecretAndTag, List.length_drop, C.length_sha3_512]

/-- The address of an identity. -/
def Pqv5Identity.candidate (identity : Pqv5Identity) : PqCandidate := ⟨identity.version, identity.stream, identity.id⟩

end Bitmessage
