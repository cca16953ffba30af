import Bitmessage.Infra.Object
import Bitmessage.Pow.Engine

/-! What an object has to pass before it is taken in: the header is complete, the object
has not expired for longer than the grace period, and its nonce meets the lowest
difficulty of the network for the lifetime that is left. -/

namespace Bitmessage

/-- `BM_OBJECT_EXPIRE_GRACE_PERIOD_SECONDS`. -/
def objectExpireGracePeriod : ℤ := 3600

/-- `BM_NETWORK_MIN_NONCE_TRIALS_PER_BYTE`. -/
def networkMinNonceTrialsPerByte : ℕ := 1000

/-- `BM_NETWORK_MIN_PAYLOAD_LENGTH_EXTRA_BYTES`. -/
def networkMinPayloadLengthExtraBytes : ℕ := 1000

/-- `BM_MAX_OBJECT_PAYLOAD_SIZE`. -/
def maxObjectPayloadSize : ℕ := 2 ^ 18

/-- The lifetime that is left, zero for an expired object. -/
def remainingTtl (hdr : ObjectHeader) (now : ℤ) : ℕ :=
  if ofInt64 now < hdr.expiresTime then hdr.expiresTime - ofInt64 now else 0

section

variable (H : Hashes)

/-- `object_pow_is_valid`. -/
def objectPowIsValid (object : Buf) (hdr : ObjectHeader) (now : ℤ) : Bool :=
  decide (powTrialValue H hdr.nonce (H.sha512 (object.slice 8 (subW object.size 8))) ≤
    powGetTarget (subW object.size 8) (remainingTtl hdr now) networkMinNonceTrialsPerByte
      networkMinPayloadLengthExtraBytes)

/-- The checks that `handle_object` and `validate_and_store_ack` share. -/
def objectCheck (object : Buf) (now : ℤ) : Option ObjectHeader :=
  object.header.bind fun hdr =>
    if toInt64 hdr.expiresTime < now - objectExpireGracePeriod then none
    else if objectPowIsValid H object hdr now then some hdr
    else none

/-- The checks at the top of `handle_object`. -/
def objectAccept (object : Buf) (now : ℤ) : Option ObjectHeader :=
  if maxObjectPayloadSize < object.size then none else objectCheck H object now

end

end Bitmessage
