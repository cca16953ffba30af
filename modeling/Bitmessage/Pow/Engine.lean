import Bitmessage.Common.Hash

/-! The proof-of-work engine: the difficulty target of an object and the test a
nonce has to pass. -/

namespace Bitmessage

/-- The modulus of `__uint128_t`. -/
abbrev doubleWordSize : ℕ := 2 ^ 128

/-- `bm_pow_get_target`. The product of the TTL and the length, and the product with the
trials per byte, are formed in 128 bits. -/
def powGetTarget (payloadLength ttl nonceTrialsPerByte payloadLengthExtraBytes : ℕ) : ℕ :=
  let l := payloadLength + 8 + payloadLengthExtraBytes
  let denom := nonceTrialsPerByte * (l + (ttl * l % doubleWordSize) / 2 ^ 16) % doubleWordSize
  min (2 ^ 64 / denom) (2 ^ 64 - 1)

section

variable (H : Hashes)

/-- `bm_pow_trial_value`: the first eight bytes of the double hash, read big-endian. -/
def powTrialValue (nonce : ℕ) (initialHash : Bytes) : ℕ :=
  Radix.beNat ((doubleSha512 H (packBe64 nonce ++ initialHash)).take 8)

/-- The test that ends the search of `bm_pow_run_cancellable`. -/
def powSolves (payload : Bytes) (target nonce : ℕ) : Bool :=
  decide (powTrialValue H nonce (H.sha512 payload) ≤ target)

end

/-- A longer lifetime makes the target smaller, as long as the products fit in 128 bits. -/
theorem powGetTarget_antitone_ttl (len ntpb extra : ℕ) {ttl ttl' : ℕ} (h : ttl ≤ ttl')
    (hl : ttl' * (len + 8 + extra) < doubleWordSize)
    (hd : ntpb * (len + 8 + extra + ttl' * (len + 8 + extra) / 2 ^ 16) < doubleWordSize)
    (hpos : 0 < ntpb) :
    powGetTarget len ttl' ntpb extra ≤ powGetTarget len ttl ntpb extra := by
  set l := len + 8 + extra with hl_def
  have hprod : ttl * l ≤ ttl' * l := Nat.mul_le_mul_right l h
  have hden : ntpb * (l + ttl * l / 2 ^ 16) ≤ ntpb * (l + ttl' * l / 2 ^ 16) :=
    Nat.mul_le_mul_left _ (Nat.add_le_add_left (Nat.div_le_div_right hprod) _)
  have hlpos : 0 < ntpb * (l + ttl * l / 2 ^ 16) := Nat.mul_pos hpos (by omega)
  unfold powGetTarget
  simp only [← hl_def]
  rw [Nat.mod_eq_of_lt hl, Nat.mod_eq_of_lt hd, Nat.mod_eq_of_lt (lt_of_le_of_lt hprod hl),
    Nat.mod_eq_of_lt (lt_of_le_of_lt hden hd)]
  exact min_le_min_right _ (Nat.div_le_div_left hden hlpos)

/-- Under these hashes the trial value of a nonce is the nonce. -/
theorem powSolves_prefixHashes_zero (payload : Bytes) (target : ℕ) : powSolves prefixHashes payload target 0 = true := by
  have htake : (doubleSha512 prefixHashes (packBe64 0 ++ prefixHashes.sha512 payload)).take 8 = packBe64 0 := by
    have hlen : (packBe64 0).length = 8 := by simp [packBe64]
    simp only [doubleSha512, prefixHashes, List.take_take, List.append_assoc]
    rw [List.take_append_of_le_length (by simp [hlen]), List.take_take, List.take_append_of_le_length (by simp [hlen])]
    simp [hlen]
  have hzero : powTrialValue prefixHashes 0 (prefixHashes.sha512 payload) = 0 := by
    rw [powTrialValue, htake]
    decide
  simp [powSolves, hzero]

end Bitmessage
