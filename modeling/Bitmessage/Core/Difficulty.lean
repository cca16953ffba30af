import Bitmessage.Core.PubkeyCache
import Bitmessage.Pow.Engine
import Bitmessage.Pq.Object

/-! The difficulty of the proof of work for an own object. An identity brings the pair of
parameters it was created or imported with, a recipient the pair of its public key, and a
message is mined for the larger of the two. The target is a quotient of `2 ^ 64` by a
product of these values, which the code forms in 128 bits. -/

namespace Bitmessage

/-- `nonce_trials_per_byte` and `payload_length_extra_bytes`. -/
structure Difficulty where
  nonceTrialsPerByte : ℕ
  payloadLengthExtraBytes : ℕ
  deriving DecidableEq

namespace Difficulty

/-- The larger value of each parameter. -/
def max (d e : Difficulty) : Difficulty :=
  ⟨if d.nonceTrialsPerByte < e.nonceTrialsPerByte then e.nonceTrialsPerByte else d.nonceTrialsPerByte,
    if d.payloadLengthExtraBytes < e.payloadLengthExtraBytes then e.payloadLengthExtraBytes
    else d.payloadLengthExtraBytes⟩

/-- The parameters in `h_importAddress`: what the call gives, else the configured default. -/
def imported (config : Difficulty) (nonceTrials payloadExtra : Option ℕ) : Difficulty :=
  ⟨nonceTrials.getD config.nonceTrialsPerByte, payloadExtra.getD config.payloadLengthExtraBytes⟩

/-- The length in `bm_pow_get_target`, with the nonce and the extra bytes. -/
def countedLength (d : Difficulty) (payloadLength : ℕ) : ℕ := payloadLength + 8 + d.payloadLengthExtraBytes

/-- The product of the trials per byte with the length and its share of the lifetime, over the integers. -/
def work (d : Difficulty) (payloadLength ttl : ℕ) : ℕ :=
  d.nonceTrialsPerByte * (d.countedLength payloadLength + ttl * d.countedLength payloadLength / 2 ^ 16)

/-- The denominator in `bm_pow_get_target`, as it is formed in 128 bits. -/
def denominator (d : Difficulty) (payloadLength ttl : ℕ) : ℕ :=
  d.nonceTrialsPerByte *
    (d.countedLength payloadLength + (ttl * d.countedLength payloadLength % doubleWordSize) / 2 ^ 16) % doubleWordSize

/-- `bm_pow_get_target` for the two parameters. -/
def target (d : Difficulty) (payloadLength ttl : ℕ) : ℕ :=
  powGetTarget payloadLength ttl d.nonceTrialsPerByte d.payloadLengthExtraBytes

/-- Neither product of `bm_pow_get_target` leaves 128 bits. -/
def Fits (d : Difficulty) (payloadLength ttl : ℕ) : Prop :=
  ttl * d.countedLength payloadLength < doubleWordSize ∧ d.work payloadLength ttl < doubleWordSize

end Difficulty

/-- How an identity came into the store. -/
inductive IdentityOrigin where
  | created
  | imported (nonceTrials payloadExtra : Option ℕ)

/-- The difficulty that is stored with an identity. -/
def IdentityOrigin.difficulty (config : Difficulty) : IdentityOrigin → Difficulty
  | .created => config
  | .imported nonceTrials payloadExtra => config.imported nonceTrials payloadExtra

def CachedPubkey.difficulty (key : CachedPubkey) : Difficulty :=
  ⟨key.nonceTrialsPerByte, key.payloadLengthExtraBytes⟩

def PqPubkeyParsed.difficulty (key : PqPubkeyParsed) : Difficulty :=
  ⟨key.nonceTrialsPerByte, key.payloadLengthExtraBytes⟩

/-- The recipient of an object, as far as its difficulty goes. -/
inductive RecipientKey where
  /-- no row in the cache, or no recipient at all -/
  | none
  /-- a row of `pubkey_cache` -/
  | legacy (cached : CachedPubkey)
  /-- a row of the cache for version 5 -/
  | pq (key : PqPubkeyParsed)
  /-- an own identity of version 5 -/
  | pqOwn (origin : IdentityOrigin)

/-- The selection in `prepare_legacy_msg`: below version 3 a public key carries no difficulty. -/
def legacyDifficulty (sender : Difficulty) (cached : Option CachedPubkey) : Difficulty :=
  match cached with
  | some key => if 3 ≤ key.addressVersion then sender.max key.difficulty else sender
  | none => sender

/-- `required_nonce_trials` and `required_extra_bytes`. -/
def requiredDifficulty (config sender : Difficulty) : RecipientKey → Difficulty
  | .none => legacyDifficulty sender none
  | .legacy cached => legacyDifficulty sender (some cached)
  | .pq key => sender.max key.difficulty
  | .pqOwn origin => sender.max (origin.difficulty config)

namespace Difficulty

variable (d : Difficulty) (len ttl : ℕ)

theorem target_eq : d.target len ttl = min (2 ^ 64 / d.denominator len ttl) (2 ^ 64 - 1) := rfl

theorem countedLength_pos : 0 < d.countedLength len := by
  unfold countedLength
  omega

variable {d len ttl}

theorem Fits.denominator_eq (h : d.Fits len ttl) : d.denominator len ttl = d.work len ttl := by
  obtain ⟨hprod, hwork⟩ := h
  rw [denominator, Nat.mod_eq_of_lt hprod]
  exact Nat.mod_eq_of_lt hwork

theorem work_pos (h : 0 < d.nonceTrialsPerByte) : 0 < d.work len ttl :=
  Nat.mul_pos h (by have := d.countedLength_pos len; omega)

/-- A positive amount of work that is at most `2 ^ 64` is computed without a wrap. -/
theorem fits_of_work_le (hpos : 0 < d.nonceTrialsPerByte) (h : d.work len ttl ≤ 2 ^ 64) : d.Fits len ttl := by
  have hle : d.countedLength len + ttl * d.countedLength len / 2 ^ 16 ≤ 2 ^ 64 :=
    le_trans (Nat.le_mul_of_pos_left _ hpos) h
  unfold Fits doubleWordSize
  omega

/-- The work grows with the length, the lifetime and both parameters. -/
theorem work_mono {e : Difficulty} {len' ttl' : ℕ} (htrials : d.nonceTrialsPerByte ≤ e.nonceTrialsPerByte)
    (hextra : d.payloadLengthExtraBytes ≤ e.payloadLengthExtraBytes) (hlen : len ≤ len') (httl : ttl ≤ ttl') :
    d.work len ttl ≤ e.work len' ttl' := by
  have hcount : d.countedLength len ≤ e.countedLength len' := by
    unfold countedLength
    omega
  have hprod : ttl * d.countedLength len ≤ ttl' * e.countedLength len' := Nat.mul_le_mul httl hcount
  exact Nat.mul_le_mul htrials (Nat.add_le_add hcount (Nat.div_le_div_right hprod))

/-- `bm_pow_get_target` is antitone in the length, the lifetime and both parameters, as long as
the larger products fit. -/
theorem target_antitone {e : Difficulty} {len' ttl' : ℕ} (hpos : 0 < d.nonceTrialsPerByte)
    (htrials : d.nonceTrialsPerByte ≤ e.nonceTrialsPerByte)
    (hextra : d.payloadLengthExtraBytes ≤ e.payloadLengthExtraBytes) (hlen : len ≤ len') (httl : ttl ≤ ttl')
    (hd : d.Fits len ttl) (he : e.Fits len' ttl') : e.target len' ttl' ≤ d.target len ttl := by
  rw [target_eq, target_eq, hd.denominator_eq, he.denominator_eq]
  exact min_le_min_right _ (Nat.div_le_div_left (work_mono htrials hextra hlen httl) (work_pos hpos))

end Difficulty

/-- The target is computed exactly: no division by zero, no product that wraps, the quotient over
the integers (the largest 64-bit value where it does not fit), and a target that some nonce can
meet. -/
def TargetExact (d : Difficulty) (payloadLength ttl : ℕ) : Prop :=
  d.denominator payloadLength ttl ≠ 0 ∧ d.Fits payloadLength ttl ∧
    d.target payloadLength ttl = min (2 ^ 64 - 1) (2 ^ 64 / d.work payloadLength ttl) ∧ 1 ≤ d.target payloadLength ttl

/-- For every length and lifetime, and whatever difficulty an import, the configuration and a
public key bring in, the target is exact if and only if the trials per byte are positive and the
work is at most `2 ^ 64`. -/
theorem target_exact_iff (config : Difficulty) (sender : IdentityOrigin) (recipient : RecipientKey)
    (payloadLength ttl : ℕ) :
    let d := requiredDifficulty config (sender.difficulty config) recipient
    TargetExact d payloadLength ttl ↔ 0 < d.nonceTrialsPerByte ∧ d.work payloadLength ttl ≤ 2 ^ 64 := by
  intro d
  constructor
  · intro ⟨hne, hfits, heq, hone⟩
    rw [hfits.denominator_eq] at hne
    have htrials : d.nonceTrialsPerByte ≠ 0 := by
      intro h0
      exact hne (by simp [Difficulty.work, h0])
    rw [heq] at hone
    have hquot : 0 < 2 ^ 64 / d.work payloadLength ttl := lt_of_lt_of_le hone (min_le_right _ _)
    exact ⟨Nat.pos_of_ne_zero htrials, (Nat.div_pos_iff.mp hquot).2⟩
  · intro ⟨hpos, hle⟩
    have hfits := Difficulty.fits_of_work_le hpos hle
    have hwork : 0 < d.work payloadLength ttl := Difficulty.work_pos hpos
    have heq : d.target payloadLength ttl = min (2 ^ 64 - 1) (2 ^ 64 / d.work payloadLength ttl) := by
      rw [Difficulty.target_eq, hfits.denominator_eq, min_comm]
    have hone : 1 ≤ 2 ^ 64 / d.work payloadLength ttl := Nat.div_pos hle hwork
    refine ⟨by rw [hfits.denominator_eq]; omega, hfits, heq, ?_⟩
    rw [heq]
    exact le_min (by norm_num) hone

/-- An identity that is imported with no trials per byte: the target of its broadcast is a
division by zero. -/
theorem imported_zero_not_exact :
    ¬ TargetExact (requiredDifficulty ⟨1000, 1000⟩
      ((IdentityOrigin.imported (some 0) none).difficulty ⟨1000, 1000⟩) .none) 300 172800 := by
  intro h
  exact h.1 (by decide)

end Bitmessage
