import Bitmessage.Core.Difficulty
import Bitmessage.Core.RoundTrip
import Bitmessage.Core.SendPipeline
import Bitmessage.Pq.ObjectRoundTrip

/-! The objects that a node mines for itself: messages, acknowledgements, broadcasts, requests
for public keys and the answers to them, and the announcement of the onion service, of the
older address versions and of version 5. The miner works for the difficulty of the identity and
of the recipient and for the whole lifetime; a receiver checks the nonce against the minimum
of the network and the lifetime that is left. -/

namespace Bitmessage

/-- `BM_NETWORK_MIN_NONCE_TRIALS_PER_BYTE` and `BM_NETWORK_MIN_PAYLOAD_LENGTH_EXTRA_BYTES`. -/
def networkDifficulty : Difficulty := ⟨networkMinNonceTrialsPerByte, networkMinPayloadLengthExtraBytes⟩

def ackDifficulty : Difficulty := ⟨ackNonceTrialsPerByte, ackPayloadLengthExtraBytes⟩

/-- `BM_GETPUBKEY_NONCE_TRIALS_PER_BYTE` and `BM_GETPUBKEY_PAYLOAD_LENGTH_EXTRA_BYTES`. -/
def getpubkeyDifficulty : Difficulty := ⟨1000, 1000⟩

/-- `BM_GETPUBKEY_REQUEST_TTL_SECONDS`. -/
def getpubkeyRequestTtl : ℕ := 2 * 24 * 60 * 60

/-- `BM_PUBKEY_RESPONSE_TTL_SECONDS` and `BM_PQ_PUBKEY_RESPONSE_TTL_SECONDS`. -/
def pubkeyResponseTtl : ℕ := 28 * 24 * 60 * 60
def pqPubkeyResponseTtl : ℕ := 7 * 24 * 60 * 60

/-- `BM_ONIONPEER_ANNOUNCE_TTL_SECONDS`. -/
def onionpeerAnnounceTtl : ℕ := 2 * 24 * 60 * 60

def IdentityInfo.difficulty (id : IdentityInfo) : Difficulty := ⟨id.nonceTrialsPerByte, id.payloadLengthExtraBytes⟩

def PqSenderInfo.difficulty (sender : PqSenderInfo) : Difficulty :=
  ⟨sender.nonceTrialsPerByte, sender.payloadLengthExtraBytes⟩

/-- An address that has been decoded. The hash is the ripe, or the id in version 5. -/
structure Destination where
  version : ℕ
  stream : ℕ
  hash : Bytes
  version_lt : version < wordSize
  stream_lt : stream < wordSize

/-- An object to be built and mined, with what the builder is given. -/
inductive MinedObject where
  | msg (sender : IdentityInfo) (cached : Option CachedPubkey) (dest : Destination) (pubEncryption : Bytes)
      (subject body : CString) (ackPayload : Bytes) (ttl : ℕ)
  | pqMsg (sender : PqSenderInfo) (recipient : Difficulty) (dest : Destination) (kemPk : Bytes)
      (subject body : CString) (ackPayload : Bytes) (ttl : ℕ)
  | ack (stealthLevel : ℤ) (dest : Destination) (data : Bytes) (ttl : ℕ)
  | broadcast (sender : IdentityInfo) (ripe : Bytes) (subject body : CString) (ttl : ℕ)
  | pqBroadcast (sender : PqSenderInfo) (subject body : CString) (ttl : ℕ)
  | getpubkey (dest : Destination)
  | pqGetpubkey (dest : Destination)
  | pubkeyResponse (id : IdentityInfo) (ripe : Bytes)
  | pqPubkeyResponse (sender : PqSenderInfo)
  | onionpeer (onionAddress : CString) (port : ℕ)

namespace MinedObject

/-- The difficulty that is passed to `bm_pow_get_target`. -/
def difficulty : MinedObject → Difficulty
  | msg sender cached _ _ _ _ _ _ => legacyDifficulty sender.difficulty cached
  | pqMsg sender recipient _ _ _ _ _ _ => sender.difficulty.max recipient
  | ack _ _ _ _ => ackDifficulty
  | broadcast sender _ _ _ _ => sender.difficulty
  | pqBroadcast sender _ _ _ => sender.difficulty
  | getpubkey _ | pqGetpubkey _ => getpubkeyDifficulty
  | pubkeyResponse id _ => id.difficulty
  | pqPubkeyResponse sender => sender.difficulty
  | onionpeer _ _ => networkDifficulty

/-- The lifetime. -/
def ttl : MinedObject → ℕ
  | msg _ _ _ _ _ _ _ ttl | pqMsg _ _ _ _ _ _ _ ttl | ack _ _ _ ttl | broadcast _ _ _ _ ttl | pqBroadcast _ _ _ ttl => ttl
  | getpubkey _ | pqGetpubkey _ => getpubkeyRequestTtl
  | pubkeyResponse _ _ => pubkeyResponseTtl
  | pqPubkeyResponse _ => pqPubkeyResponseTtl
  | onionpeer _ _ => onionpeerAnnounceTtl

variable (S : SenderCrypto) (P : PqCrypto) (M : Allocator) (seed : Bytes)

/-- The payload, without the nonce. The encoding of a text is always the simple one. -/
def build (expires : ℕ) : MinedObject → Option Bytes
  | msg sender _ dest pubEncryption subject body ackPayload _ =>
    buildMsg S seed sender dest.stream dest.hash pubEncryption subject body ackPayload expires
  | pqMsg sender _ dest kemPk subject body ackPayload _ =>
    (pqBuildMsg P seed M sender dest.stream dest.hash kemPk 2 (simpleText subject body) ackPayload expires).map
      PqBuilt.out
  | ack stealthLevel dest data _ => some (packBe64 expires ++ buildAckObject stealthLevel dest.stream data)
  | broadcast sender ripe subject body _ => buildBroadcast S seed sender ripe subject body expires
  | pqBroadcast sender subject body _ =>
    (pqBuildBroadcast P seed M sender 2 (simpleText subject body) expires).map PqBuilt.out
  | getpubkey dest => some (buildGetpubkey S.toHashes dest.version dest.stream dest.hash expires)
  | pqGetpubkey dest => pqBuildGetpubkey P M dest.version dest.stream dest.hash expires
  | pubkeyResponse id ripe =>
    if id.addressVersion = 2 then some (buildPubkeyV2 id expires)
    else if id.addressVersion = 3 then buildPubkeyV3 S seed id expires
    else buildPubkeyV4 S seed id ripe expires
  | pqPubkeyResponse sender => (pqBuildPubkey P seed M sender expires).map PqBuilt.out
  | onionpeer onionAddress port => buildOnionpeer onionAddress (port % 2 ^ 16) 1 expires

end MinedObject

/-- What is submitted to be mined. The object with its nonce has to fit in memory. -/
structure MiningJob where
  payload : Bytes
  ttl : ℕ
  difficulty : Difficulty
  length_lt : 8 + payload.length < 2 ^ 63

namespace MiningJob

variable (job : MiningJob)

def target : ℕ := job.difficulty.target job.payload.length job.ttl

def denominator : ℕ := job.difficulty.denominator job.payload.length job.ttl

/-- The products for the target fit in 128 bits. -/
def Fits : Prop := job.difficulty.Fits job.payload.length job.ttl

/-- Both parameters are at least the network's. -/
def AtLeastMinimum : Prop :=
  networkMinNonceTrialsPerByte ≤ job.difficulty.nonceTrialsPerByte ∧
    networkMinPayloadLengthExtraBytes ≤ job.difficulty.payloadLengthExtraBytes

instance decidableAtLeastMinimum : Decidable job.AtLeastMinimum := inferInstanceAs (Decidable (_ ∧ _))

/-- Every nonce that the miner takes, whatever the hash function is, passes `object_pow_is_valid`
at every time from the submission on. -/
def Accepted (submitted : ℤ) : Prop :=
  ∀ (H : Hashes) (nonce : ℕ) (object : Buf) (now : ℤ), powSolves H job.payload job.target nonce = true →
    object.bytes = buildObject job.payload nonce → submitted ≤ now → now < 2 ^ 63 →
    ∃ hdr, object.header = some hdr ∧ objectPowIsValid H object hdr now = true

/-- A difficulty of at least the network's minimum is used, the target is defined, and the object
is accepted. -/
def MeetsNetworkRule (submitted : ℤ) : Prop :=
  job.AtLeastMinimum ∧ job.denominator ≠ 0 ∧ job.Accepted submitted

end MiningJob

/-- `expires_time` of an object that is submitted at `now`. -/
def expiresAt (now : ℤ) (ttl : ℕ) : ℕ := addW (ofInt64 now) ttl

/-- The lifetime that is left of an expiry time. -/
def ttlLeft (expires : ℕ) (now : ℤ) : ℕ := if ofInt64 now < expires then expires - ofInt64 now else 0

/-- Build an own object and submit it. -/
def MinedObject.job (S : SenderCrypto) (P : PqCrypto) (M : Allocator) (seed : Bytes) (now : ℤ) (o : MinedObject) :
    Option MiningJob :=
  (build S P M seed (expiresAt now o.ttl) o).bind fun payload =>
    if h : 8 + payload.length < 2 ^ 63 then some ⟨payload, o.ttl, o.difficulty, h⟩ else none

/-! ### The header of an own object -/

/-- The payload starts with the header that all objects share. -/
def HasHeader (payload : Bytes) (expires : ℕ) : Prop :=
  ∃ type version stream data, type < 2 ^ 32 ∧ version < wordSize ∧ stream < wordSize ∧
    payload = packBe64 expires ++ (Radix.beBytes 4 type ++ (varintEncode version ++ (varintEncode stream ++ data)))

theorem hasHeader_commonHeader {expires type version stream : ℕ} (data : Bytes) (ht : type < 2 ^ 32)
    (hv : version < wordSize) (hs : stream < wordSize) :
    HasHeader (commonHeader expires type version stream ++ data) expires :=
  ⟨type, version, stream, data, ht, hv, hs, by simp [commonHeader]⟩

theorem hasHeader_wObjectHeader {expires type version stream : ℕ} (data : Bytes) (ht : type < 2 ^ 32)
    (hv : version < wordSize) (hs : stream < wordSize) :
    HasHeader ((wObjectHeader expires type version stream).flatten ++ data) expires :=
  ⟨type, version, stream, data, ht, hv, hs, by simp [wObjectHeader, packBe64]⟩

/-- What is signed and sealed stands behind the fields that were written in the clear. -/
theorem pqSignAndSeal_out {P : PqCrypto} {M : Allocator} {seed kemPk : Bytes} {identity : Pqv5Identity}
    {plainLen innerPresigLen : ℕ} {plain fields : List Bytes} {d : PqDraft} {b : PqBuilt}
    (hplain : plain.flatten.length = plainLen) (hdraft : pqDraft M plainLen innerPresigLen plain fields = some d)
    (h : pqSignAndSeal P seed identity kemPk d = some b) : ∃ sealed, b.out = plain.flatten ++ sealed := by
  obtain ⟨sig, sealed, -, -, -, -, rfl⟩ := pqSignAndSeal_cases h
  exact ⟨sealed, by rw [take_plainLen hplain hdraft]⟩

namespace MinedObject

variable {S : SenderCrypto} {P : PqCrypto} {M : Allocator} {seed payload : Bytes} {expires : ℕ}

theorem hasHeader_signAndEncrypt {id : IdentityInfo} {type version stream : ℕ} {clear fields pub : Bytes}
    (ht : type < 2 ^ 32) (hv : version < wordSize) (hs : stream < wordSize)
    (h : signAndEncrypt S seed id (commonHeader expires type version stream ++ clear) fields pub = some payload) :
    HasHeader payload expires := by
  obtain ⟨sig, ciphertext, -, -, rfl⟩ := signAndEncrypt_eq_some h
  rw [List.append_assoc]
  exact hasHeader_commonHeader _ ht hv hs

theorem hasHeader_pqBuilt {identity : Pqv5Identity} {kemPk : Bytes} {type version stream plainLen innerPresigLen : ℕ}
    {clear fields : List Bytes} {d : PqDraft} {b : PqBuilt} (ht : type < 2 ^ 32) (hv : version < wordSize)
    (hs : stream < wordSize)
    (hplain : (wObjectHeader expires type version stream ++ clear).flatten.length = plainLen)
    (hdraft : pqDraft M plainLen innerPresigLen (wObjectHeader expires type version stream ++ clear) fields = some d)
    (h : pqSignAndSeal P seed identity kemPk d = some b) : HasHeader b.out expires := by
  obtain ⟨sealed, hout⟩ := pqSignAndSeal_out hplain hdraft h
  rw [hout, List.flatten_append, List.append_assoc]
  exact hasHeader_wObjectHeader _ ht hv hs

theorem length_taggedHeader (P : PqCrypto) (identity : Pqv5Identity) (expires type version : ℕ) :
    (wObjectHeader expires type version identity.stream ++ [identity.candidate.tag P]).flatten.length =
      objectHeaderSize version identity.stream + 32 := by
  simp only [List.flatten_append, List.length_append, List.flatten_cons, List.flatten_nil, List.append_nil,
    PqCandidate.length_tag, wObjectHeader, objectHeaderSize, Radix.length_beBytes, length_varintEncode]
  omega

/-- Every builder writes the common header first. -/
theorem hasHeader_build {o : MinedObject} (h : build S P M seed expires o = some payload) :
    HasHeader payload expires := by
  cases o with
  | msg sender cached dest pubEncryption subject body ackPayload ttl =>
    simp only [build, buildMsg] at h
    rw [← List.append_nil (commonHeader _ _ _ _)] at h
    exact hasHeader_signAndEncrypt (by decide) one_lt_wordSize dest.stream_lt h
  | pqMsg sender recipient dest kemPk subject body ackPayload ttl =>
    simp only [build, pqBuildMsg, Option.bind_eq_bind, Option.map_eq_some_iff, Option.bind_eq_some_iff] at h
    obtain ⟨b, ⟨d, hdraft, h⟩, rfl⟩ := h
    split at h
    · cases h
    · rw [← List.append_nil (wObjectHeader _ _ _ _)] at hdraft
      refine hasHeader_pqBuilt (by decide) (by decide) dest.stream_lt ?_ hdraft h
      simp [wObjectHeader, objectHeaderSize, length_varintEncode]
      omega
  | ack stealthLevel dest data ttl =>
    simp only [build, buildAckObject, Option.some.injEq] at h
    subst h
    split
    · exact ⟨objectGetpubkey, 4, dest.stream, data, by decide, by decide, dest.stream_lt, rfl⟩
    · exact ⟨objectMsg, 1, dest.stream, data, by decide, one_lt_wordSize, dest.stream_lt, rfl⟩
  | broadcast sender ripe subject body ttl =>
    simp only [build, buildBroadcast, Option.bind_eq_bind, Option.bind_eq_some_iff] at h
    obtain ⟨pubEnc, -, h⟩ := h
    refine hasHeader_signAndEncrypt (by decide) ?_ sender.stream_lt h
    unfold broadcastVersion
    split <;> decide
  | pqBroadcast sender subject body ttl =>
    simp only [build, pqBuildBroadcast, Option.bind_eq_bind, Option.map_eq_some_iff, Option.bind_eq_some_iff] at h
    obtain ⟨b, ⟨keys, -, d, hdraft, h⟩, rfl⟩ := h
    exact hasHeader_pqBuilt (by decide) (by decide) sender.identity.stream_lt
      (length_taggedHeader P sender.identity _ _ _) hdraft h
  | getpubkey dest =>
    simp only [build, buildGetpubkey, Option.some.injEq] at h
    subst h
    exact hasHeader_commonHeader _ (by decide) dest.version_lt dest.stream_lt
  | pqGetpubkey dest =>
    simp only [build, pqBuildGetpubkey, Option.bind_eq_bind, Option.bind_eq_some_iff] at h
    obtain ⟨mem, -, h⟩ := h
    split at h
    · cases h
    · next hover =>
      cases h
      rw [Bool.not_eq_true] at hover
      rw [BoundedWriter.contents, (BoundedWriter.written_putAll hover).2, List.flatten_append, BoundedWriter.start,
        List.nil_append, List.append_assoc]
      exact hasHeader_wObjectHeader _ (by decide) (by decide) dest.stream_lt
  | pubkeyResponse id ripe =>
    simp only [build] at h
    split at h
    · cases h
      exact hasHeader_commonHeader _ (by decide) (by decide) id.stream_lt
    · split at h
      · simp only [buildPubkeyV3, Option.bind_eq_bind, Option.bind_eq_some_iff, Option.pure_def,
          Option.some.injEq] at h
        obtain ⟨sig, -, rfl⟩ := h
        rw [List.append_assoc]
        exact hasHeader_commonHeader _ (by decide) (by decide) id.stream_lt
      · simp only [buildPubkeyV4, Option.bind_eq_bind, Option.bind_eq_some_iff] at h
        obtain ⟨pubEnc, -, h⟩ := h
        exact hasHeader_signAndEncrypt (by decide) (by decide) id.stream_lt h
  | pqPubkeyResponse sender =>
    simp only [build, pqBuildPubkey, Option.bind_eq_bind, Option.map_eq_some_iff, Option.bind_eq_some_iff] at h
    obtain ⟨b, ⟨keys, -, d, hdraft, h⟩, rfl⟩ := h
    exact hasHeader_pqBuilt (by decide) (by decide) sender.identity.stream_lt
      (length_taggedHeader P sender.identity _ _ _) hdraft h
  | onionpeer onionAddress port =>
    simp only [build, buildOnionpeer] at h
    split at h
    · split at h
      · cases h
        exact hasHeader_commonHeader _ (by decide) one_lt_wordSize one_lt_wordSize
      · cases h
    · cases h

end MinedObject

/-! ### What a receiver computes -/

/-- The products of a receiver always fit: an object in memory is shorter than `2 ^ 63` bytes. -/
theorem networkDifficulty_fits {len ttl : ℕ} (hlen : 8 + len < 2 ^ 63) (httl : ttl < wordSize) :
    networkDifficulty.Fits len ttl := by
  have hcount : networkDifficulty.countedLength len = len + 1008 := by
    simp [Difficulty.countedLength, networkDifficulty, networkMinPayloadLengthExtraBytes]
  have hprod : ttl * (len + 1008) < 2 ^ 64 * (2 ^ 63 + 1008) := Nat.mul_lt_mul'' httl (by omega)
  unfold Difficulty.Fits Difficulty.work doubleWordSize
  rw [hcount]
  simp only [networkDifficulty, networkMinNonceTrialsPerByte]
  omega

/-- A receiver never has the largest target: the minimum counts 1008 bytes and 1000 trials. -/
theorem networkDifficulty_quotient {len ttl : ℕ} (hfits : networkDifficulty.Fits len ttl) :
    2 ^ 64 / networkDifficulty.denominator len ttl < 2 ^ 64 - 1 := by
  have hcount : 1008 ≤ networkDifficulty.countedLength len := by
    simp only [Difficulty.countedLength, networkDifficulty, networkMinPayloadLengthExtraBytes]
    omega
  have hwork : 1000 ≤ networkDifficulty.work len ttl := by
    simp only [Difficulty.work]
    rw [show networkDifficulty.nonceTrialsPerByte = 1000 from rfl]
    omega
  rw [hfits.denominator_eq]
  have hquot : 2 ^ 64 / networkDifficulty.work len ttl ≤ 2 ^ 64 / 1000 := Nat.div_le_div_left hwork (by norm_num)
  exact lt_of_le_of_lt hquot (by norm_num)

theorem ttlLeft_lt {expires : ℕ} (h : expires < wordSize) (now : ℤ) : ttlLeft expires now < wordSize := by
  unfold ttlLeft
  split <;> omega

theorem expiresAt_lt (now : ℤ) (ttl : ℕ) : expiresAt now ttl < wordSize := addW_lt _ _

theorem ofInt64_of_nonneg {now : ℤ} (h0 : 0 ≤ now) (h : now < 2 ^ 63) : ofInt64 now = now.toNat := by
  rw [ofInt64, Int.emod_eq_of_lt h0 (by omega)]

/-- Less of the lifetime is left later on. -/
theorem ttlLeft_anti (expires : ℕ) {submitted now : ℤ} (h0 : 0 ≤ submitted) (hle : submitted ≤ now)
    (h : now < 2 ^ 63) : ttlLeft expires now ≤ ttlLeft expires submitted := by
  simp only [ttlLeft, ofInt64_of_nonneg h0 (by omega), ofInt64_of_nonneg (le_trans h0 hle) h]
  split_ifs <;> omega

/-- What is left at the submission is at most the lifetime, also when the expiry time wraps. -/
theorem ttlLeft_expiresAt_le {now : ℤ} (h0 : 0 ≤ now) (h : now < 2 ^ 63) (ttl : ℕ) :
    ttlLeft (expiresAt now ttl) now ≤ ttl := by
  simp only [ttlLeft, expiresAt, addW, wordSize, ofInt64_of_nonneg h0 h]
  split_ifs <;> omega

namespace MiningJob

variable {job : MiningJob} {expires : ℕ}

/-- A receiver compares the trial value with the target of the network for the time that is left. -/
theorem objectPowIsValid_iff (hheader : HasHeader job.payload expires) (he : expires < wordSize) (H : Hashes)
    {nonce : ℕ} {object : Buf} (hobject : object.bytes = buildObject job.payload nonce) (now : ℤ) :
    (∃ hdr, object.header = some hdr ∧ objectPowIsValid H object hdr now = true) ↔
      powTrialValue H nonce (H.sha512 job.payload) ≤
        networkDifficulty.target job.payload.length (ttlLeft expires now) := by
  obtain ⟨-, hsub, hslice⟩ := payload_of_buildObject hobject
  obtain ⟨type, version, stream, data, ht, hv, hs, hpayload⟩ := hheader
  have hbytes : object.bytes = packBe64 (nonce % wordSize) ++ (packBe64 expires ++ (Radix.beBytes 4 type ++
      (varintEncode version ++ (varintEncode stream ++ data)))) := by
    rw [packBe64_mod, hobject, buildObject, hpayload]
  have hhdr := Buf.header_of_bytes (Nat.mod_lt _ (by norm_num)) he ht hv hs hbytes
  simp only [hhdr, Option.some.injEq, exists_eq_left', objectPowIsValid, hsub, hslice, powTrialValue_mod,
    decide_eq_true_eq]
  rfl

theorem length_constant_sha512 (value : ℕ) (_ : Bytes) : (packBe64 value ++ List.replicate 56 0).length = 64 := by
  simp [packBe64]

theorem length_constant_ripemd160 (_ : Bytes) : (List.replicate 20 0 : Bytes).length = 20 :=
  List.length_replicate

/-- A hash function under which every trial has the same value. -/
def constantHashes (value : ℕ) : Hashes where
  sha512 _ := packBe64 value ++ List.replicate 56 0
  ripemd160 _ := List.replicate 20 0
  length_sha512 := length_constant_sha512 value
  length_ripemd160 := length_constant_ripemd160

theorem powTrialValue_constantHashes {value : ℕ} (h : value < wordSize) (nonce : ℕ) (data : Bytes) :
    powTrialValue (constantHashes value) nonce data = value := by
  have htake : (doubleSha512 (constantHashes value) (packBe64 nonce ++ data)).take 8 = packBe64 value := by
    simp only [doubleSha512, constantHashes]
    exact List.take_left' (by simp [packBe64])
  rw [powTrialValue, htake, packBe64, Radix.beNat_beBytes]
  exact Nat.mod_eq_of_lt h

/-- The object is accepted from the submission on, if and only if the miner's target is not above
the receiver's at the submission. -/
theorem accepted_iff_target_le (hheader : HasHeader job.payload expires) (he : expires < wordSize) {submitted : ℤ}
    (h0 : 0 ≤ submitted) (hsubmitted : submitted < 2 ^ 63) :
    job.Accepted submitted ↔ job.target ≤ networkDifficulty.target job.payload.length (ttlLeft expires submitted) := by
  constructor
  · intro h
    have htarget : job.target < wordSize := by
      rw [target, Difficulty.target_eq]
      exact lt_of_le_of_lt (min_le_right _ _) (by norm_num)
    set object := Buf.ofBytes (buildObject job.payload 0) (by
      have := job.length_lt
      simp only [buildObject, List.length_append, packBe64, Radix.length_beBytes]
      omega) with hobject
    have hbytes : object.bytes = buildObject job.payload 0 := Buf.bytes_ofBytes _ _
    have hvalid := h (constantHashes job.target) 0 object submitted
      (by rw [powSolves, powTrialValue_constantHashes htarget, decide_eq_true_eq]) hbytes le_rfl hsubmitted
    rwa [objectPowIsValid_iff hheader he _ hbytes, powTrialValue_constantHashes htarget] at hvalid
  · intro hle H nonce object now hsolves hbytes hlo hhi
    rw [objectPowIsValid_iff hheader he _ hbytes]
    have htrial : powTrialValue H nonce (H.sha512 job.payload) ≤ job.target := of_decide_eq_true hsolves
    have hanti : networkDifficulty.target job.payload.length (ttlLeft expires submitted) ≤
        networkDifficulty.target job.payload.length (ttlLeft expires now) :=
      Difficulty.target_antitone (by decide) le_rfl le_rfl le_rfl (ttlLeft_anti expires h0 hlo hhi)
        (networkDifficulty_fits job.length_lt (ttlLeft_lt he _)) (networkDifficulty_fits job.length_lt (ttlLeft_lt he _))
    exact htrial.trans (hle.trans hanti)

/-- The comparison of the targets, as one of the quotients. -/
theorem target_le_iff {ttl : ℕ} (httl : ttl < wordSize) :
    job.target ≤ networkDifficulty.target job.payload.length ttl ↔
      2 ^ 64 / job.denominator ≤ 2 ^ 64 / networkDifficulty.denominator job.payload.length ttl := by
  have hsmall := networkDifficulty_quotient (networkDifficulty_fits job.length_lt httl)
  rw [target, Difficulty.target_eq, Difficulty.target_eq, denominator]
  omega

/-- Without a wrap, the minimum is enough. -/
theorem denominator_spec (hmin : job.AtLeastMinimum) (hfits : job.Fits) {ttl : ℕ} (httl : ttl < wordSize)
    (hle : ttl ≤ job.ttl) :
    job.denominator ≠ 0 ∧
      2 ^ 64 / job.denominator ≤ 2 ^ 64 / networkDifficulty.denominator job.payload.length ttl := by
  obtain ⟨htrials, hextra⟩ := hmin
  have hpos : 0 < networkDifficulty.nonceTrialsPerByte := by decide
  have hmono : networkDifficulty.work job.payload.length ttl ≤ job.difficulty.work job.payload.length job.ttl :=
    Difficulty.work_mono htrials hextra le_rfl hle
  have hwork : 0 < networkDifficulty.work job.payload.length ttl := Difficulty.work_pos hpos
  rw [denominator, Difficulty.Fits.denominator_eq hfits,
    (networkDifficulty_fits job.length_lt httl).denominator_eq]
  exact ⟨by omega, Nat.div_le_div_left hmono hwork⟩

end MiningJob

theorem MinedObject.job_eq_some {S : SenderCrypto} {P : PqCrypto} {M : Allocator} {seed : Bytes} {now : ℤ}
    {o : MinedObject} {job : MiningJob} (h : o.job S P M seed now = some job) :
    HasHeader job.payload (expiresAt now o.ttl) ∧ job.ttl = o.ttl ∧ job.difficulty = o.difficulty := by
  simp only [MinedObject.job, Option.bind_eq_some_iff] at h
  obtain ⟨payload, hbuild, h⟩ := h
  split at h
  · cases h
    exact ⟨hasHeader_build hbuild, rfl, rfl⟩
  · cases h

/-- An own object that is mined meets the rule of the network if and only if both parameters of
its difficulty are at least the minimum and the denominator of its target, reduced to 128 bits,
is not zero and gives no larger quotient than the receiver's. Where the products fit in 128 bits,
the minimum alone decides. -/
theorem own_object_meets_network_rule (S : SenderCrypto) (P : PqCrypto) (M : Allocator) (seed : Bytes) (o : MinedObject)
    {submitted : ℤ} (h0 : 0 ≤ submitted) (hsubmitted : submitted < 2 ^ 63) {job : MiningJob}
    (hjob : o.job S P M seed submitted = some job) :
    (job.MeetsNetworkRule submitted ↔ job.AtLeastMinimum ∧ job.denominator ≠ 0 ∧
      2 ^ 64 / job.denominator ≤ 2 ^ 64 / networkDifficulty.denominator job.payload.length
        (ttlLeft (expiresAt submitted o.ttl) submitted)) ∧
    (job.Fits → (job.MeetsNetworkRule submitted ↔ job.AtLeastMinimum)) := by
  obtain ⟨hheader, httl, -⟩ := MinedObject.job_eq_some hjob
  have hexpires := expiresAt_lt submitted o.ttl
  have hleft := ttlLeft_lt hexpires submitted
  have hiff : job.MeetsNetworkRule submitted ↔ job.AtLeastMinimum ∧ job.denominator ≠ 0 ∧
      2 ^ 64 / job.denominator ≤ 2 ^ 64 / networkDifficulty.denominator job.payload.length
        (ttlLeft (expiresAt submitted o.ttl) submitted) := by
    rw [MiningJob.MeetsNetworkRule, MiningJob.accepted_iff_target_le hheader hexpires h0 hsubmitted,
      MiningJob.target_le_iff hleft]
  refine ⟨hiff, fun hfits => ⟨fun h => h.1, fun hmin => ?_⟩⟩
  have hle : ttlLeft (expiresAt submitted o.ttl) submitted ≤ job.ttl := by
    rw [httl]
    exact ttlLeft_expiresAt_le h0 hsubmitted o.ttl
  exact hiff.mpr ⟨hmin, MiningJob.denominator_spec hmin hfits hleft hle⟩

/-! ### Two broadcasts -/

/-- The broadcast of an identity, with a lifetime of two days. -/
def broadcastJob (sender : IdentityInfo) : Option MiningJob :=
  (MinedObject.broadcast sender (List.replicate 20 0) greeting greeting 172800).job plainSender plainPqCrypto
    zeroAllocator [] 1000

theorem broadcastJob_greeter_isSome : (broadcastJob greeter).isSome = true := by decide +kernel

/-- An identity with the usual difficulty: its broadcast is accepted. -/
theorem greeter_broadcast_accepted :
    ((broadcastJob greeter).get broadcastJob_greeter_isSome).MeetsNetworkRule 1000 := by
  have hnow : (1000 : ℤ) < 2 ^ 63 := by norm_num
  have h := own_object_meets_network_rule plainSender plainPqCrypto zeroAllocator []
    (.broadcast greeter (List.replicate 20 0) greeting greeting 172800) (by norm_num) hnow
    (Option.some_get broadcastJob_greeter_isSome).symm
  exact h.1.mpr (by decide +kernel)

/-- The identity as `importAddress` stores it when it is given one trial per byte. -/
def easyGreeter : IdentityInfo :=
  { greeter with nonceTrialsPerByte := 1, nonceTrialsPerByte_lt := one_lt_wordSize }

theorem broadcastJob_easyGreeter_isSome : (broadcastJob easyGreeter).isSome = true := by decide +kernel

/-- Its broadcast is mined for a target that receivers do not take. -/
theorem easyGreeter_broadcast_refused :
    easyGreeter.difficulty = Difficulty.imported ⟨1000, 1000⟩ (some 1) none ∧
      ¬ ((broadcastJob easyGreeter).get broadcastJob_easyGreeter_isSome).AtLeastMinimum ∧
      ¬ ((broadcastJob easyGreeter).get broadcastJob_easyGreeter_isSome).Accepted 1000 := by
  have hjob : MinedObject.job plainSender plainPqCrypto zeroAllocator [] 1000
      (.broadcast easyGreeter (List.replicate 20 0) greeting greeting 172800) =
      some ((broadcastJob easyGreeter).get broadcastJob_easyGreeter_isSome) := (Option.some_get _).symm
  obtain ⟨hheader, -, -⟩ := MinedObject.job_eq_some hjob
  refine ⟨rfl, by decide +kernel, ?_⟩
  rw [MiningJob.accepted_iff_target_le hheader (expiresAt_lt _ _) (by decide) (by decide)]
  decide +kernel

end Bitmessage
