import Bitmessage.Core.MessagesStore
import Bitmessage.Infra.ObjectChecks
import Bitmessage.Pow.QueueSystem

/-! Sending a message. The preparation looks up the keys; then the acknowledgement and
the message go through the job queue one after the other under one key, and the row of
the message is written when the second stage is done. A message to an own address has
no acknowledgement and only the second stage. Keys, random bytes and the encrypted
message come from outside: a send is given what they produce. -/

namespace Bitmessage

/-- What the preparation knows about the recipient. -/
structure Recipient where
  isSelf : Bool
  toStream : ℕ
  requiredNonceTrials : ℕ
  requiredExtraBytes : ℕ
  toStream_lt : toStream < wordSize

/-- The arguments of `bm_send_pipeline_send_message_async`, with the identifier it settles on. -/
structure SendRequest where
  fromAddress : Bytes
  toAddress : Bytes
  subject : Bytes
  body : Bytes
  ttlSeconds : ℕ
  ackStealthLevel : ℤ
  msgId : Bytes
  nextResendTime : ℤ
  now : ℤ

/-- `struct send_msg_job` without its keys, and for the record the row that the message had when
it was submitted. -/
structure SendMsgJob extends SendRequest, Recipient where
  ackData : Option Bytes
  row : Option SentRow

/-- `expires_time`. -/
def SendRequest.expiresTime (r : SendRequest) : ℕ := addW (ofInt64 r.now) r.ttlSeconds

/-- What a job of the queue is for, and which `done` function it has. -/
inductive SendTask where
  | ack (job : SendMsgJob)
  | msg (job : SendMsgJob)
  | other

def SendTask.job? : SendTask → Option SendMsgJob
  | .ack job | .msg job => some job
  | .other => none

/-- The key of a message in the queue: `'S'` and its identifier. -/
def sendKey (msgId : Bytes) : Bytes := 0x53 :: msgId

/-- `bm_build_ack_object` around its random part. -/
def buildAckObject (stealthLevel : ℤ) (stream : ℕ) (data : Bytes) : Bytes :=
  if stealthLevel = 1 then
    Radix.beBytes 4 objectGetpubkey ++ (varintEncode 4 ++ (varintEncode stream ++ data))
  else Radix.beBytes 4 objectMsg ++ (varintEncode 1 ++ (varintEncode stream ++ data))

/-- The random part: a dummy message of at most 800 bytes, encrypted, on level 2, else 32 bytes. -/
def ackRandomPart (stealthLevel : ℤ) (data : Bytes) : Bool :=
  if stealthLevel = 2 then decide (data.length ≤ 934) else decide (data.length = 32)

/-- `build_ack_payload`. -/
def buildAckPayload (job : SendMsgJob) (data : Bytes) : Bytes :=
  packBe64 job.expiresTime ++ buildAckObject job.ackStealthLevel job.toStream data

/-- `BM_ACK_NONCE_TRIALS_PER_BYTE` and `BM_ACK_PAYLOAD_LENGTH_EXTRA_BYTES`. -/
def ackNonceTrialsPerByte : ℕ := 1000
def ackPayloadLengthExtraBytes : ℕ := 1000

/-- The first stage. -/
def SendMsgJob.ackArgs (job : SendMsgJob) (data : Bytes) : SubmitArgs SendTask where
  payload := buildAckPayload job data
  target := powGetTarget (buildAckPayload job data).length job.ttlSeconds ackNonceTrialsPerByte
    ackPayloadLengthExtraBytes
  key := some (sendKey job.msgId)
  userData := .ack job

/-- The second stage, for a message that has been built. -/
def SendMsgJob.msgArgs (job : SendMsgJob) (payload : Bytes) : SubmitArgs SendTask where
  payload := payload
  target := powGetTarget payload.length job.ttlSeconds job.requiredNonceTrials job.requiredExtraBytes
  key := some (sendKey job.msgId)
  userData := .msg job

/-- The job of a request. -/
def SendRequest.job (request : SendRequest) (recipient : Recipient) (row : Option SentRow) : SendMsgJob :=
  { request, recipient with ackData := none, row := row }

/-- `bm_send_pipeline_send_message_async` up to its submission: the job and what it submits.
`recipient` is missing when the preparation fails; `built` is the message for an own address and
the random part of the acknowledgement otherwise, and missing when it cannot be made. -/
def sendMessageAsync (request : SendRequest) (recipient : Option Recipient) (built : Option Bytes)
    (row : Option SentRow) : Option (SendMsgJob × SubmitArgs SendTask) :=
  recipient.bind fun r => built.bind fun data =>
    let job := request.job r row
    if r.isSelf then some (job, job.msgArgs data)
    else if ackRandomPart request.ackStealthLevel data then some (job, job.ackArgs data)
    else none

/-- The row that `msg_pow_done` writes. -/
def SendMsgJob.sentRow (job : SendMsgJob) (now : ℤ) : SentRow where
  msgId := job.msgId
  ackData := job.ackData.getD []
  toAddress := job.toAddress
  fromAddress := job.fromAddress
  subject := job.subject
  body := job.body
  status := if job.isSelf then .msgsentnoackexpected else .sent
  ackStealthLevel := job.ackStealthLevel
  sentTime := now
  ttl := toInt64 job.ttlSeconds
  resendCount := 0
  nextResendTime := job.nextResendTime
  folder := .sent

/-- The request of `bm_object_sync_check_resends` for a candidate. -/
def ResendCandidate.request (c : ResendCandidate) (now : ℤ) : SendRequest where
  fromAddress := c.fromAddress
  toAddress := c.toAddress
  subject := c.subject
  body := c.body
  ttlSeconds := ofInt64 c.ttl
  ackStealthLevel := c.ackStealthLevel
  msgId := c.msgId
  nextResendTime := now + resendInitialInterval * 2 ^ (c.resendCount + 1)
  now := now

theorem ResendCandidate.now_le (c : ResendCandidate) (now : ℤ) : (c.request now).now ≤ (c.request now).nextResendTime := by
  have : (0 : ℤ) ≤ resendInitialInterval * 2 ^ (c.resendCount + 1) := by
    unfold resendInitialInterval
    positivity
  change now ≤ now + _
  omega

/-- What a send submits is one of the two stages of its job. -/
theorem sendMessageAsync_eq_some {request : SendRequest} {recipient : Option Recipient} {built : Option Bytes}
    {row : Option SentRow} {job : SendMsgJob} {args : SubmitArgs SendTask}
    (h : sendMessageAsync request recipient built row = some (job, args)) :
    job.toSendRequest = request ∧ job.ackData = none ∧ job.row = row ∧
      ((job.isSelf = true ∧ ∃ payload, args = job.msgArgs payload) ∨
        (job.isSelf = false ∧ ∃ data, ackRandomPart job.ackStealthLevel data = true ∧ args = job.ackArgs data)) := by
  simp only [sendMessageAsync, Option.bind_eq_some_iff] at h
  obtain ⟨r, -, data, -, h⟩ := h
  split at h
  · next hself =>
    cases h
    exact ⟨rfl, rfl, rfl, .inl ⟨hself, data, rfl⟩⟩
  · next hself =>
    split at h
    · next hrandom =>
      cases h
      exact ⟨rfl, rfl, rfl, .inr ⟨Bool.eq_false_iff.mpr hself, data, hrandom, rfl⟩⟩
    · cases h

/-! ### A mined acknowledgement -/

/-- `ack` is an acknowledgement object of the job with a nonce that the queue has found. -/
def MinedAck (H : Hashes) (job : SendMsgJob) (ack : Bytes) : Prop :=
  ∃ data nonce, ackRandomPart job.ackStealthLevel data = true ∧ ack = buildObject (buildAckPayload job data) nonce ∧
    powSolves H (job.ackArgs data).payload (job.ackArgs data).target nonce = true

theorem MinedAck.ne_nil {H : Hashes} {job : SendMsgJob} {ack : Bytes} (h : MinedAck H job ack) : ack ≠ [] := by
  obtain ⟨data, nonce, -, rfl, -⟩ := h
  intro he
  have := congrArg List.length he
  simp [buildObject, packBe64] at this

theorem length_buildAckObject {level : ℤ} (stream : ℕ) {data : Bytes} (h : ackRandomPart level data = true) :
    (buildAckObject level stream data).length ≤ 1000 := by
  have hs := varintSize_le stream
  have hd : data.length ≤ 934 := by
    unfold ackRandomPart at h
    split at h <;> simp only [decide_eq_true_eq] at h <;> omega
  unfold buildAckObject
  split <;> simp only [List.length_append, Radix.length_beBytes, length_varintEncode] <;>
    norm_num [varintSize] <;> split_ifs <;> omega

theorem packBe64_mod (v : ℕ) : packBe64 (v % wordSize) = packBe64 v := Radix.beBytes_mod (k := 8) le_rfl v

/-- The lifetime of a request, when the clock is sane and the expiry is a signed number. -/
theorem SendRequest.expiresTime_eq {r : SendRequest} (h0 : 0 ≤ r.now) (h : r.now + r.ttlSeconds < 2 ^ 63) :
    (r.expiresTime : ℤ) = r.now + r.ttlSeconds := by
  have hnow : ofInt64 r.now = r.now.toNat := by
    rw [ofInt64, Int.emod_eq_of_lt h0 (by omega)]
  unfold SendRequest.expiresTime addW wordSize
  rw [hnow]
  omega

/-- A nonce and its rest modulo the word size give the same trial value. -/
theorem powTrialValue_mod (H : Hashes) (nonce : ℕ) (data : Bytes) :
    powTrialValue H (nonce % wordSize) data = powTrialValue H nonce data := by
  rw [powTrialValue, packBe64_mod, powTrialValue]

/-- A receiver finds the payload behind the nonce of an object. -/
theorem payload_of_buildObject {object : Buf} {payload : Bytes} {nonce : ℕ}
    (hobject : object.bytes = buildObject payload nonce) :
    object.size = 8 + payload.length ∧ subW object.size 8 = payload.length ∧
      object.slice 8 payload.length = payload := by
  have hlt := object.size_lt
  have hsize : object.size = 8 + payload.length := by
    rw [← object.length_bytes, hobject, buildObject, List.length_append, packBe64, Radix.length_beBytes]
  have hsub : subW object.size 8 = object.size - 8 := subW_of_le (by unfold wordSize; omega) (by omega)
  have hslice := Buf.slice_of_bytes (b := object) (packBe64 nonce) payload []
    (by rw [hobject, List.append_nil, buildObject])
  exact ⟨hsize, by omega, by simpa only [packBe64, Radix.length_beBytes] using hslice⟩

/-- While it has not expired for longer than the grace period, and the clock has not gone back
behind the submission, a mined acknowledgement passes the checks for received objects. -/
theorem MinedAck.accepted {H : Hashes} {job : SendMsgJob} {ack : Bytes} (h : MinedAck H job ack)
    (h0 : 0 ≤ job.now) (hexp : job.now + job.ttlSeconds < 2 ^ 63) {object : Buf} (hobject : object.bytes = ack)
    {now : ℤ} (hlo : job.now ≤ now) (hhi : now ≤ job.now + job.ttlSeconds + objectExpireGracePeriod) :
    (objectAccept H object now).isSome = true := by
  obtain ⟨data, nonce, hrandom, rfl, hsolves⟩ := h
  have hexpires := SendRequest.expiresTime_eq (r := job.toSendRequest) h0 hexp
  unfold objectExpireGracePeriod at hhi
  set payload := buildAckPayload job data with hpayload
  have hlen : payload.length ≤ 1008 := by
    have := length_buildAckObject job.toStream hrandom
    simp only [hpayload, buildAckPayload, List.length_append, packBe64, Radix.length_beBytes]
    omega
  obtain ⟨hsize, hsub, hslice⟩ := payload_of_buildObject hobject
  obtain ⟨type, version, htype, hversion, hbytes⟩ : ∃ type version, type < 2 ^ 32 ∧ version < wordSize ∧
      object.bytes = packBe64 (nonce % wordSize) ++ (packBe64 job.expiresTime ++ (Radix.beBytes 4 type ++
        (varintEncode version ++ (varintEncode job.toStream ++ data)))) := by
    rw [packBe64_mod, hobject, hpayload, buildObject, buildAckPayload, buildAckObject]
    split
    · exact ⟨objectGetpubkey, 4, by decide, by decide, rfl⟩
    · exact ⟨objectMsg, 1, by decide, by decide, rfl⟩
  have hheader := Buf.header_of_bytes (Nat.mod_lt _ (by norm_num)) (by unfold wordSize; omega) htype hversion
    job.toStream_lt hbytes
  have hnow : ofInt64 now = now.toNat := by rw [ofInt64, Int.emod_eq_of_lt (by omega) (by omega)]
  set hdr : ObjectHeader := ⟨nonce % wordSize, job.expiresTime, type, version, job.toStream,
    20 + varintSize version + varintSize job.toStream⟩ with hhdr
  have hvalid : objectPowIsValid H object hdr now = true := by
    -- less of the lifetime is left than was paid for
    have httl : remainingTtl hdr now ≤ job.ttlSeconds := by
      simp only [remainingTtl, hhdr, hnow]
      split <;> omega
    have httl63 : job.ttlSeconds < 2 ^ 63 := by omega
    have hprod : job.ttlSeconds * (payload.length + 8 + 1000) < 2 ^ 63 * 2 ^ 20 :=
      Nat.mul_lt_mul_of_lt_of_le httl63 (by omega) (by norm_num)
    have hanti := powGetTarget_antitone_ttl payload.length 1000 1000 httl
      (lt_trans hprod (by norm_num)) (by unfold doubleWordSize; omega) (by norm_num)
    rw [objectPowIsValid, hsub, hslice, decide_eq_true_eq, powTrialValue_mod]
    exact le_trans (of_decide_eq_true hsolves) hanti
  have hfresh : ¬ toInt64 job.expiresTime < now - objectExpireGracePeriod := by
    unfold toInt64 objectExpireGracePeriod
    rw [Nat.mod_eq_of_lt (by unfold wordSize; omega), if_pos (by omega)]
    omega
  rw [objectAccept, if_neg (by unfold maxObjectPayloadSize; omega), objectCheck, hheader, Option.bind_some,
    if_neg hfresh, if_pos hvalid]
  rfl

end Bitmessage
