import Bitmessage.Core.SendPipeline
import Bitmessage.Pow.QueueInvariants

/-! The threads that send. API threads submit new messages, move messages to the trash
and rename own addresses; the network thread runs the resend checks and matches
received objects with the acknowledgements it waits for; the worker of the job queue
mines and runs the `done` functions, which write the rows and transmit. A thread acts
on the database one statement at a time and on the queue one critical section at a
time, and between any two of these actions every other thread may act. A run of `step`
is one interleaving.

A new message gets a random identifier of 32 bytes; it is taken to differ from all
identifiers used before. -/

namespace Bitmessage

/-- Where the worker is inside a `done` function; `idle` when it is outside or about to return. -/
inductive DonePc where
  | idle
  | called (object : Option Bytes)
  | stored (object : Bytes)

/-- What the network thread is doing: nothing, a resend check with the candidates that it has not
yet submitted, or marking an acknowledgement that it has selected. -/
inductive NetPc where
  | idle
  | resending (now : ℤ) (candidates : List ResendCandidate)
  | marking (ackData : Bytes)

def NetPc.isIdle : NetPc → Bool
  | .idle => true
  | .resending _ _ | .marking _ => false

/-- A message object handed to the network. -/
structure Transmission where
  job : SendMsgJob
  object : Bytes

/-- The state of the threads and of the message database. The last three fields are the history:
the accepted submissions, the sends that have written their row, and what was transmitted. -/
structure SendSys where
  pow : PowSys SendTask
  donePc : DonePc
  net : NetPc
  sent : SentTable
  inbox : List InboxRow
  submissions : List SendMsgJob
  completions : List SendMsgJob
  transmissions : List Transmission

inductive SendLabel where
  /-- an API thread sends a new message -/
  | sendNew (thread : ℕ) (request : SendRequest) (recipient : Option Recipient) (built : Option Bytes)
  /-- the network thread starts a resend check -/
  | listCandidates (now : ℤ)
  /-- and submits the next candidate -/
  | submitCandidate (recipient : Option Recipient) (built : Option Bytes)
  /-- and is through with all of them -/
  | checkReturn
  /-- the network thread receives an object and looks for its hash among the acknowledgements -/
  | arrive (object : Buf) (now : ℤ)
  /-- and marks the one it has found -/
  | markAck
  | trash (msgId : Bytes)
  | rename (oldAddress newAddress : Bytes)
  /-- `ack_pow_done`, with the message it builds -/
  | ackPowDone (payload : Option Bytes)
  /-- `msg_pow_done` up to the row, which may fail to be stored -/
  | msgPowDone (stored : Bool) (now : ℤ)
  /-- the rest of `msg_pow_done` -/
  | sendDone
  /-- `done` without an object, or the `done` of another kind of job -/
  | otherDone
  /-- the queue's own actions and the submissions of other kinds of jobs -/
  | pow (l : PowLabel SendTask)

/-- What the network thread does next with a received object: it looks up the hash of an object that
passes the checks. -/
def matchAck (H : Hashes) (sent : SentTable) (object : Buf) (now : ℤ) : NetPc :=
  match objectAccept H object now, messagesStoreSelectAck H sent (inventoryHash H object.bytes) with
  | some _, some ackData => .marking ackData
  | _, _ => .idle

namespace SendSys

variable (H : Hashes)

def init (maxPending : ℕ) (h : maxPending < wordSize) : SendSys :=
  ⟨PowSys.init maxPending h, .idle, .idle, .empty, [], [], [], []⟩

/-- The job of a send that the queue accepts. -/
def accepted? (s : SendSys) (thread : ℕ) (request : SendRequest) (recipient : Option Recipient)
    (built : Option Bytes) : Option (SendMsgJob × PowSys SendTask) :=
  (sendMessageAsync request recipient built (s.sent.find? request.msgId)).bind fun r =>
    (s.pow.submit (.other thread) r.2).bind fun pow => if pow.lastRc = 0 then some (r.1, pow) else none

/-- `bm_send_pipeline_send_message_async` on the calling thread. A refusal changes nothing. -/
def send (s : SendSys) (thread : ℕ) (request : SendRequest) (recipient : Option Recipient) (built : Option Bytes) :
    SendSys :=
  match s.accepted? thread request recipient built with
  | some (job, pow) => { s with pow := pow, submissions := s.submissions ++ [job] }
  | none => s

/-- The request of an API thread. -/
def newRequest (request : SendRequest) : SendRequest :=
  { request with nextResendTime := request.now + resendInitialInterval }

/-- The task of the job whose `done` is running. -/
def task? (s : SendSys) : Option SendTask :=
  match s.pow.worker with
  | .inDone j => some j.userData.data
  | _ => none

/-- The second stage is submitted from inside the `done` of the first, with the same key. -/
def submitMsg (s : SendSys) (job : SendMsgJob) (payload : Bytes) : Option (PowSys SendTask) :=
  s.pow.submit .worker (job.msgArgs payload)

/-- The actions of the queue. The queue is also used for other objects, whose keys never start
with the `'S'` of messages; `done` has to return before the worker finishes a job. -/
def powStep (s : SendSys) : PowLabel SendTask → Option SendSys
  | .submit (.other n) a =>
    match a.userData with
    | .other =>
      if (a.key.getD []).head? = some 0x53 then none
      else (s.pow.submit (.other n) a).map fun pow => { s with pow := pow }
    | _ => none
  | .submit .worker _ => none
  | .mined nonce =>
    match s.pow.worker with
    | .mining j =>
      (s.pow.mined (powSolves H) nonce).map fun pow =>
        { s with pow := pow, donePc := .called (some (buildObject j.payload nonce)) }
    | _ => none
  | .cancelled => s.pow.cancelled.map fun pow => { s with pow := pow, donePc := .called none }
  | .finish =>
    match s.donePc with
    | .idle => s.pow.finish.map fun pow => { s with pow := pow }
    | _ => none
  | .take => s.pow.take.map fun pow => { s with pow := pow }
  | .exit => s.pow.exit.map fun pow => { s with pow := pow }
  | .shutdown => some { s with pow := s.pow.shutdown }
  | .join => s.pow.join.map fun pow => { s with pow := pow }
  | .discard => s.pow.discard.map fun pow => { s with pow := pow }
  | .shutdownReturn => s.pow.shutdownReturn.map fun pow => { s with pow := pow }

/-- One action of one thread. -/
def step (s : SendSys) : SendLabel → Option SendSys
  | .sendNew thread request recipient built =>
    if request.msgId.length = 32 ∧ request.msgId ∉ s.submissions.map fun job => job.msgId then
      some (s.send (thread + 1) (newRequest request) recipient built)
    else none
  | .listCandidates now =>
    match s.net with
    | .idle => some { s with
        net := .resending now (messagesStoreListResendCandidates s.sent now resendMaxAttempts) }
    | _ => none
  | .submitCandidate recipient built =>
    match s.net with
    | .resending now (c :: cs) =>
      some { s.send 0 (c.request now) recipient built with net := .resending now cs }
    | _ => none
  | .checkReturn =>
    match s.net with
    | .resending _ [] => some { s with net := .idle }
    | _ => none
  | .arrive object now =>
    match s.net with
    | .idle => some { s with net := matchAck H s.sent object now }
    | _ => none
  | .markAck =>
    match s.net with
    | .marking ackData => some { s with net := .idle, sent := messagesStoreUpdateAck s.sent ackData }
    | _ => none
  | .trash msgId => some { s with sent := messagesStoreTrashSentMessage s.sent msgId }
  | .rename oldAddress newAddress =>
    some { s with sent := messagesStoreRenameOwnAddress s.sent oldAddress newAddress }
  | .ackPowDone payload =>
    match s.donePc, s.task?, payload with
    | .called (some object), some (.ack job), some payload =>
      (s.submitMsg { job with ackData := some object } payload).map fun pow =>
        { s with pow := pow, donePc := .idle }
    | .called (some _), some (.ack _), none => some { s with donePc := .idle }
    | _, _, _ => none
  | .msgPowDone stored now =>
    match s.donePc, s.task? with
    | .called (some object), some (.msg job) =>
      if stored then
        some { s with
          donePc := .stored object
          sent := messagesStoreInsertSent s.sent (job.sentRow now)
          inbox := if job.isSelf then
              messagesStoreInsertInbox s.inbox ⟨inventoryHash H object, job.toAddress, job.fromAddress, job.subject,
                job.body, now⟩
            else s.inbox
          completions := s.completions ++ [job] }
      else some { s with donePc := .idle }
    | _, _ => none
  | .sendDone =>
    match s.donePc, s.task? with
    | .stored object, some (.msg job) =>
      some { s with donePc := .idle, transmissions := s.transmissions ++ [⟨job, object⟩] }
    | _, _ => none
  | .otherDone =>
    match s.donePc, s.task? with
    | .called none, _ | .called _, some .other => some { s with donePc := .idle }
    | _, _ => none
  | .pow l => s.powStep H l

/-- The send whose row the step writes. -/
def completing (s : SendSys) : SendLabel → Option SendMsgJob
  | .msgPowDone true _ =>
    match s.donePc, s.task? with
    | .called (some _), some (.msg job) => some job
    | _, _ => none
  | _ => none

/-- The resend that the step submits and the queue accepts, with its candidate. -/
def resending (s : SendSys) : SendLabel → Option (ResendCandidate × SendMsgJob)
  | .submitCandidate recipient built =>
    match s.net with
    | .resending now (c :: _) => (s.accepted? 0 (c.request now) recipient built).map fun r => (c, r.1)
    | _ => none
  | _ => none

end SendSys

end Bitmessage
