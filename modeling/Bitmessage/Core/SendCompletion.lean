import Bitmessage.Core.SendPipeline
import Bitmessage.Pow.QueueProgress

/-! The calls of the send pipeline and their completions.
`bm_send_pipeline_send_message_async` and `bm_send_pipeline_send_broadcast_async` hand
the first stage of a send to the job queue or, when there is none, mine it on the
calling thread. The `done` functions of the stages run on the worker of the queue, on
the thread that shuts it down, or on the calling thread; they build and submit the
second stage, write the row of the message and call the `done` of the send. Other
threads may act whenever such a function enters the queue or the database, so each of
them is several steps here. A run of `step` is one interleaving.

An allocation may fail wherever the source checks for it. Keys, random bytes and the
encrypted payloads come from outside, for both generations of addresses. The calls are
numbered, and the log records in which order they return, write and complete. -/

namespace Bitmessage

/-- A job of the pipeline: the call it belongs to and what its stage is. A task that is neither an
acknowledgement nor a message is a broadcast. -/
structure StageJob where
  call : ℕ
  task : SendTask

/-- The threads that run `done` functions. -/
inductive Runner where
  | worker
  | shutdown
  | caller (call : ℕ)
  deriving DecidableEq

/-- Where such a thread is. -/
inductive StagePc where
  | idle
  /-- in `bm_pow_run`, for want of a queue -/
  | mining (job : StageJob) (payload : Bytes) (target : ℕ)
  /-- in the `done` function of the stage, which has an object -/
  | called (job : StageJob) (object : Bytes)
  /-- about to call the `done` of the send with an error -/
  | failing (job : StageJob)
  /-- the row is written, about to call the `done` of the send with the object -/
  | stored (job : StageJob) (object : Bytes)
  /-- the `done` of the send has been called, about to return from the send -/
  | returning

def StagePc.job? : StagePc → Option StageJob
  | .mining job _ _ | .called job _ | .failing job | .stored job _ => some job
  | .idle | .returning => none

/-- Whether the thread is in the pipeline. -/
def StagePc.active : StagePc → ℕ
  | .idle => 0
  | _ => 1

/-- A call returns, writes the row of its message, or has its `done` called. -/
inductive SendEvent where
  | returned (call : ℕ) (rc : ℤ)
  | wrote (call : ℕ) (row : SentRow)
  | done (call : ℕ) (rc : ℤ) (object : Option Bytes)

/-- What the target of a broadcast depends on. -/
structure BroadcastRequest where
  ttlSeconds : ℕ
  nonceTrialsPerByte : ℕ
  payloadLengthExtraBytes : ℕ

/-- `bm_send_pipeline_send_broadcast_async` up to its submission. `built` is the payload, missing
when it cannot be made. -/
def sendBroadcastAsync (request : BroadcastRequest) (built : Option Bytes) : Option (SubmitArgs SendTask) :=
  built.map fun payload =>
    { payload := payload
      target := powGetTarget payload.length request.ttlSeconds request.nonceTrialsPerByte
        request.payloadLengthExtraBytes
      key := none
      userData := .other }

/-- A call of one of the two functions, with what the preparation and the builders make of it. -/
inductive PipelineCall where
  | message (request : SendRequest) (recipient : Option Recipient) (built : Option Bytes)
  | broadcast (request : BroadcastRequest) (built : Option Bytes)

/-- What the call submits first. -/
def PipelineCall.prepared (sent : SentTable) : PipelineCall → Option (SubmitArgs SendTask)
  | .message request recipient built =>
    (sendMessageAsync request recipient built (sent.find? request.msgId)).map Prod.snd
  | .broadcast request built => sendBroadcastAsync request built

/-- The request of a message. -/
def PipelineCall.request? : PipelineCall → Option SendRequest
  | .message request _ _ => some request
  | .broadcast _ _ => none

/-- The submission with the call as its user data. -/
def SubmitArgs.ofCall (a : SubmitArgs SendTask) (call : ℕ) : SubmitArgs (Option StageJob) :=
  ⟨a.payload, a.target, a.key, some ⟨call, a.userData⟩⟩

/-- `bm_pow_queue_submit` and its answer, where the allocation of the job may fail. -/
def PowSys.submitOr {U : Type*} (pow : PowSys U) (thread : Thread) (a : SubmitArgs U) (allocated : Bool) :
    Option (ℤ × PowSys U) :=
  (pow.submit thread a).map fun q => if q.lastRc = 0 ∧ allocated = false then (-1, pow) else (q.lastRc, q)

/-- The job whose `done` function the action enters. -/
def PowSys.entering {U : Type*} (pow : PowSys U) : PowLabel U → Option (Runner × PowJob (Ticket U))
  | .mined _ | .cancelled =>
    match pow.worker with
    | .mining j => some (.worker, j)
    | _ => none
  | .discard =>
    match pow.shutdownPc with
    | .discarding (j :: _) => some (.shutdown, j)
    | _ => none
  | _ => none

/-- The object that the `done` function is given; the allocation of `build_object` may fail. -/
def PowLabel.object {U : Type*} (l : PowLabel U) (payload : Bytes) (allocated : Bool) : Option Bytes :=
  match l with
  | .mined nonce => if allocated then some (buildObject payload nonce) else none
  | _ => none

/-- The steps of the `done` functions. -/
inductive DoneAction where
  /-- `ack_pow_done`, with the message it builds -/
  | ackPowDone (payload : Option Bytes) (allocated : Bool)
  /-- `msg_pow_done` up to the row, which may fail to be stored -/
  | msgPowDone (stored : Bool) (now : ℤ)
  /-- the `done` of the send, called from `msg_job_fail`, `msg_pow_done` or `broadcast_pow_done` -/
  | callDone

inductive PipelineLabel where
  /-- a thread calls the pipeline, with or without a queue -/
  | call (thread : Thread) (queued : Bool) (c : PipelineCall) (allocated : Bool)
  /-- the search on a calling thread has found a nonce -/
  | callerMined (call nonce : ℕ) (allocated : Bool)
  /-- a send without a queue returns -/
  | callerReturn (call : ℕ)
  | done (r : Runner) (a : DoneAction)
  /-- the queue's own actions, and the submissions of other kinds of jobs -/
  | pow (l : PowLabel (Option StageJob)) (allocated : Bool)
  /-- other threads change the database -/
  | database (sent : SentTable) (inbox : List InboxRow)

structure PipelineSys where
  pow : PowSys (Option StageJob)
  pcs : Runner → StagePc
  sent : SentTable
  inbox : List InboxRow
  /-- for each call its request, if it sends a message -/
  calls : List (Option SendRequest)
  log : List SendEvent

/-- The actions of the worker and of the thread that shuts the queue down. -/
def PipelineLabel.isSystem : PipelineLabel → Bool
  | .done (.caller _) _ => false
  | .done _ _ => true
  | .pow l _ => l.isSystem
  | _ => false

namespace PowSys

variable {U : Type*} {solves : Bytes → ℕ → ℕ → Bool} {p q : PowSys U}

theorem submitOr_eq_some {thread : Thread} {a : SubmitArgs U} {allocated : Bool} {rc : ℤ}
    (h : p.submitOr thread a allocated = some (rc, q)) :
    (rc ≠ 0 ∧ q = p) ∨ (p.submit thread a = some q ∧ rc = q.lastRc) := by
  obtain ⟨u, hu, he⟩ := Option.map_eq_some_iff.mp h
  split at he
  · cases he
    exact .inl ⟨by decide, rfl⟩
  · cases he
    exact .inr ⟨hu, rfl⟩

/-- A submission adds its job to those that are left, or changes nothing. -/
theorem submitOr_cases {thread : Thread} {a : SubmitArgs U} {allocated : Bool} {rc : ℤ} (inv : Inv solves p)
    (h : p.submitOr thread a allocated = some (rc, q)) :
    Inv solves q ∧ q.worker = p.worker ∧ q.shutdownPc = p.shutdownPc ∧
      ((rc ≠ 0 ∧ q.undoneJobs = p.undoneJobs) ∨
        (rc = 0 ∧ ∃ j, j.userData.data = a.userData ∧ q.undoneJobs = p.undoneJobs ++ [j])) := by
  rcases submitOr_eq_some h with ⟨hrc, rfl⟩ | ⟨hsub, rfl⟩
  · exact ⟨inv, rfl, rfl, .inl ⟨hrc, rfl⟩⟩
  · refine ⟨inv.submit hsub, ?_⟩
    rcases submit_cases hsub with ⟨rc, hrc, rfl⟩ | ⟨j, -, -, -, -, hdata, -, hsh, -, -, rfl⟩
    · exact ⟨rfl, rfl, .inl ⟨by simpa [lastRc] using hrc, rfl⟩⟩
    · refine ⟨rfl, rfl, .inr ⟨by simp [lastRc], j, hdata, ?_⟩⟩
      simp [undoneJobs, waitingJobs, inv.shutdown_rest hsh]

/-- Apart from submissions, the jobs that are left lose the one whose `done` is called. -/
theorem undoneJobs_step {l : PowLabel U} (inv : Inv solves p) (h : step solves p l = some q)
    (hl : ∀ thread a, l ≠ .submit thread a) :
    p.undoneJobs = ((p.entering l).map Prod.snd).toList ++ q.undoneJobs := by
  cases l with
  | submit thread a => exact absurd rfl (hl thread a)
  | take =>
    obtain ⟨j, jobs, hw, hsh, hjobs, rfl⟩ := take_cases h
    simp [entering, undoneJobs, waitingJobs, hw, WorkerPc.undone, hjobs, inv.shutdown_rest hsh]
  | mined nonce =>
    obtain ⟨j, hw, -, rfl⟩ := mined_cases h
    simp [entering, undoneJobs, waitingJobs, hw, WorkerPc.undone]
  | cancelled =>
    obtain ⟨j, hw, -, rfl⟩ := cancelled_cases h
    simp [entering, undoneJobs, waitingJobs, hw, WorkerPc.undone]
  | finish =>
    obtain ⟨j, hw, rfl⟩ := finish_cases h
    simp [entering, undoneJobs, waitingJobs, hw, WorkerPc.undone, powQueueFinish]
  | exit =>
    obtain ⟨hw, -, rfl⟩ := exit_cases h
    simp [entering, undoneJobs, waitingJobs, hw, WorkerPc.undone]
  | shutdown =>
    cases h
    rcases shutdown_cases p with ⟨he, -⟩ | ⟨hsh, he⟩
    · simp [entering, he]
    · rw [undoneJobs, inv.waitingJobs_eq hsh, he]
      simp [entering, undoneJobs, waitingJobs, ShutdownPc.rest]
  | join =>
    obtain ⟨l, hl, -, rfl⟩ := join_cases h
    simp [entering, undoneJobs, waitingJobs, hl, ShutdownPc.rest]
  | discard =>
    obtain ⟨j, l, hl, rfl⟩ := discard_cases h
    have hw : p.worker = .exited := inv.joined_exited (by rw [hl]; rfl)
    simp [entering, undoneJobs, waitingJobs, hl, ShutdownPc.rest, hw, WorkerPc.undone,
      inv.shutdown_jobs (inv.exited_shutdown hw)]
  | shutdownReturn =>
    obtain ⟨hl, rfl⟩ := shutdownReturn_cases h
    simp [entering, undoneJobs, waitingJobs, hl, ShutdownPc.rest]

end PowSys

namespace PipelineSys

variable (H : Hashes)

def init (maxPending : ℕ) (h : maxPending < wordSize) : PipelineSys :=
  ⟨PowSys.init maxPending h, fun _ => .idle, .empty, [], [], []⟩

def record (s : PipelineSys) (e : SendEvent) : PipelineSys := { s with log := s.log ++ [e] }

def goto (s : PipelineSys) (r : Runner) (pc : StagePc) : PipelineSys :=
  { s with pcs := Function.update s.pcs r pc }

def setPow (s : PipelineSys) (pow : PowSys (Option StageJob)) : PipelineSys := { s with pow := pow }

/-- The next call. -/
def opened (s : PipelineSys) (c : PipelineCall) : PipelineSys := { s with calls := s.calls ++ [c.request?] }

/-- `bm_send_pipeline_send_message_async` or `bm_send_pipeline_send_broadcast_async` on the calling
thread, up to its return or, without a queue, up to `bm_pow_run`. -/
def call (s : PipelineSys) (thread : Thread) (queued : Bool) (c : PipelineCall) (allocated : Bool) :
    Option PipelineSys :=
  match c.prepared s.sent with
  | none => some ((s.opened c).record (.returned s.calls.length (-1)))
  | some a =>
    if queued then
      (s.pow.submitOr thread (a.ofCall s.calls.length) allocated).map fun r =>
        ((s.opened c).setPow r.2).record (.returned s.calls.length r.1)
    else some ((s.opened c).goto (.caller s.calls.length) (.mining ⟨s.calls.length, a.userData⟩ a.payload a.target))

/-- A `done` function is entered, with an object or without. -/
def enter (s : PipelineSys) (r : Runner) (job : StageJob) : Option Bytes → PipelineSys
  | some object => s.goto r (.called job object)
  | none => s.goto r (.failing job)

def callerMined (s : PipelineSys) (call nonce : ℕ) (allocated : Bool) : Option PipelineSys :=
  match s.pcs (.caller call) with
  | .mining job payload target =>
    if powSolves H payload target nonce then
      some (s.enter (.caller call) job (if allocated then some (buildObject payload nonce) else none))
    else none
  | _ => none

def callerReturn (s : PipelineSys) (call : ℕ) : Option PipelineSys :=
  match s.pcs (.caller call) with
  | .returning => some ((s.goto (.caller call) .idle).record (.returned call 0))
  | _ => none

/-- The end of `build_and_submit_msg`: a refusal is delivered through `done`. -/
def submitMsg (s : PipelineSys) (r : Runner) (call : ℕ) (job : SendMsgJob) (payload : Bytes) (allocated : Bool) :
    Option PipelineSys :=
  match r with
  | .worker =>
    (s.pow.submitOr .worker ((job.msgArgs payload).ofCall call) allocated).map fun q =>
      (s.setPow q.2).goto .worker (if q.1 = 0 then .idle else .failing ⟨call, .msg job⟩)
  | .caller _ => some (s.goto r (.mining ⟨call, .msg job⟩ payload (job.msgArgs payload).target))
  | .shutdown => none

/-- Where the thread is after the `done` of a send. -/
def afterDone : Runner → StagePc
  | .caller _ => .returning
  | _ => .idle

def doneStep (s : PipelineSys) (r : Runner) : DoneAction → Option PipelineSys
  | .ackPowDone payload allocated =>
    match s.pcs r, payload with
    | .called ⟨call, .ack job⟩ object, some payload =>
      s.submitMsg r call { job with ackData := some object } payload allocated
    | .called ⟨call, .ack job⟩ _, none => some (s.goto r (.failing ⟨call, .ack job⟩))
    | _, _ => none
  | .msgPowDone stored now =>
    match s.pcs r with
    | .called ⟨call, .msg job⟩ object =>
      if stored then
        some ({ s with
          sent := messagesStoreInsertSent s.sent (job.sentRow now)
          inbox := if job.isSelf then
              messagesStoreInsertInbox s.inbox ⟨inventoryHash H object, job.toAddress, job.fromAddress, job.subject,
                job.body, now⟩
            else s.inbox }.record (.wrote call (job.sentRow now)) |>.goto r (.stored ⟨call, .msg job⟩ object))
      else some (s.goto r (.failing ⟨call, .msg job⟩))
    | _ => none
  | .callDone =>
    match s.pcs r with
    | .failing job => some ((s.record (.done job.call (-1) none)).goto r (afterDone r))
    | .stored job object => some ((s.record (.done job.call 0 (some object))).goto r (afterDone r))
    | .called ⟨call, .other⟩ object => some ((s.record (.done call 0 (some object))).goto r (afterDone r))
    | _ => none

/-- The other users of the queue have jobs of their own; a `done` function has to return before its
thread goes on. -/
def allowed (s : PipelineSys) : PowLabel (Option StageJob) → Bool
  | .submit _ a => a.userData.isNone
  | .finish => (s.pcs .worker).job?.isNone
  | .discard | .shutdownReturn => (s.pcs .shutdown).job?.isNone
  | _ => true

def powStep (s : PipelineSys) (l : PowLabel (Option StageJob)) (allocated : Bool) : Option PipelineSys :=
  if s.allowed l then
    (PowSys.step (powSolves H) s.pow l).map fun pow =>
      match s.pow.entering l with
      | some (r, j) =>
        match j.userData.data with
        | some job => (s.setPow pow).enter r job (l.object j.payload allocated)
        | none => s.setPow pow
      | none => s.setPow pow
  else none

/-- One action of one thread. -/
def step (s : PipelineSys) : PipelineLabel → Option PipelineSys
  | .call thread queued c allocated => s.call thread queued c allocated
  | .callerMined call nonce allocated => s.callerMined H call nonce allocated
  | .callerReturn call => s.callerReturn call
  | .done r a => s.doneStep H r a
  | .pow l allocated => s.powStep H l allocated
  | .database sent inbox => some { s with sent := sent, inbox := inbox }

/-! ### Where the calls are -/

/-- The jobs of the pipeline that the queue has yet to finish. -/
def queued (pow : PowSys (Option StageJob)) : List StageJob := pow.undoneJobs.filterMap fun j => j.userData.data

/-- The calls that a thread works on. -/
def held (pc : StagePc) : List ℕ := pc.job?.toList.map StageJob.call

def isDone (n : ℕ) : SendEvent → Bool
  | .done m _ _ => decide (m = n)
  | _ => false

def isRefusal (n : ℕ) : SendEvent → Bool
  | .returned m rc => decide (m = n ∧ rc ≠ 0)
  | _ => false

def isReturn (n : ℕ) : SendEvent → Bool
  | .returned m _ => decide (m = n)
  | _ => false

/-- How often the `done` of a call was called. -/
def completions (s : PipelineSys) (n : ℕ) : ℕ := s.log.countP (isDone n)

/-- How often a call is found in the queue, on a thread, completed or refused. -/
def tally (s : PipelineSys) (n : ℕ) : ℕ :=
  ((queued s.pow).map StageJob.call).count n + (held (s.pcs .worker)).count n + (held (s.pcs .shutdown)).count n +
    (held (s.pcs (.caller n))).count n + s.log.countP (isDone n) + s.log.countP (isRefusal n)

/-- How often a call is under way on its own thread or has returned. -/
def returns (s : PipelineSys) (n : ℕ) : ℕ := StagePc.active (s.pcs (.caller n)) + s.log.countP (isReturn n)

/-- The job is of the kind of its call. -/
def Describes (s : PipelineSys) (job : StageJob) : Prop :=
  s.calls[job.call]? = some (job.task.job?.map SendMsgJob.toSendRequest)

/-- The job may be on the thread. -/
def Placed (s : PipelineSys) (job : StageJob) : Runner → Prop
  | .worker => ∃ j, s.pow.worker = .inDone j
  | .shutdown => s.pow.shutdownPc.joined = true
  | .caller n => job.call = n

/-- Only calling threads mine outside the queue. -/
def MinesAlone (r : Runner) (pc : StagePc) : Prop :=
  ∀ job payload target, pc = .mining job payload target → ∃ n, r = .caller n

/-- A thread that is past the row has written it. -/
def RowWritten (log : List SendEvent) (pc : StagePc) : Prop :=
  ∀ job object, pc = .stored job object →
    ∃ msg now, job.task = .msg msg ∧ SendEvent.wrote job.call (msg.sentRow now) ∈ log

/-- Whenever the `done` of a message is called with an object, its row has been written before. -/
def RowsFirst (calls : List (Option SendRequest)) (log : List SendEvent) : Prop :=
  ∀ before after n object, log = before ++ .done n 0 object :: after → ∀ request, calls[n]? = some (some request) →
    ∃ (job : SendMsgJob) (now : ℤ), job.toSendRequest = request ∧ SendEvent.wrote n (job.sentRow now) ∈ before

/-- The jobs are where they can be, and what the log says about them is true. -/
structure Sound (s : PipelineSys) : Prop where
  pow : PowSys.Inv (powSolves H) s.pow
  placed : ∀ r, ∀ job ∈ (s.pcs r).job?, s.Placed job r
  mining_caller : ∀ r, MinesAlone r (s.pcs r)
  queued_kind : ∀ job ∈ queued s.pow, s.Describes job
  held_kind : ∀ r, ∀ job ∈ (s.pcs r).job?, s.Describes job
  stored_row : ∀ r, RowWritten s.log (s.pcs r)
  done_result : ∀ n rc object, SendEvent.done n rc object ∈ s.log →
    (rc = 0 ∧ object.isSome = true) ∨ (rc = -1 ∧ object = none)
  rows_first : RowsFirst s.calls s.log

/-- Whether there is a call with the number. -/
def isCall (s : PipelineSys) (n : ℕ) : ℕ := if n < s.calls.length then 1 else 0

/-- In addition every call is in one place, and returns once. -/
structure Inv (s : PipelineSys) : Prop extends Sound H s where
  tally_eq : ∀ n, s.tally n = s.isCall n
  returns_eq : ∀ n, s.returns n = s.isCall n

section

variable {H} {s : PipelineSys}

theorem init_inv (maxPending : ℕ) (h : maxPending < wordSize) : Inv H (init maxPending h) where
  pow := PowSys.init_inv maxPending h
  placed := by simp [init, StagePc.job?]
  mining_caller := by simp [init, MinesAlone]
  queued_kind := by
    simp [queued, init, PowSys.init, powQueueInit, PowSys.undoneJobs, PowSys.waitingJobs, WorkerPc.undone,
      ShutdownPc.rest]
  held_kind := by simp [init, StagePc.job?]
  stored_row := by simp [init, RowWritten]
  done_result := by simp [init]
  rows_first := by simp [RowsFirst, init]
  tally_eq := by
    simp [isCall, tally, queued, held, init, PowSys.init, powQueueInit, PowSys.undoneJobs, PowSys.waitingJobs,
      WorkerPc.undone, ShutdownPc.rest, StagePc.job?]
  returns_eq := by simp [isCall, returns, init, StagePc.active]

@[simp] theorem goto_self (r : Runner) (pc : StagePc) : (s.goto r pc).pcs r = pc := Function.update_self ..

theorem goto_of_ne {r r' : Runner} (h : r' ≠ r) (pc : StagePc) : (s.goto r pc).pcs r' = s.pcs r' :=
  Function.update_of_ne h ..

/-- A thread takes up a job. -/
theorem Sound.goto (h : s.Sound H) {r : Runner} {pc : StagePc} (hplaced : ∀ job ∈ pc.job?, s.Placed job r)
    (hmining : MinesAlone r pc)
    (hkind : ∀ job ∈ pc.job?, s.Describes job)
    (hstored : RowWritten s.log pc) : (s.goto r pc).Sound H where
  pow := h.pow
  placed := (Function.forall_update_iff _ fun r (pc : StagePc) => ∀ job ∈ pc.job?, s.Placed job r).mpr
    ⟨hplaced, fun r' _ => h.placed r'⟩
  mining_caller := (Function.forall_update_iff _ MinesAlone).mpr ⟨hmining, fun r' _ => h.mining_caller r'⟩
  queued_kind := h.queued_kind
  held_kind := (Function.forall_update_iff _ fun _ (pc : StagePc) => ∀ job ∈ pc.job?, s.Describes job).mpr
    ⟨hkind, fun r' _ => h.held_kind r'⟩
  stored_row := (Function.forall_update_iff _ fun _ pc => RowWritten s.log pc).mpr
    ⟨hstored, fun r' _ => h.stored_row r'⟩
  done_result := h.done_result
  rows_first := h.rows_first

/-- A thread has nothing more to do. -/
theorem Sound.leave (h : s.Sound H) {r : Runner} {pc : StagePc} (hpc : pc.job? = none) : (s.goto r pc).Sound H := by
  refine h.goto ?_ ?_ ?_ ?_
  · simp [hpc]
  · rintro job payload target rfl
    cases hpc
  · simp [hpc]
  · rintro job object rfl
    cases hpc

/-- The job of a thread goes on, perhaps to its next stage. -/
theorem Sound.proceed (h : s.Sound H) {r : Runner} {pc : StagePc} {job job' : StageJob} (hjob : (s.pcs r).job? = some job)
    (hpc : pc.job? = some job') (hcall : job'.call = job.call)
    (hkind : job'.task.job?.map SendMsgJob.toSendRequest = job.task.job?.map SendMsgJob.toSendRequest)
    (hmining : MinesAlone r pc)
    (hstored : RowWritten s.log pc) : (s.goto r pc).Sound H := by
  have hplaced := h.placed r job hjob
  have hdescribes := h.held_kind r job hjob
  refine h.goto ?_ hmining ?_ hstored
  · intro k hk
    cases hpc.symm.trans hk
    cases r with
    | worker => exact hplaced
    | shutdown => exact hplaced
    | caller n => exact hcall.trans hplaced
  · intro k hk
    cases hpc.symm.trans hk
    rw [Describes, hcall, hkind]
    exact hdescribes

/-- An event is added to the log. -/
theorem RowsFirst.record {calls : List (Option SendRequest)} {log : List SendEvent} (h : RowsFirst calls log)
    {e : SendEvent} (he : ∀ n object, e = .done n 0 object → ∀ request, calls[n]? = some (some request) →
      ∃ (job : SendMsgJob) (now : ℤ), job.toSendRequest = request ∧ SendEvent.wrote n (job.sentRow now) ∈ log) :
    RowsFirst calls (log ++ [e]) := by
  intro before after n object hlog request hrequest
  rcases List.eq_nil_or_concat after with rfl | ⟨after, e', rfl⟩
  · obtain ⟨rfl, hlast⟩ := List.append_inj' hlog rfl
    exact he n object (List.singleton_inj.mp hlast) request hrequest
  · have hlog' : log ++ [e] = (before ++ .done n 0 object :: after) ++ [e'] := by simpa using hlog
    exact h before after n object (List.append_inj' hlog' rfl).1 request hrequest

theorem Sound.record (h : s.Sound H) {e : SendEvent}
    (hresult : ∀ n rc object, e = .done n rc object → (rc = 0 ∧ object.isSome = true) ∨ (rc = -1 ∧ object = none))
    (hrow : ∀ n object, e = .done n 0 object → ∀ request, s.calls[n]? = some (some request) →
      ∃ (job : SendMsgJob) (now : ℤ), job.toSendRequest = request ∧ SendEvent.wrote n (job.sentRow now) ∈ s.log) :
    (s.record e).Sound H :=
  { h with
    stored_row := by
      intro r job object hpc
      obtain ⟨msg, now, htask, hmem⟩ := h.stored_row r job object hpc
      exact ⟨msg, now, htask, List.mem_append_left _ hmem⟩
    done_result := by
      intro n rc object hmem
      rcases List.mem_append.mp hmem with hmem | hmem
      · exact h.done_result n rc object hmem
      · exact hresult n rc object (List.mem_singleton.mp hmem).symm
    rows_first := h.rows_first.record hrow }

/-- An event that is not a completion. -/
theorem Sound.note (h : s.Sound H) {e : SendEvent} (he : ∀ n, isDone n e = false) : (s.record e).Sound H := by
  refine h.record ?_ ?_
  · rintro n rc object rfl
    simpa [isDone] using he n
  · rintro n object rfl
    simpa [isDone] using he n

/-- The queue changes, and the threads inside `done` functions stay there. -/
theorem Sound.setPow (h : s.Sound H) {pow : PowSys (Option StageJob)} (hpow : PowSys.Inv (powSolves H) pow)
    (hworker : ∀ job ∈ (s.pcs .worker).job?, ∃ j, pow.worker = .inDone j)
    (hshutdown : ∀ job ∈ (s.pcs .shutdown).job?, pow.shutdownPc.joined = true)
    (hqueued : ∀ job ∈ queued pow, s.Describes job) : (s.setPow pow).Sound H where
  pow := hpow
  placed r job hjob := by
    cases r with
    | worker => exact hworker job hjob
    | shutdown => exact hshutdown job hjob
    | caller n => exact h.placed (.caller n) job hjob
  mining_caller := h.mining_caller
  queued_kind := hqueued
  held_kind := h.held_kind
  stored_row := h.stored_row
  done_result := h.done_result
  rows_first := h.rows_first

/-! ### Where a call goes -/

/-- What a thread gives up or takes up counts for its call. -/
theorem tally_goto (r : Runner) (pc : StagePc) (hold : ∀ n, r = .caller n → ∀ job ∈ (s.pcs r).job?, job.call = n)
    (hnew : ∀ n, r = .caller n → ∀ job ∈ pc.job?, job.call = n) (n : ℕ) :
    (s.goto r pc).tally n + (held (s.pcs r)).count n = s.tally n + (held pc).count n := by
  have hother : ∀ (pc : StagePc) m, m ≠ n → (∀ job ∈ pc.job?, job.call = m) → (held pc).count n = 0 := by
    intro pc m hm hcall
    refine List.count_eq_zero.mpr fun hmem => ?_
    obtain ⟨job, hjob, rfl⟩ := List.mem_map.mp hmem
    exact hm (hcall job (Option.mem_toList.mp hjob)).symm
  cases r with
  | worker => simp [tally, goto]; omega
  | shutdown => simp [tally, goto]; omega
  | caller m =>
    by_cases hm : n = m
    · subst hm
      simp [tally, goto]
      omega
    · rw [hother _ m (Ne.symm hm) (hold m rfl), hother _ m (Ne.symm hm) (hnew m rfl)]
      simp [tally, goto, hm]

theorem returns_goto (r : Runner) (pc : StagePc) (n : ℕ) :
    (s.goto r pc).returns n + (if r = .caller n then (s.pcs r).active else 0) =
      s.returns n + (if r = .caller n then pc.active else 0) := by
  by_cases hr : r = .caller n
  · subst hr
    simp [returns, goto]
    omega
  · simp [returns, goto, hr, Function.update_of_ne (Ne.symm hr)]

@[simp] theorem tally_record (e : SendEvent) (n : ℕ) : (s.record e).tally n =
    s.tally n + ((if isDone n e then 1 else 0) + (if isRefusal n e then 1 else 0)) := by
  simp only [tally, record, List.countP_append, List.countP_singleton]
  omega

@[simp] theorem returns_record (e : SendEvent) (n : ℕ) :
    (s.record e).returns n = s.returns n + (if isReturn n e then 1 else 0) := by
  simp only [returns, record, List.countP_append, List.countP_singleton]
  omega

@[simp] theorem isCall_opened (c : PipelineCall) (n : ℕ) :
    (s.opened c).isCall n = s.isCall n + (if s.calls.length = n then 1 else 0) := by
  simp only [isCall, opened, List.length_append, List.length_singleton]
  split_ifs <;> omega

@[simp] theorem isCall_record (e : SendEvent) (n : ℕ) : (s.record e).isCall n = s.isCall n := rfl

@[simp] theorem isCall_goto (r : Runner) (pc : StagePc) (n : ℕ) : (s.goto r pc).isCall n = s.isCall n := rfl

@[simp] theorem isCall_setPow (pow : PowSys (Option StageJob)) (n : ℕ) : (s.setPow pow).isCall n = s.isCall n :=
  rfl

@[simp] theorem returns_setPow (pow : PowSys (Option StageJob)) (n : ℕ) :
    (s.setPow pow).returns n = s.returns n := rfl

@[simp] theorem tally_opened (c : PipelineCall) (n : ℕ) : (s.opened c).tally n = s.tally n := rfl

@[simp] theorem returns_opened (c : PipelineCall) (n : ℕ) : (s.opened c).returns n = s.returns n := rfl

theorem Sound.opened (h : s.Sound H) (hnew : ∀ object, SendEvent.done s.calls.length 0 object ∉ s.log)
    (c : PipelineCall) : (s.opened c).Sound H := by
  have hkind : ∀ job, s.Describes job → (s.opened c).Describes job := by
    intro job hjob
    obtain ⟨hlt, -⟩ := List.getElem?_eq_some_iff.mp hjob
    rw [Describes, PipelineSys.opened, List.getElem?_append_left hlt]
    exact hjob
  exact { h with
    queued_kind := fun job hjob => hkind job (h.queued_kind job hjob)
    held_kind := fun r job hjob => hkind job (h.held_kind r job hjob)
    rows_first := by
      intro before after n object hlog request hrequest
      rcases lt_trichotomy n s.calls.length with hlt | rfl | hgt
      · rw [PipelineSys.opened, List.getElem?_append_left hlt] at hrequest
        exact h.rows_first before after n object hlog request hrequest
      · refine absurd ?_ (hnew object)
        change SendEvent.done s.calls.length 0 object ∈ (s.opened c).log
        rw [hlog]
        exact List.mem_append_right _ List.mem_cons_self
      · rw [PipelineSys.opened, List.getElem?_eq_none (by simp; omega)] at hrequest
        cases hrequest }

theorem tally_setPow (pow : PowSys (Option StageJob)) (n : ℕ) :
    (s.setPow pow).tally n + ((queued s.pow).map StageJob.call).count n =
      s.tally n + ((queued pow).map StageJob.call).count n := by
  simp only [tally, setPow]
  omega

/-- A submission adds the job to the queue, or leaves the queue as it was. -/
theorem queued_submitOr {p q : PowSys (Option StageJob)} {thread : Thread} {a : SubmitArgs SendTask} {n : ℕ}
    {allocated : Bool} {rc : ℤ} (inv : PowSys.Inv (powSolves H) p)
    (h : p.submitOr thread (a.ofCall n) allocated = some (rc, q)) :
    PowSys.Inv (powSolves H) q ∧ q.worker = p.worker ∧ q.shutdownPc = p.shutdownPc ∧
      ((rc ≠ 0 ∧ queued q = queued p) ∨ (rc = 0 ∧ queued q = queued p ++ [⟨n, a.userData⟩])) := by
  obtain ⟨hinv, hworker, hshutdown, ⟨hrc, hjobs⟩ | ⟨hrc, j, hdata, hjobs⟩⟩ := PowSys.submitOr_cases inv h
  · exact ⟨hinv, hworker, hshutdown, .inl ⟨hrc, by simp only [queued, hjobs]⟩⟩
  · exact ⟨hinv, hworker, hshutdown, .inr ⟨hrc, by simp [queued, hjobs, hdata, SubmitArgs.ofCall]⟩⟩

/-- What a call submits is of the kind of the call. -/
theorem prepared_kind {sent : SentTable} {c : PipelineCall} {a : SubmitArgs SendTask} (h : c.prepared sent = some a) :
    a.userData.job?.map SendMsgJob.toSendRequest = c.request? := by
  cases c with
  | message request recipient built =>
    obtain ⟨⟨job, args⟩, hsend, rfl⟩ := Option.map_eq_some_iff.mp h
    obtain ⟨rfl, -, -, ⟨-, payload, rfl⟩ | ⟨-, data, -, rfl⟩⟩ := sendMessageAsync_eq_some hsend
    · rfl
    · rfl
  | broadcast request built =>
    obtain ⟨payload, -, rfl⟩ := Option.map_eq_some_iff.mp h
    rfl

theorem describes_opened {c : PipelineCall} {a : SubmitArgs SendTask} (h : c.prepared s.sent = some a) :
    (s.opened c).Describes ⟨s.calls.length, a.userData⟩ := by
  rw [Describes, prepared_kind h]
  simp [opened]

theorem Inv.not_done (inv : s.Inv H) (rc : ℤ) (object : Option Bytes) :
    SendEvent.done s.calls.length rc object ∉ s.log := by
  intro hmem
  have htally := inv.tally_eq s.calls.length
  have hpos : 0 < s.log.countP (isDone s.calls.length) := List.countP_pos_iff.mpr ⟨_, hmem, by simp [isDone]⟩
  simp only [tally, isCall, lt_irrefl, if_false] at htally
  omega

theorem Inv.caller_idle (inv : s.Inv H) : s.pcs (.caller s.calls.length) = .idle := by
  have hreturns := inv.returns_eq s.calls.length
  simp only [returns, isCall, lt_irrefl, if_false] at hreturns
  cases hpc : s.pcs (.caller s.calls.length) with
  | idle => rfl
  | _ =>
    rw [hpc] at hreturns
    simp [StagePc.active] at hreturns

/-- The queue of an open call changes, by the submission of the call at most. -/
theorem Sound.submitted (h : s.Sound H) {pow : PowSys (Option StageJob)} (hpow : PowSys.Inv (powSolves H) pow)
    (hworker : pow.worker = s.pow.worker) (hshutdown : pow.shutdownPc = s.pow.shutdownPc)
    (hqueued : ∀ job ∈ queued pow, s.Describes job) : (s.setPow pow).Sound H := by
  refine h.setPow hpow ?_ ?_ hqueued
  · intro job hjob
    rw [hworker]
    exact h.placed .worker job hjob
  · intro job hjob
    rw [hshutdown]
    exact h.placed .shutdown job hjob

/-- A call is refused. -/
theorem Inv.refuse (inv : s.Inv H) {c : PipelineCall} (pow : PowSys (Option StageJob)) {rc : ℤ} (hrc : rc ≠ 0)
    (hpow : PowSys.Inv (powSolves H) pow) (hworker : pow.worker = s.pow.worker)
    (hshutdown : pow.shutdownPc = s.pow.shutdownPc) (hqueued : queued pow = queued s.pow) :
    Inv H (((s.opened c).setPow pow).record (.returned s.calls.length rc)) := by
  have hopened := inv.toSound.opened (inv.not_done 0) c
  have hsound : ((s.opened c).setPow pow).Sound H := by
    refine hopened.submitted hpow hworker hshutdown ?_
    rw [hqueued]
    exact hopened.queued_kind
  refine ⟨hsound.note fun _ => rfl, fun n => ?_, fun n => ?_⟩
  · have htally := tally_setPow (s := s.opened c) pow n
    rw [hqueued, tally_opened, inv.tally_eq] at htally
    have hpow : ((s.opened c).setPow pow).tally n = s.isCall n := Nat.add_right_cancel htally
    simp [hpow, isDone, isRefusal, hrc]
  · simp [inv.returns_eq, isReturn]

/-- A call is accepted by the queue. -/
theorem Inv.accept (inv : s.Inv H) {c : PipelineCall} {a : SubmitArgs SendTask} (ha : c.prepared s.sent = some a)
    {pow : PowSys (Option StageJob)} (hpow : PowSys.Inv (powSolves H) pow) (hworker : pow.worker = s.pow.worker)
    (hshutdown : pow.shutdownPc = s.pow.shutdownPc)
    (hqueued : queued pow = queued s.pow ++ [⟨s.calls.length, a.userData⟩]) :
    Inv H (((s.opened c).setPow pow).record (.returned s.calls.length 0)) := by
  have hopened := inv.toSound.opened (inv.not_done 0) c
  have hsound : ((s.opened c).setPow pow).Sound H := by
    refine hopened.submitted hpow hworker hshutdown ?_
    simp only [hqueued, List.mem_append, List.mem_singleton]
    rintro job (hjob | rfl)
    · exact hopened.queued_kind job hjob
    · exact describes_opened ha
  refine ⟨hsound.note fun _ => rfl, fun n => ?_, fun n => ?_⟩
  · have htally := tally_setPow (s := s.opened c) pow n
    simp only [hqueued, tally_opened, inv.tally_eq, List.map_append, List.count_append, List.map_cons, List.map_nil,
      List.count_singleton, beq_iff_eq] at htally
    have hpow : ((s.opened c).setPow pow).tally n = s.isCall n + if s.calls.length = n then 1 else 0 := by
      change _ + ((queued s.pow).map StageJob.call).count n = _ at htally
      omega
    simp [hpow, isDone, isRefusal]
  · simp [inv.returns_eq, isReturn]

/-- A call mines on its own thread. -/
theorem Inv.mineAlone (inv : s.Inv H) {c : PipelineCall} {a : SubmitArgs SendTask} (ha : c.prepared s.sent = some a) :
    Inv H ((s.opened c).goto (.caller s.calls.length) (.mining ⟨s.calls.length, a.userData⟩ a.payload a.target)) := by
  have hopened := inv.toSound.opened (inv.not_done 0) c
  have hidle : (s.opened c).pcs (.caller s.calls.length) = .idle := inv.caller_idle
  refine ⟨hopened.goto ?_ ?_ ?_ ?_, fun n => ?_, fun n => ?_⟩
  · rintro job ⟨⟩
    rfl
  · exact fun _ _ _ _ => ⟨_, rfl⟩
  · rintro job ⟨⟩
    exact describes_opened ha
  · rintro job object ⟨⟩
  · have htally := tally_goto (s := s.opened c) (.caller s.calls.length)
      (.mining ⟨s.calls.length, a.userData⟩ a.payload a.target) (by simp [hidle, StagePc.job?])
      (by simp [StagePc.job?]) n
    simpa [hidle, held, StagePc.job?, inv.tally_eq, List.count_singleton] using htally
  · have hreturns := returns_goto (s := s.opened c) (.caller s.calls.length)
      (.mining ⟨s.calls.length, a.userData⟩ a.payload a.target) n
    simpa [hidle, StagePc.active, inv.returns_eq] using hreturns

theorem Inv.call {t : PipelineSys} (inv : s.Inv H) {thread : Thread} {queued : Bool} {c : PipelineCall}
    {allocated : Bool} (h : s.call thread queued c allocated = some t) : t.Inv H := by
  simp only [PipelineSys.call] at h
  split at h
  · cases h
    exact inv.refuse s.pow (by decide) inv.pow rfl rfl rfl
  · next a ha =>
    split at h
    · obtain ⟨⟨rc, pow⟩, hsub, rfl⟩ := Option.map_eq_some_iff.mp h
      obtain ⟨hpow, hworker, hshutdown, ⟨hrc, hqueued⟩ | ⟨rfl, hqueued⟩⟩ := queued_submitOr inv.pow hsub
      · exact inv.refuse _ hrc hpow hworker hshutdown hqueued
      · exact inv.accept ha hpow hworker hshutdown hqueued
    · cases h
      exact inv.mineAlone ha

theorem active_of_job {pc : StagePc} {job : StageJob} (h : pc.job? = some job) : pc.active = 1 := by
  cases pc with
  | idle => cases h
  | _ => rfl

@[simp] theorem held_of_job {pc : StagePc} {job : StageJob} (h : pc.job? = some job) : held pc = [job.call] := by
  simp [held, h]

@[simp] theorem held_of_none {pc : StagePc} (h : pc.job? = none) : held pc = [] := by
  simp [held, h]

theorem Inv.proceed (inv : s.Inv H) {r : Runner} {pc : StagePc} {job job' : StageJob}
    (hjob : (s.pcs r).job? = some job) (hpc : pc.job? = some job') (hcall : job'.call = job.call)
    (hkind : job'.task.job?.map SendMsgJob.toSendRequest = job.task.job?.map SendMsgJob.toSendRequest)
    (hmining : MinesAlone r pc) (hstored : RowWritten s.log pc) : (s.goto r pc).Inv H := by
  have hplaced := inv.placed r job hjob
  refine ⟨inv.toSound.proceed hjob hpc hcall hkind hmining hstored, fun n => ?_, fun n => ?_⟩
  · have hthis : ∀ m, r = .caller m → job.call = m := by
      rintro m rfl
      exact hplaced
    have htally := tally_goto (s := s) r pc (by simpa [hjob] using hthis) (by simpa [hpc, hcall] using hthis) n
    rw [held_of_job hjob, held_of_job hpc, hcall, inv.tally_eq] at htally
    exact Nat.add_right_cancel htally
  · have hreturns := returns_goto (s := s) r pc n
    rw [active_of_job hjob, active_of_job hpc, inv.returns_eq] at hreturns
    exact Nat.add_right_cancel hreturns

/-- An event that neither completes nor returns a call. -/
theorem Inv.note (inv : s.Inv H) {n : ℕ} {row : SentRow} : (s.record (.wrote n row)).Inv H :=
  ⟨inv.toSound.note fun _ => rfl, by simpa [isDone, isRefusal] using inv.tally_eq,
    by simpa [isReturn] using inv.returns_eq⟩

theorem Inv.database (inv : s.Inv H) (sent : SentTable) (inbox : List InboxRow) :
    Inv H { s with sent := sent, inbox := inbox } :=
  ⟨⟨inv.pow, inv.placed, inv.mining_caller, inv.queued_kind, inv.held_kind, inv.stored_row, inv.done_result,
    inv.rows_first⟩, inv.tally_eq, inv.returns_eq⟩

/-- The send is about to fail. -/
theorem Inv.fail (inv : s.Inv H) {r : Runner} {job : StageJob} (hjob : (s.pcs r).job? = some job) (job' : StageJob)
    (hcall : job'.call = job.call)
    (hkind : job'.task.job?.map SendMsgJob.toSendRequest = job.task.job?.map SendMsgJob.toSendRequest) :
    (s.goto r (.failing job')).Inv H := by
  refine inv.proceed hjob rfl hcall hkind ?_ ?_
  · rintro _ _ _ ⟨⟩
  · rintro _ _ ⟨⟩

theorem Inv.enter (inv : s.Inv H) {r : Runner} {job : StageJob} (hjob : (s.pcs r).job? = some job)
    (object : Option Bytes) : (s.enter r job object).Inv H := by
  cases object with
  | none => exact inv.fail hjob job rfl rfl
  | some object =>
    have hcalled : (StagePc.called job object).job? = some job := rfl
    refine inv.proceed hjob hcalled rfl rfl ?_ ?_
    · rintro _ _ _ ⟨⟩
    · rintro _ _ ⟨⟩

theorem Inv.callerMined {t : PipelineSys} (inv : s.Inv H) {call nonce : ℕ} {allocated : Bool}
    (h : s.callerMined H call nonce allocated = some t) : t.Inv H := by
  simp only [PipelineSys.callerMined] at h
  split at h
  · next job payload target hpc =>
    split at h
    · cases h
      exact inv.enter (by rw [hpc]; rfl) _
    · cases h
  · cases h

theorem Inv.callerReturn {t : PipelineSys} (inv : s.Inv H) {call : ℕ} (h : s.callerReturn call = some t) : t.Inv H := by
  simp only [PipelineSys.callerReturn] at h
  split at h
  · next hpc =>
    cases h
    refine ⟨(inv.toSound.leave rfl).note fun _ => rfl, fun n => ?_, fun n => ?_⟩
    · have htally := tally_goto (s := s) (.caller call) .idle (by simp [hpc, StagePc.job?]) (by simp [StagePc.job?]) n
      simpa [hpc, held, StagePc.job?, inv.tally_eq, isDone, isRefusal] using htally
    · have hreturns := returns_goto (s := s) (.caller call) .idle n
      simpa [hpc, StagePc.active, inv.returns_eq, isReturn] using hreturns
  · cases h

/-- The `done` of a send is called. -/
theorem Inv.complete (inv : s.Inv H) {r : Runner} {job : StageJob} {rc : ℤ} {object : Option Bytes}
    (hjob : (s.pcs r).job? = some job) (hresult : (rc = 0 ∧ object.isSome = true) ∨ (rc = -1 ∧ object = none))
    (hrow : rc = 0 → ∀ request, s.calls[job.call]? = some (some request) →
      ∃ (msg : SendMsgJob) (now : ℤ), msg.toSendRequest = request ∧ SendEvent.wrote job.call (msg.sentRow now) ∈ s.log) :
    ((s.record (.done job.call rc object)).goto r (afterDone r)).Inv H := by
  have hplaced := inv.placed r job hjob
  have hafter : (afterDone r).job? = none := by cases r <;> rfl
  have hthis : ∀ m, r = .caller m → job.call = m := by
    rintro m rfl
    exact hplaced
  have hjob' : ((s.record (.done job.call rc object)).pcs r).job? = some job := hjob
  refine ⟨(inv.toSound.record ?_ ?_).leave hafter, fun n => ?_, fun n => ?_⟩
  · rintro n rc object ⟨⟩
    exact hresult
  · rintro n object ⟨⟩
    exact hrow rfl
  · have htally := tally_goto (s := s.record (.done job.call rc object)) r (afterDone r)
      (by simpa [hjob'] using hthis) (by simp [hafter]) n
    rw [held_of_job hjob', held_of_none hafter, tally_record, inv.tally_eq] at htally
    simp only [isDone, isRefusal, decide_eq_true_eq, List.count_singleton, beq_iff_eq, List.count_nil,
      Bool.false_eq_true, if_false] at htally
    exact Nat.add_right_cancel htally
  · have hreturns := returns_goto (s := s.record (.done job.call rc object)) r (afterDone r) n
    rw [active_of_job hjob', returns_record, inv.returns_eq] at hreturns
    cases r with
    | caller m => exact Nat.add_right_cancel hreturns
    | _ => simpa [isReturn] using hreturns

/-- The queue changes, but not the jobs of the pipeline in it. -/
theorem Inv.setPow (inv : s.Inv H) {pow : PowSys (Option StageJob)} (hpow : PowSys.Inv (powSolves H) pow)
    (hworker : ∀ job ∈ (s.pcs .worker).job?, ∃ j, pow.worker = .inDone j)
    (hshutdown : ∀ job ∈ (s.pcs .shutdown).job?, pow.shutdownPc.joined = true)
    (hqueued : queued pow = queued s.pow) : (s.setPow pow).Inv H := by
  refine ⟨inv.toSound.setPow hpow hworker hshutdown (hqueued ▸ inv.queued_kind), fun n => ?_, inv.returns_eq⟩
  have htally := tally_setPow (s := s) pow n
  rw [hqueued, inv.tally_eq] at htally
  exact Nat.add_right_cancel htally

/-- The worker hands the second stage to the queue. -/
theorem Inv.handOver (inv : s.Inv H) {job job' : StageJob} {pow : PowSys (Option StageJob)}
    (hjob : (s.pcs .worker).job? = some job) (hcall : job'.call = job.call)
    (hkind : job'.task.job?.map SendMsgJob.toSendRequest = job.task.job?.map SendMsgJob.toSendRequest)
    (hpow : PowSys.Inv (powSolves H) pow) (hworker : pow.worker = s.pow.worker)
    (hshutdown : pow.shutdownPc = s.pow.shutdownPc) (hqueued : queued pow = queued s.pow ++ [job']) :
    ((s.setPow pow).goto .worker .idle).Inv H := by
  have hsound : (s.setPow pow).Sound H := by
    refine inv.toSound.submitted hpow hworker hshutdown ?_
    simp only [hqueued, List.mem_append, List.mem_singleton]
    rintro k (hk | rfl)
    · exact inv.queued_kind k hk
    · rw [Describes, hcall, hkind]
      exact inv.held_kind .worker job hjob
  refine ⟨hsound.leave rfl, fun n => ?_, fun n => ?_⟩
  · have hadd := tally_setPow (s := s) pow n
    have hgive := tally_goto (s := s.setPow pow) .worker .idle (fun m hm => nomatch hm) (fun m hm => nomatch hm) n
    rw [show (s.setPow pow).pcs .worker = s.pcs .worker from rfl, held_of_job hjob, held_of_none rfl] at hgive
    simp only [hqueued, List.map_append, List.map_cons, List.map_nil, List.count_append, hcall, inv.tally_eq] at hadd
    simp only [List.count_nil] at hgive
    simp only [isCall_goto, isCall_setPow]
    omega
  · have hreturns := returns_goto (s := s.setPow pow) .worker .idle n
    simpa [inv.returns_eq] using hreturns

theorem Inv.submitMsg {t : PipelineSys} (inv : s.Inv H) {r : Runner} {call : ℕ} {job msg : SendMsgJob} {payload : Bytes}
    {allocated : Bool} (hjob : (s.pcs r).job? = some ⟨call, .ack job⟩) (hmsg : msg.toSendRequest = job.toSendRequest)
    (h : s.submitMsg r call msg payload allocated = some t) : t.Inv H := by
  have hkind : (SendTask.msg msg).job?.map SendMsgJob.toSendRequest =
      (SendTask.ack job).job?.map SendMsgJob.toSendRequest := congrArg some hmsg
  cases r with
  | shutdown => cases h
  | caller n =>
    cases h
    refine inv.proceed hjob rfl rfl hkind ?_ ?_
    · exact fun _ _ _ _ => ⟨n, rfl⟩
    · rintro _ _ ⟨⟩
  | worker =>
    obtain ⟨⟨rc, pow⟩, hsub, rfl⟩ := Option.map_eq_some_iff.mp h
    obtain ⟨hpow, hworker, hshutdown, ⟨hrc, hqueued⟩ | ⟨rfl, hqueued⟩⟩ := queued_submitOr inv.pow hsub
    · have hset : (s.setPow pow).Inv H := by
        refine inv.setPow hpow ?_ ?_ hqueued
        · rw [hworker]
          exact inv.placed .worker
        · rw [hshutdown]
          exact inv.placed .shutdown
      simp only [hrc, if_false]
      exact hset.fail hjob ⟨call, .msg msg⟩ rfl hkind
    · have hcall : (⟨call, .msg msg⟩ : StageJob).call = (⟨call, .ack job⟩ : StageJob).call := rfl
      exact inv.handOver hjob hcall hkind hpow hworker hshutdown hqueued

theorem Inv.doneStep {t : PipelineSys} (inv : s.Inv H) {r : Runner} {a : DoneAction}
    (h : s.doneStep H r a = some t) : t.Inv H := by
  cases a with
  | ackPowDone payload allocated =>
    simp only [PipelineSys.doneStep] at h
    split at h
    · next call job object payload hpc =>
      have hjob : (s.pcs r).job? = some ⟨call, .ack job⟩ := by rw [hpc]; rfl
      have hmsg : ({ job with ackData := some object } : SendMsgJob).toSendRequest = job.toSendRequest := rfl
      exact inv.submitMsg hjob hmsg h
    · next call job object hpc =>
      have hjob : (s.pcs r).job? = some ⟨call, .ack job⟩ := by rw [hpc]; rfl
      cases h
      exact inv.fail hjob ⟨call, .ack job⟩ rfl rfl
    · cases h
  | msgPowDone stored now =>
    simp only [PipelineSys.doneStep] at h
    split at h
    · next call job object hpc =>
      have hjob : (s.pcs r).job? = some ⟨call, .msg job⟩ := by rw [hpc]; rfl
      split at h
      · cases h
        refine (inv.database _ _).note.proceed hjob rfl rfl rfl ?_ ?_
        · rintro _ _ _ ⟨⟩
        · rintro _ _ ⟨⟩
          exact ⟨job, now, rfl, List.mem_append_right _ (List.mem_singleton_self _)⟩
      · cases h
        exact inv.fail hjob ⟨call, .msg job⟩ rfl rfl
    · cases h
  | callDone =>
    simp only [PipelineSys.doneStep] at h
    split at h
    · next job hpc =>
      cases h
      exact inv.complete (by rw [hpc]; rfl) (.inr ⟨rfl, rfl⟩) fun hrc => absurd hrc (by decide)
    · next job object hpc =>
      cases h
      refine inv.complete (by rw [hpc]; rfl) (.inl ⟨rfl, rfl⟩) fun _ request hrequest => ?_
      obtain ⟨msg, now, htask, hmem⟩ := inv.stored_row r job object hpc
      have hkind := inv.held_kind r job (by rw [hpc]; rfl)
      rw [Describes, hrequest, htask] at hkind
      simp only [SendTask.job?, Option.map_some, Option.some.injEq] at hkind
      exact ⟨msg, now, hkind.symm, hmem⟩
    · next call object hpc =>
      cases h
      have hjob : (s.pcs r).job? = some ⟨call, .other⟩ := by rw [hpc]; rfl
      refine inv.complete hjob (.inl ⟨rfl, rfl⟩) fun _ request hrequest => ?_
      have hkind := inv.held_kind r ⟨call, .other⟩ hjob
      rw [Describes, hrequest] at hkind
      simp [SendTask.job?] at hkind
    · cases h

/-- The threads inside `done` functions stay there while the queue acts. -/
theorem Inv.powStep_placed (inv : s.Inv H) {l : PowLabel (Option StageJob)} {pow : PowSys (Option StageJob)}
    (hallowed : s.allowed l = true) (h : PowSys.step (powSolves H) s.pow l = some pow) :
    (∀ job ∈ (s.pcs .worker).job?, ∃ j, pow.worker = .inDone j) ∧
      ∀ job ∈ (s.pcs .shutdown).job?, pow.shutdownPc.joined = true := by
  have hw := inv.placed .worker
  have hs := inv.placed .shutdown
  simp only [Placed] at hw hs
  cases l with
  | submit thread a =>
    rcases PowSys.submit_cases h with ⟨rc, -, rfl⟩ | ⟨j, -, -, -, -, -, -, -, -, -, rfl⟩ <;> exact ⟨hw, hs⟩
  | take =>
    obtain ⟨j, q, hwaiting, -, -, rfl⟩ := PowSys.take_cases h
    exact ⟨fun job hjob => by simp [hwaiting] at hw; simp [hw] at hjob, hs⟩
  | mined nonce =>
    obtain ⟨j, hmining, -, rfl⟩ := PowSys.mined_cases h
    exact ⟨fun _ _ => ⟨j, rfl⟩, hs⟩
  | cancelled =>
    obtain ⟨j, hmining, -, rfl⟩ := PowSys.cancelled_cases h
    exact ⟨fun _ _ => ⟨j, rfl⟩, hs⟩
  | finish =>
    obtain ⟨j, -, rfl⟩ := PowSys.finish_cases h
    exact ⟨fun job hjob => by simp [allowed, Option.mem_def.mp hjob] at hallowed, hs⟩
  | exit =>
    obtain ⟨hwaiting, -, rfl⟩ := PowSys.exit_cases h
    exact ⟨fun job hjob => by simp [hwaiting] at hw; simp [hw] at hjob, hs⟩
  | shutdown =>
    cases h
    rcases PowSys.shutdown_cases s.pow with ⟨he, -⟩ | ⟨hsh, he⟩
    · rw [he]
      exact ⟨hw, hs⟩
    · rw [he]
      refine ⟨hw, fun job hjob => ?_⟩
      have hjoined := hs job hjob
      rw [inv.pow.shutdown_eq_false.mpr hsh] at hjoined
      cases hjoined
  | join =>
    obtain ⟨l, -, -, rfl⟩ := PowSys.join_cases h
    exact ⟨hw, fun _ _ => rfl⟩
  | discard =>
    obtain ⟨j, l, -, rfl⟩ := PowSys.discard_cases h
    exact ⟨hw, fun _ _ => rfl⟩
  | shutdownReturn =>
    obtain ⟨-, rfl⟩ := PowSys.shutdownReturn_cases h
    exact ⟨hw, fun _ _ => rfl⟩

/-- The thread that enters a `done` function was in none, and is in it now. -/
theorem Inv.entering_placed (inv : s.Inv H) {l : PowLabel (Option StageJob)} {pow : PowSys (Option StageJob)}
    (hallowed : s.allowed l = true) (h : PowSys.step (powSolves H) s.pow l = some pow) {r : Runner}
    {j : PowJob (Ticket (Option StageJob))} (hentering : s.pow.entering l = some (r, j)) :
    (s.pcs r).job? = none ∧ (∀ n, r ≠ .caller n) ∧ ∀ job, (s.setPow pow).Placed job r := by
  have hmining : ∀ k, s.pow.worker = .mining k → (s.pcs .worker).job? = none := by
    intro k hk
    refine Option.eq_none_iff_forall_not_mem.mpr fun job hjob => ?_
    obtain ⟨i, hi⟩ := inv.placed .worker job hjob
    rw [hk] at hi
    cases hi
  cases l with
  | mined nonce =>
    obtain ⟨k, hk, -, rfl⟩ := PowSys.mined_cases h
    simp only [PowSys.entering, hk, Option.some.injEq, Prod.mk.injEq] at hentering
    obtain ⟨rfl, rfl⟩ := hentering
    exact ⟨hmining k hk, by simp, fun _ => ⟨k, rfl⟩⟩
  | cancelled =>
    obtain ⟨k, hk, -, rfl⟩ := PowSys.cancelled_cases h
    simp only [PowSys.entering, hk, Option.some.injEq, Prod.mk.injEq] at hentering
    obtain ⟨rfl, rfl⟩ := hentering
    exact ⟨hmining k hk, by simp, fun _ => ⟨k, rfl⟩⟩
  | discard =>
    obtain ⟨k, rest, hk, rfl⟩ := PowSys.discard_cases h
    simp only [PowSys.entering, hk, Option.some.injEq, Prod.mk.injEq] at hentering
    obtain ⟨rfl, rfl⟩ := hentering
    exact ⟨by simpa [allowed] using hallowed, by simp, fun _ => rfl⟩
  | _ => cases hentering

/-- The job that is entered leaves the queue. -/
theorem Inv.queued_powStep (inv : s.Inv H) {l : PowLabel (Option StageJob)} {pow : PowSys (Option StageJob)}
    (hallowed : s.allowed l = true) (h : PowSys.step (powSolves H) s.pow l = some pow) :
    queued s.pow = ((s.pow.entering l).bind fun e => e.2.userData.data).toList ++ queued pow := by
  by_cases hl : ∀ thread a, l ≠ .submit thread a
  · rw [queued, PowSys.undoneJobs_step inv.pow h hl, List.filterMap_append]
    congr 1
    cases s.pow.entering l with
    | none => rfl
    | some e => cases hdata : e.2.userData.data <;> simp [hdata]
  · push Not at hl
    obtain ⟨thread, a, rfl⟩ := hl
    have hnone : a.userData = none := Option.isNone_iff_eq_none.mp hallowed
    rcases PowSys.submit_cases h with ⟨rc, -, rfl⟩ | ⟨j, -, -, -, -, hdata, -, hsh, -, -, rfl⟩
    · rfl
    · simp [queued, PowSys.entering, PowSys.undoneJobs, PowSys.waitingJobs, inv.pow.shutdown_rest hsh, hdata, hnone]

/-- The job is on its thread afterwards. -/
theorem Inv.take (inv : s.Inv H) {pow : PowSys (Option StageJob)} (hpow : PowSys.Inv (powSolves H) pow)
    (hworker : ∀ job ∈ (s.pcs .worker).job?, ∃ j, pow.worker = .inDone j)
    (hshutdown : ∀ job ∈ (s.pcs .shutdown).job?, pow.shutdownPc.joined = true) {job : StageJob}
    (hqueued : queued s.pow = job :: queued pow) {r : Runner} (hidle : (s.pcs r).job? = none)
    (hcaller : ∀ n, r ≠ .caller n) (hplaced : (s.setPow pow).Placed job r) {pc : StagePc} (hpc : pc.job? = some job)
    (hmining : MinesAlone r pc) (hstored : RowWritten s.log pc) : ((s.setPow pow).goto r pc).Inv H := by
  have hkinds : ∀ k ∈ job :: queued pow, s.Describes k := hqueued ▸ inv.queued_kind
  have hsound : (s.setPow pow).Sound H :=
    inv.toSound.setPow hpow hworker hshutdown fun k hk => hkinds k (List.mem_cons_of_mem _ hk)
  refine ⟨hsound.goto ?_ hmining ?_ hstored, fun n => ?_, fun n => ?_⟩
  · rw [hpc]
    rintro k ⟨⟩
    exact hplaced
  · rw [hpc]
    rintro k ⟨⟩
    exact hkinds job List.mem_cons_self
  · have hgive := tally_setPow (s := s) pow n
    have hget := tally_goto (s := s.setPow pow) r pc (fun m hm => absurd hm (hcaller m))
      (fun m hm => absurd hm (hcaller m)) n
    rw [show (s.setPow pow).pcs r = s.pcs r from rfl, held_of_none hidle, held_of_job hpc, List.count_nil] at hget
    rw [hqueued, List.map_cons, List.count_cons, inv.tally_eq] at hgive
    rw [List.count_singleton] at hget
    rw [isCall_goto, isCall_setPow]
    omega
  · have hreturns := returns_goto (s := s.setPow pow) r pc n
    simpa [hcaller n, inv.returns_eq] using hreturns

theorem Inv.powStep {t : PipelineSys} (inv : s.Inv H) {l : PowLabel (Option StageJob)} {allocated : Bool}
    (h : s.powStep H l allocated = some t) : t.Inv H := by
  simp only [PipelineSys.powStep] at h
  split at h
  · next hallowed =>
    obtain ⟨pow, hstep, rfl⟩ := Option.map_eq_some_iff.mp h
    have hpow := PowSys.step_inv s.pow l pow inv.pow hstep
    obtain ⟨hworker, hshutdown⟩ := inv.powStep_placed hallowed hstep
    have hqueued := inv.queued_powStep hallowed hstep
    cases hentering : s.pow.entering l with
    | none =>
      rw [hentering] at hqueued
      exact inv.setPow hpow hworker hshutdown hqueued.symm
    | some e =>
      obtain ⟨r, j⟩ := e
      obtain ⟨hidle, hcaller, hplaced⟩ := inv.entering_placed hallowed hstep hentering
      cases hdata : j.userData.data with
      | none =>
        simp only [hentering, Option.bind_some, hdata] at hqueued
        simp only [hdata]
        exact inv.setPow hpow hworker hshutdown hqueued.symm
      | some job =>
        simp only [hentering, Option.bind_some, hdata] at hqueued
        simp only [hdata]
        have htake : ∀ pc : StagePc, pc.job? = some job → MinesAlone r pc → RowWritten s.log pc →
            ((s.setPow pow).goto r pc).Inv H :=
          fun pc hpc hmining hstored =>
            inv.take hpow hworker hshutdown hqueued hidle hcaller (hplaced job) hpc hmining hstored
        cases l.object j.payload allocated with
        | none =>
          refine htake (.failing job) rfl ?_ ?_
          · rintro _ _ _ ⟨⟩
          · rintro _ _ ⟨⟩
        | some object =>
          refine htake (.called job object) rfl ?_ ?_
          · rintro _ _ _ ⟨⟩
          · rintro _ _ ⟨⟩
  · cases h

end

/-- Every action of every thread keeps the invariant. -/
theorem step_inv {H : Hashes} (s : PipelineSys) (l : PipelineLabel) (t : PipelineSys) (inv : s.Inv H)
    (h : s.step H l = some t) : t.Inv H := by
  cases l with
  | call thread queued c allocated => exact inv.call h
  | callerMined call nonce allocated => exact inv.callerMined h
  | callerReturn call => exact inv.callerReturn h
  | done r a => exact inv.doneStep h
  | pow l allocated => exact inv.powStep h
  | database sent inbox => cases h; exact inv.database sent inbox

end PipelineSys

end Bitmessage
