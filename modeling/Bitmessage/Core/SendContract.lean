import Bitmessage.Core.SendProgress
import Bitmessage.Core.Difficulty

/-! The contract of the pipeline: a send that was accepted completes exactly once. It
rests on the difficulties. `bm_pow_get_target` divides by a product of them, and where
the product is zero the signal ends the process in the middle of the action; and the
worker gets past a job only when some nonce meets the target of the job. -/

namespace Bitmessage

open Transition

/-- The arguments of `bm_pow_get_target`. -/
structure TargetArgs where
  payloadLength : ℕ
  ttl : ℕ
  difficulty : Difficulty

def TargetArgs.denominator (a : TargetArgs) : ℕ := a.difficulty.denominator a.payloadLength a.ttl

def TargetArgs.target (a : TargetArgs) : ℕ := a.difficulty.target a.payloadLength a.ttl

/-- What the target of the acknowledgement is computed from. -/
def SendMsgJob.ackTargetArgs (job : SendMsgJob) (data : Bytes) : TargetArgs :=
  ⟨(buildAckPayload job data).length, job.ttlSeconds, ⟨ackNonceTrialsPerByte, ackPayloadLengthExtraBytes⟩⟩

/-- What the target of the message is computed from. -/
def SendMsgJob.msgTargetArgs (job : SendMsgJob) (payload : Bytes) : TargetArgs :=
  ⟨payload.length, job.ttlSeconds, ⟨job.requiredNonceTrials, job.requiredExtraBytes⟩⟩

/-- What the call itself computes a target from, before it submits. -/
def PipelineCall.targetArgs : PipelineCall → Option TargetArgs
  | .message request recipient built =>
    recipient.bind fun r => built.bind fun data =>
      let job := request.job r none
      if r.isSelf then some (job.msgTargetArgs data)
      else if ackRandomPart request.ackStealthLevel data then some (job.ackTargetArgs data)
      else none
  | .broadcast request built =>
    built.map fun payload =>
      ⟨payload.length, request.ttlSeconds, ⟨request.nonceTrialsPerByte, request.payloadLengthExtraBytes⟩⟩

/-- It is the target that is submitted. -/
theorem PipelineCall.targetArgs_prepared (c : PipelineCall) (sent : SentTable) :
    (c.prepared sent).map SubmitArgs.target = c.targetArgs.map TargetArgs.target := by
  cases c with
  | message request recipient built =>
    cases recipient with
    | none => rfl
    | some r =>
      cases built with
      | none => rfl
      | some data =>
        simp only [prepared, targetArgs, sendMessageAsync, Option.bind_some]
        split_ifs <;> rfl
  | broadcast request built => cases built <;> rfl

namespace PipelineSys

/-- What an action computes a target from. -/
def targetArgs (s : PipelineSys) : PipelineLabel → Option TargetArgs
  | .call _ _ c _ => c.targetArgs
  | .done r (.ackPowDone (some payload) _) =>
    match s.pcs r with
    | .called ⟨_, .ack job⟩ _ => some (job.msgTargetArgs payload)
    | _ => none
  | _ => none

/-- The division in `bm_pow_get_target` traps. -/
def dividesByZero (s : PipelineSys) (l : PipelineLabel) : Bool := (s.targetArgs l).any fun a => a.denominator = 0

/-- The payload and the target that an action hands to the queue. -/
def submits (s : PipelineSys) : PipelineLabel → Option (Bytes × ℕ)
  | .call _ true c _ => (c.prepared s.sent).map fun a => (a.payload, a.target)
  | .done .worker (.ackPowDone (some payload) _) =>
    match s.pcs .worker with
    | .called ⟨_, .ack job⟩ _ => some (payload, (job.msgTargetArgs payload).target)
    | _ => none
  | .pow (.submit _ a) _ => some (a.payload, a.target)
  | _ => none

end PipelineSys

/-- The process: it runs, or `SIGFPE` has killed it. -/
inductive SendProcess where
  | running (s : PipelineSys)
  | killed (s : PipelineSys)

namespace SendProcess

variable (H : Hashes)

/-- The state of the pipeline, the last one for a process that was killed. -/
def pipeline : SendProcess → PipelineSys
  | .running s | .killed s => s

def isKilled : SendProcess → Bool
  | .running _ => false
  | .killed _ => true

/-- One action of one thread; an action that divides by zero does not come to its end. -/
def step : SendProcess → PipelineLabel → Option SendProcess
  | .running s, l => (s.step H l).map fun t => if s.dividesByZero l then .killed s else .running t
  | .killed _, _ => none

/-- The action does not divide by zero, and what it hands to the queue has a nonce. -/
def Minable : SendProcess → PipelineLabel → Prop
  | .running s, l =>
    s.dividesByZero l = false ∧
      ∀ payload target, s.submits l = some (payload, target) → ∃ nonce, powSolves H payload target nonce = true
  | .killed _, _ => True

end SendProcess

/-! ### The jobs of the queue have nonces -/

namespace PowSys

variable {U : Type*} {solves : Bytes → ℕ → ℕ → Bool} {p q : PowSys U}

/-- The jobs that are left have nonces. -/
def Attainable (solves : Bytes → ℕ → ℕ → Bool) (p : PowSys U) : Prop :=
  ∀ j ∈ p.undoneJobs, ∃ nonce, solves j.payload j.target nonce = true

theorem Attainable.submit {thread : Thread} {a : SubmitArgs U} (h : p.Attainable solves) (inv : Inv solves p)
    (ha : ∃ nonce, solves a.payload a.target nonce = true) (hsub : p.submit thread a = some q) :
    q.Attainable solves := by
  rcases submit_cases hsub with ⟨rc, -, rfl⟩ | ⟨j, -, hpayload, htarget, -, -, -, hsh, -, -, rfl⟩
  · exact h
  · intro k hk
    simp only [undoneJobs, waitingJobs, inv.shutdown_rest hsh, LinkedQueue.toList_enqueue, List.append_nil,
      List.mem_append, List.mem_singleton] at hk
    rcases hk with hk | hk | rfl
    · exact h k (List.mem_append_left _ hk)
    · refine h k (List.mem_append_right _ ?_)
      rwa [waitingJobs, inv.shutdown_rest hsh, List.append_nil]
    · rwa [hpayload, htarget]

theorem Attainable.submitOr {thread : Thread} {a : SubmitArgs U} {allocated : Bool} {rc : ℤ}
    (h : p.Attainable solves) (inv : Inv solves p) (ha : ∃ nonce, solves a.payload a.target nonce = true)
    (hsub : p.submitOr thread a allocated = some (rc, q)) : q.Attainable solves := by
  rcases submitOr_eq_some hsub with ⟨-, rfl⟩ | ⟨hsub, -⟩
  · exact h
  · exact h.submit inv ha hsub

theorem Attainable.step {l : PowLabel U} (h : p.Attainable solves) (inv : Inv solves p)
    (ha : ∀ thread a, l = .submit thread a → ∃ nonce, solves a.payload a.target nonce = true)
    (hstep : PowSys.step solves p l = some q) : q.Attainable solves := by
  by_cases hl : ∀ thread a, l ≠ .submit thread a
  · intro j hj
    refine h j ?_
    rw [undoneJobs_step inv hstep hl]
    exact List.mem_append_right _ hj
  · push Not at hl
    obtain ⟨thread, a, rfl⟩ := hl
    exact h.submit inv (ha thread a rfl) hstep

end PowSys

namespace SendProcess

variable {H : Hashes} {s t : PipelineSys} {p : SendProcess}

/-- What holds in every state of a process that was not killed. -/
structure Sound (H : Hashes) (s : PipelineSys) : Prop where
  inv : s.Inv H
  doneFirst : s.DoneFirst
  attainable : s.pow.Attainable (powSolves H)

/-- What an action does to the queue: nothing, a submission, or a step of the queue's own. -/
def QueueMove (H : Hashes) (s : PipelineSys) (l : PipelineLabel) (pow : PowSys (Option StageJob)) : Prop :=
  pow = s.pow ∨
  (∃ thread a allocated rc, s.submits l = some (a.payload, a.target) ∧
    s.pow.submitOr thread a allocated = some (rc, pow)) ∨
  ∃ k allocated, l = .pow k allocated ∧ PowSys.step (powSolves H) s.pow k = some pow

theorem queueMove_doneStep {r : Runner} {a : DoneAction} (hstep : s.doneStep H r a = some t) :
    QueueMove H s (.done r a) t.pow := by
  cases a with
  | ackPowDone payload allocated =>
    simp only [PipelineSys.doneStep] at hstep
    split at hstep
    · next call job object payload hpc =>
      cases r with
      | shutdown => cases hstep
      | caller m =>
        cases hstep
        exact .inl rfl
      | worker =>
        obtain ⟨⟨rc, pow⟩, hsub, rfl⟩ := Option.map_eq_some_iff.mp hstep
        refine .inr (.inl ⟨_, _, allocated, rc, ?_, hsub⟩)
        simp only [PipelineSys.submits, hpc]
        rfl
    · cases hstep
      exact .inl rfl
    · cases hstep
  | msgPowDone stored now =>
    simp only [PipelineSys.doneStep] at hstep
    split at hstep
    · split at hstep
      · cases hstep
        exact .inl rfl
      · cases hstep
        exact .inl rfl
    · cases hstep
  | callDone =>
    simp only [PipelineSys.doneStep] at hstep
    split at hstep
    · cases hstep
      exact .inl rfl
    · cases hstep
      exact .inl rfl
    · cases hstep
      exact .inl rfl
    · cases hstep

theorem queueMove_step {l : PipelineLabel} (hstep : s.step H l = some t) : QueueMove H s l t.pow := by
  cases l with
  | call thread queued c allocated =>
    simp only [PipelineSys.step, PipelineSys.call] at hstep
    split at hstep
    · cases hstep
      exact .inl rfl
    · next a ha =>
      split at hstep
      · next hqueued =>
        obtain ⟨⟨rc, pow⟩, hsub, rfl⟩ := Option.map_eq_some_iff.mp hstep
        refine .inr (.inl ⟨_, _, allocated, rc, ?_, hsub⟩)
        rw [hqueued, PipelineSys.submits, ha, Option.map_some]
        rfl
      · cases hstep
        exact .inl rfl
  | callerMined call nonce allocated =>
    simp only [PipelineSys.step, PipelineSys.callerMined] at hstep
    split at hstep
    · split at hstep
      · cases hstep
        cases allocated with
        | true => exact .inl rfl
        | false => exact .inl rfl
      · cases hstep
    · cases hstep
  | callerReturn call =>
    simp only [PipelineSys.step, PipelineSys.callerReturn] at hstep
    split at hstep
    · cases hstep
      exact .inl rfl
    · cases hstep
  | done r a => exact queueMove_doneStep hstep
  | pow k allocated =>
    obtain ⟨pow, -, hpow, htpow, -⟩ := PipelineSys.powStep_cases hstep
    rw [htpow]
    exact .inr (.inr ⟨k, allocated, rfl, hpow⟩)
  | database sent inbox =>
    cases hstep
    exact .inl rfl

theorem attainable_step (h : s.pow.Attainable (powSolves H)) (inv : s.Inv H) {l : PipelineLabel}
    (hl : (running s).Minable H l) (hstep : s.step H l = some t) : t.pow.Attainable (powSolves H) := by
  rcases queueMove_step hstep with hsame | ⟨thread, a, allocated, rc, hsubmits, hsub⟩ | ⟨k, allocated, rfl, hpow⟩
  · rw [hsame]
    exact h
  · exact h.submitOr inv.pow (hl.2 _ _ hsubmits) hsub
  · refine h.step inv.pow ?_ hpow
    rintro thread a rfl
    exact hl.2 _ _ rfl

theorem Sound.step (h : Sound H s) {l : PipelineLabel} (hl : (running s).Minable H l) (hstep : s.step H l = some t) :
    Sound H t :=
  ⟨PipelineSys.step_inv s l t h.inv hstep, h.doneFirst.step h.inv hstep, attainable_step h.attainable h.inv hl hstep⟩

theorem sound_init (maxPending : ℕ) (hm : maxPending < wordSize) : Sound H (PipelineSys.init maxPending hm) where
  inv := PipelineSys.init_inv maxPending hm
  doneFirst := by simp [PipelineSys.DoneFirst, PipelineSys.init]
  attainable := by
    simp [PowSys.Attainable, PipelineSys.init, PowSys.init, powQueueInit, PowSys.undoneJobs, PowSys.waitingJobs,
      WorkerPc.undone, ShutdownPc.rest]

/-- A minable action is the action of the pipeline. -/
theorem step_running {l : PipelineLabel} (hl : (running s).Minable H l) :
    (running s).step H l = (s.step H l).map running := by
  simp only [SendProcess.step, hl.1]
  rfl

/-- A process whose actions are minable goes on running, and stays sound. -/
theorem run_running (h : Sound H s) {ls : List PipelineLabel} (hls : Along (step H) (Minable H) (running s) ls)
    (hrun : run (step H) (running s) ls = some p) :
    ∃ t, p = running t ∧ run (PipelineSys.step H) s ls = some t ∧ Sound H t := by
  induction ls generalizing s with
  | nil =>
    cases hrun
    exact ⟨s, rfl, rfl, h⟩
  | cons l ls ih =>
    obtain ⟨hl, hrest⟩ := hls
    obtain ⟨u, hu, hp⟩ := run_cons hrun
    have hstep := hu
    rw [step_running hl] at hstep
    obtain ⟨v, hv, rfl⟩ := Option.map_eq_some_iff.mp hstep
    obtain ⟨t, ht, hvt, hsound⟩ := ih (h.step hl hv) (hrest _ hu) hp
    exact ⟨t, ht, by rw [run_cons_of hv, hvt], hsound⟩

/-- While a call is on its way, the worker or the thread that shuts the queue down can act. -/
theorem Sound.enabled (h : Sound H s) {n k : ℕ} (hwithin : s.Within n k) :
    ∃ l : PipelineLabel, l.isSystem = true ∧ (running s).Minable H l ∧ ((running s).step H l).isSome = true := by
  have hdone : ∀ r, (∀ m, r ≠ .caller m) → ∀ job, (s.pcs r).job? = some job →
      ∃ l : PipelineLabel, l.isSystem = true ∧ (running s).Minable H l ∧ ((running s).step H l).isSome = true := by
    intro r hr job hjob
    obtain ⟨a, ha, henabled⟩ := PipelineSys.doneStep_enabled h.inv hr hjob
    have hminable : (running s).Minable H (.done r a) := by
      cases a with
      | ackPowDone payload allocated =>
        cases payload with
        | none => exact ⟨rfl, fun _ _ hsub => by cases r <;> cases hsub⟩
        | some payload => exact absurd rfl (ha payload allocated)
      | msgPowDone stored now => exact ⟨rfl, fun _ _ hsub => by cases r <;> cases hsub⟩
      | callDone => exact ⟨rfl, fun _ _ hsub => by cases r <;> cases hsub⟩
    refine ⟨.done r a, ?_, hminable, ?_⟩
    · cases r with
      | caller m => exact absurd rfl (hr m)
      | _ => rfl
    · rw [step_running hminable, Option.isSome_map]
      exact henabled
  cases hworker : (s.pcs .worker).job? with
  | some job => exact hdone .worker (by simp) job hworker
  | none =>
    cases hshutdown : (s.pcs .shutdown).job? with
    | some job => exact hdone .shutdown (by simp) job hshutdown
    | none =>
      rcases hwithin with ⟨j, hj, -⟩ | ⟨r, job, hr, hjob, -⟩
      · have hsolve : ∀ j, s.pow.worker = .mining j → ∃ nonce, powSolves H j.payload j.target nonce = true := by
          intro j hw
          refine h.attainable j (List.mem_append_left _ ?_)
          rw [hw]
          exact List.mem_singleton_self j
        obtain ⟨l, hl, henabled⟩ := PowSys.system_enabled hsolve h.inv.pow (List.ne_nil_of_mem hj)
        have hallowed : s.allowed l = true := by
          cases l with
          | submit thread a => cases hl
          | _ => simp [PipelineSys.allowed, hworker, hshutdown]
        have hminable : (running s).Minable H (.pow l true) := by
          refine ⟨rfl, fun _ _ hsub => ?_⟩
          cases l with
          | submit thread a => cases hl
          | _ => cases hsub
        refine ⟨.pow l true, hl, hminable, ?_⟩
        rw [step_running hminable, Option.isSome_map]
        simpa [PipelineSys.step, PipelineSys.powStep, hallowed] using henabled
      · cases r with
        | caller m => exact absurd rfl (hr m)
        | worker => cases hworker.symm.trans hjob
        | shutdown => cases hshutdown.symm.trans hjob

/-! ### The contract -/

variable (H) in
/-- The `done` of the call is called exactly once: never twice, and certainly once the worker and the
thread that shuts the queue down have taken enough actions; until then one of them has an action to
take. -/
def CompletedOnce (s : PipelineSys) (n : ℕ) : Prop :=
  s.completions n ≤ 1 ∧
  (s.completions n = 0 →
    ∃ l : PipelineLabel, l.isSystem = true ∧ (running s).Minable H l ∧ ((running s).step H l).isSome = true) ∧
  ∃ k, ∀ ls p, Along (step H) (Minable H) (running s) ls → run (step H) (running s) ls = some p →
    k ≤ ls.countP PipelineLabel.isSystem → p.pipeline.completions n = 1

theorem Sound.completedOnce (h : Sound H s) {n : ℕ} (hreturned : SendEvent.returned n 0 ∈ s.log) :
    CompletedOnce H s n := by
  have hone : ∀ ls p, Along (SendProcess.step H) (Minable H) (running s) ls →
      run (SendProcess.step H) (running s) ls = some p → ∃ t, p.pipeline = t ∧
        run (PipelineSys.step H) s ls = some t ∧ (0 < t.completions n → t.completions n = 1) := by
    intro ls p hls hrun
    obtain ⟨t, rfl, ht, hsound⟩ := run_running h hls hrun
    exact ⟨t, rfl, ht, fun hpos => le_antisymm (hsound.inv.completions_le n) hpos⟩
  refine ⟨h.inv.completions_le n, ?_, ?_⟩
  · intro hzero
    obtain ⟨k, hwithin⟩ := h.inv.within hreturned hzero
    exact h.enabled hwithin
  · by_cases hzero : s.completions n = 0
    · obtain ⟨k, hwithin⟩ := h.inv.within hreturned hzero
      refine ⟨k + 1, fun ls p hls hrun hk => ?_⟩
      obtain ⟨t, rfl, ht, honce⟩ := hone ls p hls hrun
      exact honce (hwithin.run h.inv ht hk)
    · refine ⟨0, fun ls p hls hrun _ => ?_⟩
      obtain ⟨t, rfl, ht, honce⟩ := hone ls p hls hrun
      exact honce (lt_of_lt_of_le (Nat.pos_of_ne_zero hzero) (PipelineSys.run_completions_le ht n))

/-- In every interleaving of calls, queue, shutdown and database in which no target divides by zero and every
job of the queue has a nonce, the process goes on, and: the `done` of a call that returns 0 is called exactly
once and that of a refused call never, with an object or an error; and when it is called with the object of a
message, the row of the message has been written before. -/
theorem send_completes_once (H : Hashes) (maxPending : ℕ) (hm : maxPending < wordSize) (ls : List PipelineLabel)
    (p : SendProcess) (hls : Along (step H) (Minable H) (running (PipelineSys.init maxPending hm)) ls)
    (h : run (step H) (running (PipelineSys.init maxPending hm)) ls = some p) :
    ∃ s, p = running s ∧
      (∀ n, SendEvent.returned n 0 ∈ s.log → CompletedOnce H s n) ∧
      (∀ n rc, SendEvent.returned n rc ∈ s.log → rc ≠ 0 → s.completions n = 0) ∧
      (∀ n rc object, SendEvent.done n rc object ∈ s.log →
        (rc = 0 ∧ object.isSome = true) ∨ (rc = -1 ∧ object = none)) ∧
      (∀ n t, s.step H (.callerReturn n) = some t → t.completions n = 1) ∧
      PipelineSys.RowsFirst s.calls s.log ∧
      (∀ l t n row, s.step H l = some t → t.log = s.log ++ [.wrote n row] →
        t.sent = messagesStoreInsertSent s.sent row) := by
  obtain ⟨s, rfl, -, hsound⟩ := run_running (sound_init maxPending hm) hls h
  refine ⟨s, rfl, fun n hn => hsound.completedOnce hn, fun n rc hn hrc => ?_, hsound.inv.done_result,
    fun n t hstep => ?_, hsound.inv.rows_first, ?_⟩
  · have hrefused : 0 < s.log.countP (PipelineSys.isRefusal n) :=
      List.countP_pos_iff.mpr ⟨_, hn, by simp [PipelineSys.isRefusal, hrc]⟩
    have htally := hsound.inv.returned_tally hn
    omega
  · have hpos : 0 < s.completions n := by
      simp only [PipelineSys.step, PipelineSys.callerReturn] at hstep
      split at hstep
      · next hpc => exact hsound.doneFirst n hpc
      · cases hstep
    have hle := (PipelineSys.step_inv s _ t hsound.inv hstep).completions_le n
    have := (PipelineSys.extends_step hstep).completions_le n
    omega
  · intro l t n row hstep hlog
    obtain ⟨es, hes, hwrote⟩ := PipelineSys.extends_step hstep
    rw [hes] at hlog
    refine hwrote n row ?_
    rw [List.append_cancel_left hlog]
    exact List.mem_singleton_self _

/-! ### A letter and its twin -/

/-- A message to somebody else, with the trials per byte that are required for it. -/
def letter (requiredNonceTrials : ℕ) : PipelineCall :=
  .message ⟨[1], [2], [], [], 172800, 1, List.replicate 32 7, 0, 0⟩
    (some ⟨false, 1, requiredNonceTrials, 1000, one_lt_wordSize⟩) (some (List.replicate 32 1))

/-- The message is sent, and sent again while it is under way; then the worker mines the acknowledgement and
builds the message. -/
def letterTrace (requiredNonceTrials : ℕ) : List PipelineLabel :=
  [.call (.other 0) true (letter requiredNonceTrials) true, .call (.other 1) true (letter requiredNonceTrials) true,
    .pow .take true, .pow (.mined 0) true, .done .worker (.ackPowDone (some [1]) true)]

/-- The rest of the work. -/
def letterDone : List PipelineLabel :=
  [.pow .finish true, .pow .take true, .pow (.mined 0) true, .done .worker (.msgPowDone true 5),
    .done .worker .callDone]

/-- What a call returned. -/
def result : SendEvent → Option (ℕ × ℤ)
  | .returned n rc => some (n, rc)
  | _ => none

theorem mem_of_result {log : List SendEvent} {n : ℕ} {rc : ℤ} (h : (n, rc) ∈ log.filterMap result) :
    SendEvent.returned n rc ∈ log := by
  obtain ⟨e, he, hresult⟩ := List.mem_filterMap.mp h
  cases e with
  | returned m rc' =>
    cases hresult
    exact he
  | _ => cases hresult

/-- Under these hashes every job has a nonce. -/
theorem minable_prefixHashes (p : SendProcess) (l : PipelineLabel)
    (h : p.pipeline.dividesByZero l = false) : p.Minable prefixHashes l := by
  cases p with
  | running s => exact ⟨h, fun payload target _ => ⟨0, powSolves_prefixHashes_zero payload target⟩⟩
  | killed s => trivial

theorem letter_completes_once :
    ∃ s, run (step prefixHashes) (running (PipelineSys.init 2 (by decide))) (letterTrace 1000 ++ letterDone) =
        some (running s) ∧
      SendEvent.returned 0 0 ∈ s.log ∧ SendEvent.returned 1 1 ∈ s.log ∧ CompletedOnce prefixHashes s 0 ∧
      s.completions 0 = 1 ∧ s.completions 1 = 0 := by
  have hrun : (run (step prefixHashes) (running (PipelineSys.init 2 (by decide))) (letterTrace 1000 ++ letterDone)).map
      (fun p => (p.pipeline.log.filterMap result, p.pipeline.completions 0)) = some ([(0, 0), (1, 1)], 1) := by
    decide +kernel
  have hls : Along (step prefixHashes) (fun p l => p.pipeline.dividesByZero l = false)
      (running (PipelineSys.init 2 (by decide))) (letterTrace 1000 ++ letterDone) := by
    decide +kernel
  obtain ⟨p, hp, he⟩ := Option.map_eq_some_iff.mp hrun
  obtain ⟨hresults, hone⟩ := Prod.mk.inj he
  obtain ⟨s, rfl, haccepted, hrefused, -⟩ := send_completes_once prefixHashes 2 (by decide)
    (letterTrace 1000 ++ letterDone) p (hls.imp minable_prefixHashes) hp
  have hlog : s.log.filterMap result = [(0, 0), (1, 1)] := hresults
  have hfirst : SendEvent.returned 0 0 ∈ s.log := mem_of_result (by rw [hlog]; decide)
  have hsecond : SendEvent.returned 1 1 ∈ s.log := mem_of_result (by rw [hlog]; decide)
  exact ⟨s, hp, hfirst, hsecond, haccepted 0 hfirst, hone, hrefused 1 1 hsecond (by decide)⟩

/-- A process that was killed does nothing more. -/
theorem run_killed {ls : List PipelineLabel} (h : run (step H) (killed s) ls = some p) : p = killed s := by
  cases ls with
  | nil =>
    cases h
    rfl
  | cons l ls =>
    obtain ⟨u, hu, -⟩ := run_cons h
    cases hu

/-- The call has returned 0; the message requires no trials, so the process is killed when the message is built,
and the `done` of the call is never called. -/
theorem letter_kills :
    ∃ p, run (step prefixHashes) (running (PipelineSys.init 2 (by decide))) (letterTrace 0) = some p ∧
      SendEvent.returned 0 0 ∈ p.pipeline.log ∧
      ∀ ls q, run (step prefixHashes) p ls = some q → q.pipeline.completions 0 = 0 := by
  have hrun : (run (step prefixHashes) (running (PipelineSys.init 2 (by decide))) (letterTrace 0)).map
      (fun p => (p.pipeline.log.filterMap result, p.pipeline.completions 0, p.isKilled)) =
        some ([(0, 0), (1, 1)], 0, true) := by
    decide +kernel
  obtain ⟨p, hp, he⟩ := Option.map_eq_some_iff.mp hrun
  simp only [Prod.mk.injEq] at he
  obtain ⟨hresults, hcompletions, hkilled⟩ := he
  cases p with
  | running s => cases hkilled
  | killed s =>
    refine ⟨killed s, hp, mem_of_result (by rw [hresults]; exact List.mem_cons_self), fun ls q hq => ?_⟩
    rw [run_killed hq]
    exact hcompletions

end SendProcess

end Bitmessage
