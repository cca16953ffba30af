import Bitmessage.Infra.Outbox

/-! The threads refine the outbox. The pending sends are those of the job that the worker
mines or whose `done` it has entered, followed by those of the waiting jobs; the keys
of the queue keep two sends of one message apart. Every step of the threads is a step
of the outbox, so what every step of the outbox keeps holds in every run. -/

namespace Bitmessage

namespace SendSys

variable {H : Hashes} {s t : SendSys}

/-- The job of the worker, as long as its `done` has not got anywhere. -/
def workerPending (s : SendSys) : List (PowJob (Ticket SendTask)) :=
  match s.pow.worker, s.donePc with
  | .mining j, _ | .inDone j, .called _ => [j]
  | _, _ => []

/-- The send that has written its row and not yet transmitted. -/
def stored? (s : SendSys) : Option SendMsgJob :=
  match s.donePc, s.task? with
  | .stored _, some (.msg job) => some job
  | _, _ => none

def outbox (s : SendSys) : Outbox where
  pending := (s.workerPending ++ s.pow.queue.jobs.toList).filterMap fun j => j.userData.data.job?
  stored := s.stored?
  net := s.net
  sent := s.sent
  submissions := s.submissions
  completions := s.completions
  transmissions := s.transmissions

/-- What the step does to the outbox. -/
def effect (s : SendSys) (l : SendLabel) : SendEffect :=
  match s.completing l, s.resending l, l with
  | some job, _, _ => .completes job
  | none, some (c, job), _ => .resends c job
  | none, none, .trash msgId => .trashes msgId
  | none, none, _ => .internal

/-- All jobs in the queue and with the worker. -/
def held (s : SendSys) : List (PowJob (Ticket SendTask)) := s.pow.worker.job?.toList ++ s.pow.queue.jobs.toList

/-- A job belongs to its task. -/
def TaskOk (H : Hashes) (j : PowJob (Ticket SendTask)) : Prop :=
  match j.userData.data with
  | .ack job => j.key = sendKey job.msgId ∧ job.isSelf = false ∧
      ∃ data, ackRandomPart job.ackStealthLevel data = true ∧ j.payload = (job.ackArgs data).payload ∧
        j.target = (job.ackArgs data).target
  | .msg job => j.key = sendKey job.msgId ∧
      (job.isSelf = false → ∃ ack, job.ackData = some ack ∧ MinedAck H job ack)
  | .other => j.key.head? ≠ some 0x53

variable (H) in
structure Inv (s : SendSys) : Prop where
  pow : PowSys.Inv (powSolves H) s.pow
  tasks : ∀ j ∈ s.held, TaskOk H j
  called : ∀ object, s.donePc = .called (some object) → ∃ j nonce, s.pow.worker = .inDone j ∧
    object = buildObject j.payload nonce ∧ powSolves H j.payload j.target nonce = true

theorem init_inv (maxPending : ℕ) (h : maxPending < wordSize) : Inv H (init maxPending h) where
  pow := PowSys.init_inv maxPending h
  tasks := by simp [held, init, PowSys.init, powQueueInit, WorkerPc.job?]
  called := nofun

theorem task?_eq_some {task : SendTask} (h : s.task? = some task) :
    ∃ j, s.pow.worker = .inDone j ∧ j.userData.data = task := by
  unfold task? at h
  split at h
  · next j hw => exact ⟨j, hw, Option.some.inj h⟩
  · cases h

/-! ### Submissions -/

/-- A submission that the queue answers with zero appends one job. -/
theorem submit_of_lastRc {p q : PowSys SendTask} {thread : Thread} {a : SubmitArgs SendTask}
    (h : p.submit thread a = some q) :
    q.worker = p.worker ∧ q.queue.running = p.queue.running ∧
      (q.lastRc ≠ 0 ∧ q.queue.jobs.toList = p.queue.jobs.toList ∨
      q.lastRc = 0 ∧ ∃ j, j.payload = a.payload ∧ j.target = a.target ∧ j.key = a.key.getD [] ∧
        j.userData.data = a.userData ∧
        (j.key ≠ [] → keyInFlight p.queue (decide (thread = .worker)) j.key = false) ∧
        q.queue.jobs.toList = p.queue.jobs.toList ++ [j]) := by
  rcases PowSys.submit_cases h with ⟨rc, hrc, rfl⟩ | ⟨j, -, hp, ht, hk, hd, -, -, -, hkey, rfl⟩
  · exact ⟨rfl, rfl, .inl ⟨by simpa [PowSys.lastRc] using hrc, rfl⟩⟩
  · exact ⟨rfl, rfl, .inr ⟨by simp [PowSys.lastRc], j, hp, ht, hk, hd, hkey, by simp⟩⟩

theorem accepted?_eq_some {thread : ℕ} {request : SendRequest} {recipient : Option Recipient} {built : Option Bytes}
    {job : SendMsgJob} {pow : PowSys SendTask} (h : s.accepted? thread request recipient built = some (job, pow)) :
    ∃ args, sendMessageAsync request recipient built (s.sent.find? request.msgId) = some (job, args) ∧
      s.pow.submit (.other thread) args = some pow ∧ pow.lastRc = 0 := by
  simp only [accepted?, Option.bind_eq_some_iff] at h
  obtain ⟨⟨job', args⟩, hr, pow', hsub, h⟩ := h
  split at h
  · next hrc =>
    cases h
    exact ⟨args, hr, hsub, hrc⟩
  · cases h

/-- The stages of a job carry its key and its identifier. -/
theorem taskOk_of_args {request : SendRequest} {recipient : Option Recipient} {built : Option Bytes}
    {row : Option SentRow} {job : SendMsgJob} {args : SubmitArgs SendTask} {j : PowJob (Ticket SendTask)}
    (h : sendMessageAsync request recipient built row = some (job, args)) (hp : j.payload = args.payload)
    (ht : j.target = args.target) (hk : j.key = args.key.getD []) (hd : j.userData.data = args.userData) :
    TaskOk H j ∧ j.userData.data.job? = some job ∧ j.key = sendKey job.msgId := by
  obtain ⟨-, -, -, ⟨hself, payload, rfl⟩ | ⟨hself, data, hrandom, rfl⟩⟩ := sendMessageAsync_eq_some h
  · refine ⟨?_, by rw [hd]; rfl, hk⟩
    rw [TaskOk, hd]
    exact ⟨hk, fun hn => by rw [hself] at hn; cases hn⟩
  · refine ⟨?_, by rw [hd]; rfl, hk⟩
    rw [TaskOk, hd]
    exact ⟨hk, hself, data, hrandom, hp, ht⟩

/-- A send under way is held under its key. -/
theorem Inv.live_key (inv : Inv H s) {job : SendMsgJob} (h : job ∈ s.outbox.live) :
    ∃ j ∈ s.held, j.key = sendKey job.msgId := by
  have hheld : ∀ {j : PowJob (Ticket SendTask)}, j ∈ s.held → j.userData.data.job? = some job →
      ∃ j ∈ s.held, j.key = sendKey job.msgId := by
    intro j hj hd
    have hok := inv.tasks j hj
    unfold TaskOk at hok
    unfold SendTask.job? at hd
    split at hok <;> simp_all only [reduceCtorEq, Option.some.injEq]
    · exact ⟨j, hj, hok.1⟩
    · exact ⟨j, hj, hok.1⟩
  rcases List.mem_append.mp h with h | h
  · have hs : s.stored? = some job := Option.mem_toList.mp h
    unfold stored? at hs
    split at hs
    · next hdone htask =>
      cases hs
      obtain ⟨j, hw, hd⟩ := task?_eq_some htask
      exact hheld (j := j) (by simp [held, hw, WorkerPc.job?]) (by rw [hd]; rfl)
    · cases hs
  · obtain ⟨j, hj, hd⟩ := List.mem_filterMap.mp h
    refine hheld (j := j) ?_ hd
    rcases List.mem_append.mp hj with hj | hj
    · refine List.mem_append_left _ ?_
      unfold workerPending at hj
      split at hj <;> simp_all [WorkerPc.job?]
    · exact List.mem_append_right _ hj

/-- A key that is not in flight belongs to no send under way. -/
theorem Inv.fresh_of_keyInFlight (inv : Inv H s) {m : Bytes} (h : keyInFlight s.pow.queue false (sendKey m) = false)
    {x : SendMsgJob} (hx : x ∈ s.outbox.live) : x.msgId ≠ m := by
  obtain ⟨j, hj, hkey⟩ := inv.live_key hx
  obtain ⟨hjobs, hrunning⟩ := keyInFlight_eq_false h
  intro he
  rw [he] at hkey
  rcases List.mem_append.mp hj with hj | hj
  · have : s.pow.queue.running = some j := by
      rw [inv.pow.running_eq]
      simpa using hj
    exact hrunning rfl j this hkey
  · exact hjobs j hj hkey

/-- An accepted send enters the outbox at the end. -/
theorem Inv.accepted (inv : Inv H s) {thread : ℕ} {request : SendRequest} {recipient : Option Recipient}
    {built : Option Bytes} {job : SendMsgJob} {pow : PowSys SendTask}
    (h : s.accepted? thread request recipient built = some (job, pow)) (hnow : request.now ≤ request.nextResendTime) :
    job.toSendRequest = request ∧ s.outbox.Submittable job ∧
      outbox { s with pow := pow, submissions := s.submissions ++ [job] } = s.outbox.submit job ∧
      Inv H { s with pow := pow, submissions := s.submissions ++ [job] } := by
  obtain ⟨args, hargs, hsub, hrc⟩ := accepted?_eq_some h
  obtain ⟨hreq, -, hrow, -⟩ := sendMessageAsync_eq_some hargs
  obtain ⟨hworker, hrunning, hjobs⟩ := submit_of_lastRc hsub
  obtain ⟨j, hp, ht, hk, hd, hkey, hjobs⟩ := (hjobs.resolve_left fun h => h.1 hrc).2
  obtain ⟨hok, hjob, hjk⟩ := taskOk_of_args (H := H) hargs hp ht hk hd
  refine ⟨hreq, ⟨?_, ?_, ?_⟩, ?_, ?_, ?_, ?_⟩
  · intro x hx
    refine inv.fresh_of_keyInFlight ?_ hx
    rw [← hjk]
    exact hkey (by rw [hjk]; exact List.cons_ne_nil _ _)
  · rw [hrow, ← hreq]
    rfl
  · rw [hreq]
    exact hnow
  · have hwp : workerPending { s with pow := pow, submissions := s.submissions ++ [job] } = s.workerPending := by
      simp only [workerPending, hworker]
    have hst : stored? { s with pow := pow, submissions := s.submissions ++ [job] } = s.stored? := by
      simp only [stored?, task?, hworker]
    simp only [outbox, hwp, hst, hjobs, Outbox.submit, ← List.append_assoc]
    simp [hjob]
  · exact PowSys.step_inv s.pow (.submit (.other thread) args) pow inv.pow hsub
  · intro i hi
    simp only [held, hworker, hjobs, ← List.append_assoc] at hi
    rcases List.mem_append.mp hi with hi | hi
    · exact inv.tasks i hi
    · rwa [List.mem_singleton.mp hi]
  · intro object hobject
    obtain ⟨i, nonce, hw, hrest⟩ := inv.called object hobject
    exact ⟨i, nonce, hworker.trans hw, hrest⟩

/-! ### The actions of the queue -/

/-- A step of the queue and its worker that only loses sends. -/
structure Frame (H : Hashes) (s t : SendSys) : Prop where
  inv : Inv H t
  outbox_eq : t.outbox = { s.outbox with pending := t.outbox.pending }
  pending_sub : t.outbox.pending.Sublist s.outbox.pending

theorem Frame.step (h : Frame H s t) : Outbox.Step H s.outbox .internal t.outbox := by
  rw [h.outbox_eq]
  exact .drop _ h.pending_sub

/-- The parts of a frame for a new state of the queue and of the worker. -/
theorem frame_of {p : PowSys SendTask} {d : DonePc} (hpow : PowSys.Inv (powSolves H) p)
    (htasks : ∀ j ∈ held { s with pow := p, donePc := d }, TaskOk H j)
    (hcalled : ∀ object, d = .called (some object) → ∃ j nonce, p.worker = .inDone j ∧
      object = buildObject j.payload nonce ∧ powSolves H j.payload j.target nonce = true)
    (hstored : stored? { s with pow := p, donePc := d } = s.stored?)
    (hsub : (outbox { s with pow := p, donePc := d }).pending.Sublist s.outbox.pending) :
    Frame H s { s with pow := p, donePc := d } where
  inv := ⟨hpow, htasks, hcalled⟩
  outbox_eq := by simp only [outbox, hstored]
  pending_sub := hsub

section

variable {p : PowSys SendTask} (inv : Inv H s)

include inv

/-- What the worker and the queue look like is unchanged. -/
theorem Inv.frame_same (hpow : PowSys.Inv (powSolves H) p) (hw : p.worker = s.pow.worker)
    (hq : p.queue.jobs.toList = s.pow.queue.jobs.toList) : Frame H s { s with pow := p } := by
  refine frame_of hpow ?_ ?_ ?_ ?_
  · intro j hj
    simp only [held, hw, hq] at hj
    exact inv.tasks j hj
  · intro object hobject
    rw [hw]
    exact inv.called object hobject
  · simp only [stored?, task?, hw]
  · simp only [outbox, workerPending, hw, hq]
    exact List.Sublist.refl _

theorem Inv.frame_otherSubmit {n : ℕ} {a : SubmitArgs SendTask} (h : s.pow.submit (.other n) a = some p)
    (hd : a.userData = .other) (hk : (a.key.getD []).head? ≠ some 0x53) : Frame H s { s with pow := p } := by
  have hpow := PowSys.step_inv s.pow (.submit (.other n) a) p inv.pow h
  obtain ⟨hw, -, ⟨-, hq⟩ | ⟨-, j, -, -, hkey, hdata, -, hq⟩⟩ := submit_of_lastRc h
  · exact inv.frame_same hpow hw hq
  · rw [hd] at hdata
    refine frame_of hpow ?_ ?_ ?_ ?_
    · intro i hi
      simp only [held, hw, hq, ← List.append_assoc] at hi
      rcases List.mem_append.mp hi with hi | hi
      · exact inv.tasks i hi
      · obtain rfl := List.mem_singleton.mp hi
        rw [TaskOk, hdata]
        exact hkey ▸ hk
    · intro object hobject
      rw [hw]
      exact inv.called object hobject
    · simp only [stored?, task?, hw]
    · simp only [outbox, workerPending, hw, hq]
      rw [← List.append_assoc, List.filterMap_append]
      simp [hdata, SendTask.job?]

theorem Inv.frame_take (h : s.pow.take = some p) : Frame H s { s with pow := p } := by
  have hpow := PowSys.step_inv s.pow .take p inv.pow h
  obtain ⟨j, q, hw, -, hl, rfl⟩ := PowSys.take_cases h
  refine frame_of hpow ?_ ?_ ?_ ?_
  · intro i hi
    refine inv.tasks i (List.mem_append_right _ ?_)
    rw [hl]
    simpa [held, WorkerPc.job?] using hi
  · intro object hobject
    obtain ⟨i, nonce, hi, -⟩ := inv.called object hobject
    rw [hw] at hi
    cases hi
  · simp only [stored?, task?, hw]
  · simp [outbox, workerPending, hw, hl]

theorem Inv.frame_mined {nonce : ℕ} {j : PowJob (Ticket SendTask)} (hj : s.pow.worker = .mining j)
    (h : s.pow.mined (powSolves H) nonce = some p) :
    Frame H s { s with pow := p, donePc := .called (some (buildObject j.payload nonce)) } := by
  have hpow := PowSys.step_inv s.pow (.mined nonce) p inv.pow h
  obtain ⟨i, hw, hsolves, rfl⟩ := PowSys.mined_cases h
  rw [hj] at hw
  cases hw
  refine frame_of hpow ?_ ?_ ?_ ?_
  · intro i hi
    refine inv.tasks i ?_
    simpa [held, WorkerPc.job?, hj] using hi
  · rintro _ ⟨⟩
    exact ⟨j, nonce, rfl, rfl, hsolves⟩
  · simp only [stored?, task?, hj]
    split <;> simp_all
  · simp [outbox, workerPending, hj]

theorem Inv.frame_cancelled (h : s.pow.cancelled = some p) : Frame H s { s with pow := p, donePc := .called none } := by
  have hpow : PowSys.Inv (powSolves H) p := PowSys.step_inv s.pow .cancelled p inv.pow h
  obtain ⟨j, hj, -, rfl⟩ := PowSys.cancelled_cases h
  refine frame_of hpow ?_ nofun ?_ ?_
  · intro i hi
    refine inv.tasks i ?_
    simpa [held, WorkerPc.job?, hj] using hi
  · simp only [stored?, task?, hj]
    split <;> simp_all
  · simp [outbox, workerPending, hj]

theorem Inv.frame_finish (hd : s.donePc = .idle) (h : s.pow.finish = some p) : Frame H s { s with pow := p } := by
  have hpow : PowSys.Inv (powSolves H) p := PowSys.step_inv s.pow .finish p inv.pow h
  obtain ⟨j, hj, rfl⟩ := PowSys.finish_cases h
  refine frame_of hpow ?_ ?_ ?_ ?_
  · intro i hi
    refine inv.tasks i (List.mem_append_right _ ?_)
    simpa [held, WorkerPc.job?, powQueueFinish] using hi
  · intro object hobject
    rw [hd] at hobject
    cases hobject
  · simp only [stored?, hd]
  · simp [outbox, workerPending, hj, hd, powQueueFinish]

theorem Inv.frame_shutdown : Frame H s { s with pow := s.pow.shutdown } := by
  have hpow : PowSys.Inv (powSolves H) s.pow.shutdown := PowSys.step_inv s.pow .shutdown s.pow.shutdown inv.pow rfl
  rcases PowSys.shutdown_cases s.pow with ⟨he, -⟩ | ⟨-, he⟩
  · rw [he]
    exact inv.frame_same inv.pow rfl rfl
  · rw [he] at hpow ⊢
    refine frame_of hpow ?_ ?_ ?_ ?_
    · intro i hi
      refine inv.tasks i (List.mem_append_left _ ?_)
      simpa [held] using hi
    · exact inv.called
    · rfl
    · simp only [outbox, workerPending, LinkedQueue.toList_clear, List.append_nil]
      exact (List.sublist_append_left _ _).filterMap _

theorem Inv.frame_powStep {l : PowLabel SendTask} (h : s.powStep H l = some t) : Frame H s t := by
  unfold powStep at h
  split at h
  · split at h
    · next hd =>
      split at h
      · cases h
      · next hk =>
        obtain ⟨p, hp, rfl⟩ := Option.map_eq_some_iff.mp h
        exact inv.frame_otherSubmit hp hd hk
    · cases h
  · cases h
  · split at h
    · next hj =>
      obtain ⟨p, hp, rfl⟩ := Option.map_eq_some_iff.mp h
      exact inv.frame_mined hj hp
    · cases h
  · obtain ⟨p, hp, rfl⟩ := Option.map_eq_some_iff.mp h
    exact inv.frame_cancelled hp
  · split at h
    · next hd =>
      obtain ⟨p, hp, rfl⟩ := Option.map_eq_some_iff.mp h
      exact inv.frame_finish hd hp
    · cases h
  · obtain ⟨p, hp, rfl⟩ := Option.map_eq_some_iff.mp h
    exact inv.frame_take hp
  · obtain ⟨p, hp, rfl⟩ := Option.map_eq_some_iff.mp h
    have hpow : PowSys.Inv (powSolves H) p := PowSys.step_inv s.pow .exit p inv.pow hp
    obtain ⟨hw, -, rfl⟩ := PowSys.exit_cases hp
    refine frame_of hpow ?_ ?_ ?_ ?_
    · intro i hi
      refine inv.tasks i ?_
      simpa [held, WorkerPc.job?, hw] using hi
    · intro object hobject
      obtain ⟨i, nonce, hi, -⟩ := inv.called object hobject
      rw [hw] at hi
      cases hi
    · simp only [stored?, task?, hw]
    · simp [outbox, workerPending, hw]
  · cases h
    exact inv.frame_shutdown
  · obtain ⟨p, hp, rfl⟩ := Option.map_eq_some_iff.mp h
    have hpow : PowSys.Inv (powSolves H) p := PowSys.step_inv s.pow .join p inv.pow hp
    obtain ⟨l, -, -, rfl⟩ := PowSys.join_cases hp
    exact inv.frame_same hpow rfl rfl
  · obtain ⟨p, hp, rfl⟩ := Option.map_eq_some_iff.mp h
    have hpow : PowSys.Inv (powSolves H) p := PowSys.step_inv s.pow .discard p inv.pow hp
    obtain ⟨j, l, -, rfl⟩ := PowSys.discard_cases hp
    exact inv.frame_same hpow rfl rfl
  · obtain ⟨p, hp, rfl⟩ := Option.map_eq_some_iff.mp h
    have hpow : PowSys.Inv (powSolves H) p := PowSys.step_inv s.pow .shutdownReturn p inv.pow hp
    obtain ⟨-, rfl⟩ := PowSys.shutdownReturn_cases hp
    exact inv.frame_same hpow rfl rfl

end

/-! ### The `done` functions -/

/-- The job whose `done` has been entered, and the sends behind it. -/
theorem outbox_pending_of_called {object : Option Bytes} {task : SendTask} (hd : s.donePc = .called object)
    (ht : s.task? = some task) : s.outbox.pending =
      task.job?.toList ++ s.pow.queue.jobs.toList.filterMap fun j => j.userData.data.job? := by
  obtain ⟨j, hw, rfl⟩ := task?_eq_some ht
  simp only [outbox, workerPending, hw, hd, List.filterMap_append, List.filterMap_cons, List.filterMap_nil]
  cases j.userData.data.job? <;> rfl

theorem outbox_pending_of_idle (hd : s.donePc = .idle) (ht : s.task?.isSome = true) :
    s.outbox.pending = s.pow.queue.jobs.toList.filterMap fun j => j.userData.data.job? := by
  obtain ⟨task, ht⟩ := Option.isSome_iff_exists.mp ht
  obtain ⟨j, hw, -⟩ := task?_eq_some ht
  simp only [outbox, workerPending, hw, hd, List.nil_append]

theorem stored?_of_called {object : Option Bytes} (hd : s.donePc = .called object) : s.stored? = none := by
  simp only [stored?, hd]

/-- `done` gives up before it has done anything. -/
theorem Inv.giveUp (inv : Inv H s) {object : Option Bytes} (hd : s.donePc = .called object) :
    Frame H s { s with donePc := .idle } := by
  refine frame_of inv.pow inv.tasks nofun ?_ ?_
  · rw [stored?_of_called hd]
    rfl
  · refine List.Sublist.filterMap _ (List.Sublist.append_right ?_ _)
    cases hw : s.pow.worker <;> simp [workerPending, hw, hd]

/-- The task of the running `done` is the task of a held job. -/
theorem Inv.taskOk (inv : Inv H s) {j : PowJob (Ticket SendTask)} (hw : s.pow.worker = .inDone j) : TaskOk H j :=
  inv.tasks j (List.mem_append_left _ (by simp [hw, WorkerPc.job?]))

/-- The object in the hands of `ack_pow_done` is a mined acknowledgement of the job. -/
theorem Inv.minedAck (inv : Inv H s) {object : Bytes} {job : SendMsgJob} (hd : s.donePc = .called (some object))
    (ht : s.task? = some (.ack job)) : MinedAck H job object := by
  obtain ⟨j, hw, hdata⟩ := task?_eq_some ht
  obtain ⟨i, nonce, hi, rfl, hsolves⟩ := inv.called object hd
  rw [hw] at hi
  cases hi
  have hok := inv.taskOk hw
  rw [TaskOk, hdata] at hok
  obtain ⟨-, -, data, hrandom, hp, htarget⟩ := hok
  exact ⟨data, nonce, hrandom, by rw [hp]; rfl, by rw [← hp, ← htarget]; exact hsolves⟩

/-- The first stage hands over to the second. -/
theorem Inv.handOver (inv : Inv H s) {object payload : Bytes} {job : SendMsgJob} {p : PowSys SendTask}
    (hd : s.donePc = .called (some object)) (ht : s.task? = some (.ack job))
    (h : s.submitMsg { job with ackData := some object } payload = some p) :
    Inv H { s with pow := p, donePc := .idle } ∧
      Outbox.Step H s.outbox .internal (outbox { s with pow := p, donePc := .idle }) := by
  have hpow := PowSys.step_inv s.pow (.submit .worker _) p inv.pow h
  obtain ⟨hw, -, hjobs⟩ := submit_of_lastRc h
  have htask : (task? { s with pow := p, donePc := .idle }).isSome = true := by
    simp only [task?, hw] at ht ⊢
    rw [ht]
    rfl
  rcases hjobs with ⟨-, hq⟩ | ⟨-, j, -, -, hkey, hdata, -, hq⟩
  · have hframe : Frame H s { s with pow := p, donePc := .idle } := by
      refine frame_of hpow ?_ nofun ?_ ?_
      · intro i hi
        simp only [held, hw, hq] at hi
        exact inv.tasks i hi
      · rw [stored?_of_called hd]
        rfl
      · rw [outbox_pending_of_called hd ht, outbox_pending_of_idle rfl htask]
        simp only [hq]
        exact List.sublist_append_right _ _
    exact ⟨hframe.inv, hframe.step⟩
  · refine ⟨⟨hpow, ?_, nofun⟩, ?_⟩
    · intro i hi
      simp only [held, hw, hq, ← List.append_assoc] at hi
      rcases List.mem_append.mp hi with hi | hi
      · exact inv.tasks i hi
      · obtain rfl := List.mem_singleton.mp hi
        rw [TaskOk, hdata]
        have hmined : MinedAck H job object := inv.minedAck hd ht
        exact ⟨hkey, fun _ => ⟨object, rfl, hmined⟩⟩
    · have hpending := outbox_pending_of_called hd ht
      have hpending' : (outbox { s with pow := p, donePc := .idle }).pending =
          (s.pow.queue.jobs.toList.filterMap fun j => j.userData.data.job?) ++
            [{ job with ackData := some object }] := by
        rw [outbox_pending_of_idle rfl htask]
        simp [hq, hdata, SendMsgJob.msgArgs, SendTask.job?]
      have heq : outbox { s with pow := p, donePc := .idle } = { s.outbox with
          pending := (s.pow.queue.jobs.toList.filterMap fun j => j.userData.data.job?) ++
            [{ job with ackData := some object }] } := by
        rw [← hpending']
        simp only [outbox, stored?_of_called hd]
        rfl
      rw [heq]
      exact .handOver job _ object hpending

/-- The second stage writes the row. -/
theorem Inv.storeRow (inv : Inv H s) {object : Bytes} {job : SendMsgJob} (now : ℤ) (inbox : List InboxRow)
    (hd : s.donePc = .called (some object)) (ht : s.task? = some (.msg job)) :
    Outbox.Step H s.outbox (.completes job) (outbox { s with
      donePc := .stored object
      sent := messagesStoreInsertSent s.sent (job.sentRow now)
      inbox := inbox
      completions := s.completions ++ [job] }) := by
  obtain ⟨j, hw, hdata⟩ := task?_eq_some ht
  have hok := inv.taskOk hw
  rw [TaskOk, hdata] at hok
  have hstep : Outbox.Step H s.outbox (.completes job) _ :=
    .complete job _ now (outbox_pending_of_called hd ht) (stored?_of_called hd) hok.2
  refine cast (congrArg _ ?_) hstep
  simp [outbox, workerPending, stored?, task?, hw, hdata]

/-- The second stage transmits. -/
theorem step_transmit {object : Bytes} {job : SendMsgJob} (hd : s.donePc = .stored object)
    (ht : s.task? = some (.msg job)) :
    Outbox.Step H s.outbox .internal (outbox { s with
      donePc := .idle
      transmissions := s.transmissions ++ [⟨job, object⟩] }) := by
  obtain ⟨j, hw, hdata⟩ := task?_eq_some ht
  have hs : s.outbox.stored = some job := by simp only [outbox, stored?, hd, ht]
  refine cast (congrArg _ ?_) (Outbox.Step.transmit (H := H) job object hs)
  simp [outbox, workerPending, stored?, hd, hw]

/-! ### One step and a run -/

/-- Every step of the threads is a step of the outbox. -/
theorem Inv.step (inv : Inv H s) {l : SendLabel} (h : s.step H l = some t) :
    Inv H t ∧ Outbox.Step H s.outbox (s.effect l) t.outbox := by
  cases l with
  | sendNew thread request recipient built =>
    simp only [SendSys.step] at h
    split at h
    · next hid =>
      cases h
      unfold send
      split
      · next job pow hacc =>
        obtain ⟨hreq, hjob, heq, hinv⟩ := inv.accepted hacc (by
          simp only [newRequest, resendInitialInterval]
          omega)
        refine ⟨hinv, ?_⟩
        rw [heq]
        refine .new job ?_ hjob
        have hmsg : job.msgId = (newRequest request).msgId := congrArg SendRequest.msgId hreq
        rw [hmsg]
        exact hid.2
      · exact ⟨inv, .stutter⟩
    · cases h
  | listCandidates now =>
    simp only [SendSys.step] at h
    split at h
    · next hnet =>
      cases h
      exact ⟨⟨inv.pow, inv.tasks, inv.called⟩, .list now hnet⟩
    · cases h
  | submitCandidate recipient built =>
    simp only [SendSys.step] at h
    split at h
    · next now c cs hnet =>
      cases h
      unfold send
      split
      · next job pow hacc =>
        obtain ⟨hreq, hjob, heq, hinv⟩ := inv.accepted hacc (c.now_le now)
        refine ⟨⟨hinv.pow, hinv.tasks, hinv.called⟩, ?_⟩
        have heffect : s.effect (.submitCandidate recipient built) = .resends c job := by
          simp only [effect, completing, resending, hnet, hacc, Option.map_some]
        rw [heffect]
        exact cast (congrArg _ (congrArg (fun o : Outbox => { o with net := .resending now cs }) heq.symm))
          (Outbox.Step.resend (H := H) now c cs job hnet hreq hjob)
      · next hacc =>
        have heffect : s.effect (.submitCandidate recipient built) = .internal := by
          simp only [effect, completing, resending, hnet, hacc, Option.map_none]
        rw [heffect]
        exact ⟨⟨inv.pow, inv.tasks, inv.called⟩, .skip now c cs hnet⟩
    · cases h
  | checkReturn =>
    simp only [SendSys.step] at h
    split at h
    · next hnet =>
      cases h
      exact ⟨⟨inv.pow, inv.tasks, inv.called⟩, .checked _ hnet⟩
    · cases h
  | arrive object now =>
    simp only [SendSys.step] at h
    split at h
    · next hnet =>
      cases h
      exact ⟨⟨inv.pow, inv.tasks, inv.called⟩, .arrive object now hnet⟩
    · cases h
  | markAck =>
    simp only [SendSys.step] at h
    split at h
    · next hnet =>
      cases h
      exact ⟨⟨inv.pow, inv.tasks, inv.called⟩, .mark _ hnet⟩
    · cases h
  | trash msgId =>
    cases h
    refine ⟨⟨inv.pow, inv.tasks, inv.called⟩, .edit (.trashes msgId) _ (fun r => by split <;> rfl)
      (.inr ⟨msgId, rfl⟩) ?_ ?_ ?_⟩
    · intro r
      split <;> constructor <;> rfl
    · intro r
      split <;> rfl
    · intro r
      split
      · next he => exact .inr ⟨by rw [he], rfl⟩
      · exact .inl rfl
  | rename oldAddress newAddress =>
    cases h
    refine ⟨⟨inv.pow, inv.tasks, inv.called⟩, .edit .internal _ (fun r => by split <;> rfl) (.inl rfl)
      ?_ ?_ ?_⟩
    · intro r
      split <;> constructor <;> rfl
    · intro r
      split <;> rfl
    · intro r
      split <;> exact .inl rfl
  | ackPowDone payload =>
    simp only [SendSys.step] at h
    split at h
    · next object job payload hd ht =>
      obtain ⟨p, hp, rfl⟩ := Option.map_eq_some_iff.mp h
      exact inv.handOver hd ht hp
    · next hd ht =>
      cases h
      exact ⟨(inv.giveUp hd).inv, (inv.giveUp hd).step⟩
    · cases h
  | msgPowDone stored now =>
    simp only [SendSys.step] at h
    split at h
    · next object job hd ht =>
      split at h
      · next hstored =>
        cases h
        subst hstored
        have heffect : s.effect (.msgPowDone true now) = .completes job := by
          simp only [effect, completing, hd, ht]
        rw [heffect]
        exact ⟨⟨inv.pow, inv.tasks, nofun⟩, inv.storeRow now _ hd ht⟩
      · next hstored =>
        cases h
        obtain rfl : stored = false := by simpa using hstored
        exact ⟨(inv.giveUp hd).inv, (inv.giveUp hd).step⟩
    · cases h
  | sendDone =>
    simp only [SendSys.step] at h
    split at h
    · next object job hd ht =>
      cases h
      exact ⟨⟨inv.pow, inv.tasks, nofun⟩, step_transmit hd ht⟩
    · cases h
  | otherDone =>
    simp only [SendSys.step] at h
    split at h
    · next hd =>
      cases h
      exact ⟨(inv.giveUp hd).inv, (inv.giveUp hd).step⟩
    · next hd ht =>
      cases h
      exact ⟨(inv.giveUp hd).inv, (inv.giveUp hd).step⟩
    · cases h
  | pow l => exact ⟨(inv.frame_powStep h).inv, (inv.frame_powStep h).step⟩

/-- The threads are in order, and so is the outbox. -/
structure Sound (H : Hashes) (s : SendSys) : Prop where
  inv : Inv H s
  outbox : Outbox.Inv H s.outbox

theorem init_sound (maxPending : ℕ) (h : maxPending < wordSize) : Sound H (init maxPending h) where
  inv := init_inv maxPending h
  outbox := by
    constructor <;>
      simp [SendSys.outbox, init, PowSys.init, powQueueInit, workerPending, stored?, Outbox.live, Outbox.lastCompletion]

theorem step_sound (s : SendSys) (l : SendLabel) (t : SendSys) (hs : Sound H s) (h : s.step H l = some t) :
    Sound H t :=
  ⟨(hs.inv.step h).1, (hs.inv.step h).2.inv hs.outbox⟩

theorem run_sound {ls : List SendLabel} {maxPending : ℕ} {hm : maxPending < wordSize}
    (h : Transition.run (step H) (init maxPending hm) ls = some s) : Sound H s :=
  Transition.run_invariant step_sound (init_sound maxPending hm) h

/-! ### Effects -/

theorem effect_of_completing {l : SendLabel} {job : SendMsgJob} (h : s.completing l = some job) :
    s.effect l = .completes job := by
  simp only [effect, h]

theorem completing_of_effect {l : SendLabel} {job : SendMsgJob} (h : s.effect l = .completes job) :
    s.completing l = some job := by
  unfold effect at h
  split at h <;> simp_all

theorem resending_of_effect {l : SendLabel} {c : ResendCandidate} {job : SendMsgJob}
    (h : s.effect l = .resends c job) : s.resending l = some (c, job) := by
  unfold effect at h
  split at h <;> simp_all

/-- A send that can write its row does so in the step. -/
theorem exists_step_of_completing {l : SendLabel} {job : SendMsgJob} (h : s.completing l = some job) :
    ∃ t, s.step H l = some t := by
  unfold completing at h
  split at h
  · split at h
    · next hd ht =>
      exact ⟨_, by simp only [SendSys.step, hd, ht]; rfl⟩
    · cases h
  · cases h

end SendSys

end Bitmessage
