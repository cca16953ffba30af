import Bitmessage.Core.SendCompletion

/-! A send that was accepted gets on. Every action of the worker of the job queue and of
the thread that shuts it down brings the call closer to its `done`, through both stages
and whatever the other threads do in between. -/

namespace Bitmessage

/-- The actions that a thread has left inside a `done` function. -/
def StagePc.left : StagePc → ℕ
  | .called ⟨_, .other⟩ _ | .failing _ | .stored _ _ => 1
  | .called _ _ => 2
  | .idle | .mining _ _ _ | .returning => 0

/-- What the second stage may cost, in a queue of the size. -/
def SendTask.secondStage (maxPending : ℕ) : SendTask → ℕ
  | .ack _ => 4 * (3 * maxPending + 5) + 4
  | .msg _ | .other => 0

/-- The actions left before the `done` of the send on the thread. -/
def StagePc.cost (maxPending : ℕ) : StagePc → ℕ
  | .called job object => (StagePc.called job object).left + job.task.secondStage maxPending
  | pc => pc.left

theorem StagePc.left_le (pc : StagePc) : pc.left ≤ 2 := by
  unfold StagePc.left
  split <;> omega

namespace PowSys

variable {U : Type*} {solves : Bytes → ℕ → ℕ → Bool} {p q : PowSys U}

theorem submitOr_maxPending {thread : Thread} {a : SubmitArgs U} {allocated : Bool} {rc : ℤ}
    (h : p.submitOr thread a allocated = some (rc, q)) : q.queue.maxPending = p.queue.maxPending := by
  rcases submitOr_eq_some h with ⟨-, rfl⟩ | ⟨hsub, -⟩
  · rfl
  · rcases submit_cases hsub with ⟨rc, -, rfl⟩ | ⟨j, -, -, -, -, -, -, -, -, -, rfl⟩ <;> rfl

/-- A submission keeps the jobs that are left, no further from their `done`. -/
theorem submitOr_rank {thread : Thread} {a : SubmitArgs U} {allocated : Bool} {rc : ℤ} (inv : Inv solves p)
    (h : p.submitOr thread a allocated = some (rc, q)) {j : PowJob (Ticket U)} (hj : j ∈ p.undoneJobs) :
    j ∈ q.undoneJobs ∧ q.rank (jobId j) ≤ p.rank (jobId j) := by
  rcases submitOr_eq_some h with ⟨-, rfl⟩ | ⟨hsub, -⟩
  · exact ⟨hj, le_rfl⟩
  · refine ⟨?_, (rank_submit inv hsub (List.mem_map_of_mem hj)).2⟩
    obtain ⟨-, -, -, ⟨-, hjobs⟩ | ⟨-, k, -, hjobs⟩⟩ := submitOr_cases inv h
    · rwa [hjobs]
    · rw [hjobs]
      exact List.mem_append_left _ hj

/-- A job that is accepted inside a `done` is behind the waiting ones at most. -/
theorem rank_accepted {a : SubmitArgs U} {allocated : Bool} (inv : Inv solves p)
    (h : p.submitOr .worker a allocated = some (0, q)) :
    ∃ j ∈ q.undoneJobs, j.userData.data = a.userData ∧ q.rank (jobId j) + 3 ≤ 3 * p.queue.maxPending + 5 := by
  rcases submitOr_eq_some h with ⟨hrc, -⟩ | ⟨hsub, hrc⟩
  · exact absurd rfl hrc
  · rcases submit_cases hsub with ⟨rc, hne, rfl⟩ | ⟨j, -, -, -, -, hdata, horigin, hsh, hlt, -, rfl⟩
    · simp [lastRc] at hrc
      exact absurd hrc.symm hne
    · set q : PowSys U := { p with
        queue := { p.queue with jobs := p.queue.jobs.enqueue j, pending := addW p.queue.pending 1 }
        calls := p.calls ++ [⟨p.calls.length, a.payload, a.target, 0⟩] }
      have hworker : p.worker.undone = [] := by
        cases hw : p.worker with
        | inDone k => rfl
        | _ => simp [origin, hw] at horigin
      have hleft : p.undoneJobs = p.queue.jobs.toList := by
        rw [undoneJobs, hworker, List.nil_append, inv.waitingJobs_eq hsh]
      have hjobs : q.undoneJobs = p.undoneJobs ++ [j] := by
        simp [q, undoneJobs, waitingJobs, inv.shutdown_rest hsh]
      have hmem : j ∈ q.undoneJobs := by
        rw [hjobs]
        exact List.mem_append_right _ (List.mem_singleton_self j)
      refine ⟨j, hmem, hdata, ?_⟩
      have hidx : (q.undoneJobs.map jobId).idxOf (jobId j) < q.undoneJobs.length := by
        simpa using List.idxOf_lt_length_of_mem (List.mem_map_of_mem (f := jobId) hmem)
      have hlen : q.undoneJobs.length ≤ p.queue.maxPending := by
        rw [hjobs, List.length_append, List.length_singleton, hleft, ← inv.pending_eq]
        exact hlt
      have hphase := q.phase_le
      rw [rank]
      omega

end PowSys

namespace PipelineSys

variable {H : Hashes} {s t : PipelineSys}

/-- The actions that the two threads have left inside their `done` functions. -/
def busy (s : PipelineSys) : ℕ := (s.pcs .worker).left + (s.pcs .shutdown).left

/-- The call is in the queue or on one of the two threads, at most `k` of their actions before its
`done`. -/
def Within (s : PipelineSys) (n k : ℕ) : Prop :=
  (∃ j ∈ s.pow.undoneJobs, ∃ job, j.userData.data = some job ∧ job.call = n ∧
    4 * s.pow.rank (PowSys.jobId j) + s.busy + (2 + job.task.secondStage s.pow.queue.maxPending) ≤ k) ∨
  ∃ r job, (∀ m, r ≠ .caller m) ∧ (s.pcs r).job? = some job ∧ job.call = n ∧
    (s.pcs r).cost s.pow.queue.maxPending ≤ k

/-- A job stays in the queue while the others go on. -/
theorem Within.ofQueue {n k d : ℕ} {j : PowJob (Ticket (Option StageJob))} {job : StageJob}
    (hdata : j.userData.data = some job) (hcall : job.call = n)
    (hk : 4 * s.pow.rank (PowSys.jobId j) + s.busy + (2 + job.task.secondStage s.pow.queue.maxPending) ≤ k)
    (hj : j ∈ t.pow.undoneJobs) (hmax : t.pow.queue.maxPending = s.pow.queue.maxPending)
    (hrank : 4 * t.pow.rank (PowSys.jobId j) + t.busy + d ≤ 4 * s.pow.rank (PowSys.jobId j) + s.busy) :
    ∃ k', t.Within n k' ∧ k' + d ≤ k := by
  refine ⟨k - d, .inl ⟨j, hj, job, hdata, hcall, ?_⟩, by omega⟩
  rw [hmax]
  omega

/-- Actions of a calling thread do not matter to the others. -/
theorem doneStep_caller {m : ℕ} {a : DoneAction} (h : s.doneStep H (.caller m) a = some t) :
    t.pow = s.pow ∧ ∀ r, (∀ m, r ≠ .caller m) → t.pcs r = s.pcs r := by
  have hgoto : ∀ (u : PipelineSys) pc r, (∀ m, r ≠ .caller m) → (u.goto (.caller m) pc).pcs r = u.pcs r :=
    fun u pc r hr => goto_of_ne (hr m) pc
  cases a with
  | ackPowDone payload allocated =>
    simp only [doneStep] at h
    split at h
    · cases h
      exact ⟨rfl, hgoto s _⟩
    · cases h
      exact ⟨rfl, hgoto s _⟩
    · cases h
  | msgPowDone stored now =>
    simp only [doneStep] at h
    split at h
    · split at h
      · cases h
        exact ⟨rfl, hgoto _ _⟩
      · cases h
        exact ⟨rfl, hgoto s _⟩
    · cases h
  | callDone =>
    simp only [doneStep] at h
    split at h
    · cases h
      exact ⟨rfl, hgoto _ _⟩
    · cases h
      exact ⟨rfl, hgoto _ _⟩
    · cases h
      exact ⟨rfl, hgoto _ _⟩
    · cases h

/-- What an action inside a `done` function of the two threads does: it is one less, and the call of
the thread is completed, stays on the thread, or goes to the queue for its second stage. -/
structure DoneProgress (s t : PipelineSys) (r : Runner) (job : StageJob) : Prop where
  left_lt : (t.pcs r).left + 1 ≤ (s.pcs r).left
  others : ∀ r', r' ≠ r → t.pcs r' = s.pcs r'
  maxPending : t.pow.queue.maxPending = s.pow.queue.maxPending
  queue : ∀ j ∈ s.pow.undoneJobs, j ∈ t.pow.undoneJobs ∧ t.pow.rank (PowSys.jobId j) ≤ s.pow.rank (PowSys.jobId j)
  next : 0 < t.completions job.call ∨ ∃ k, t.Within job.call k ∧ k + 1 ≤ (s.pcs r).cost s.pow.queue.maxPending

theorem completions_record (n : ℕ) (rc : ℤ) (object : Option Bytes) :
    0 < (s.record (.done n rc object)).completions n := by
  refine List.countP_pos_iff.mpr ⟨.done n rc object, List.mem_append_right _ (List.mem_singleton_self _), ?_⟩
  simp [isDone]

theorem DoneProgress.complete {r : Runner} (hr : ∀ m, r ≠ .caller m) (job : StageJob) (hleft : 1 ≤ (s.pcs r).left)
    (rc : ℤ) (object : Option Bytes) :
    DoneProgress s ((s.record (.done job.call rc object)).goto r (afterDone r)) r job where
  left_lt := by
    have hafter : (afterDone r).left = 0 := by
      cases r with
      | caller m => exact absurd rfl (hr m)
      | _ => rfl
    rw [goto_self, hafter]
    exact hleft
  others r' hr' := goto_of_ne hr' _
  maxPending := rfl
  queue j hj := ⟨hj, le_rfl⟩
  next := .inl (completions_record job.call rc object)

/-- The thread keeps the call, with one action left. -/
theorem DoneProgress.stay {r : Runner} (hr : ∀ m, r ≠ .caller m) {job job' : StageJob} {u : PipelineSys} {pc : StagePc}
    (hpcs : u.pcs = s.pcs) (hmax : u.pow.queue.maxPending = s.pow.queue.maxPending)
    (hqueue : ∀ j ∈ s.pow.undoneJobs, j ∈ u.pow.undoneJobs ∧
      u.pow.rank (PowSys.jobId j) ≤ s.pow.rank (PowSys.jobId j))
    (hleft : (s.pcs r).left = 2) (hcost : 2 ≤ (s.pcs r).cost s.pow.queue.maxPending) (hpc : pc.job? = some job')
    (hcall : job'.call = job.call) (hone : pc.left = 1) (hlast : ∀ m, pc.cost m = 1) :
    DoneProgress s (u.goto r pc) r job where
  left_lt := by rw [goto_self, hone, hleft]
  others r' hr' := by rw [goto_of_ne hr', hpcs]
  maxPending := hmax
  queue := hqueue
  next := by
    refine .inr ⟨1, .inr ⟨r, job', hr, by rw [goto_self, hpc], hcall, ?_⟩, hcost⟩
    rw [goto_self, hlast]

theorem submitMsg_progress (inv : s.Inv H) {r : Runner} (hr : ∀ m, r ≠ .caller m) {call : ℕ} {job msg : SendMsgJob}
    {object payload : Bytes} {allocated : Bool} (hpc : s.pcs r = .called ⟨call, .ack job⟩ object)
    (h : s.submitMsg r call msg payload allocated = some t) : DoneProgress s t r ⟨call, .ack job⟩ := by
  have hleft : (s.pcs r).left = 2 := by rw [hpc]; rfl
  have hcost : (s.pcs r).cost s.pow.queue.maxPending = 2 + (4 * (3 * s.pow.queue.maxPending + 5) + 4) := by
    rw [hpc]
    rfl
  cases r with
  | shutdown => cases h
  | caller m => exact absurd rfl (hr m)
  | worker =>
    obtain ⟨⟨rc, pow⟩, hsub, rfl⟩ := Option.map_eq_some_iff.mp h
    have hmax := PowSys.submitOr_maxPending hsub
    have hqueue : ∀ j ∈ s.pow.undoneJobs, j ∈ (s.setPow pow).pow.undoneJobs ∧
        (s.setPow pow).pow.rank (PowSys.jobId j) ≤ s.pow.rank (PowSys.jobId j) :=
      fun j hj => PowSys.submitOr_rank inv.pow hsub hj
    by_cases hrc : rc = 0
    · subst hrc
      obtain ⟨j, hj, hdata, hrank⟩ := PowSys.rank_accepted inv.pow hsub
      refine ⟨?_, fun r' hr' => goto_of_ne hr' _, hmax, hqueue, .inr ?_⟩
      · rw [goto_self, hleft]
        exact one_le_two
      · -- the message is behind what waits, and the queue is not longer than its limit
        have hbusy : ((s.setPow pow).goto .worker .idle).busy ≤ 2 := by
          have := (s.pcs .shutdown).left_le
          simpa [busy, goto, setPow, StagePc.left] using this
        refine ⟨4 * (3 * s.pow.queue.maxPending + 5) + 4, .inl ⟨j, hj, ⟨call, .msg msg⟩, hdata, rfl, ?_⟩, by omega⟩
        change 4 * pow.rank _ + ((s.setPow pow).goto .worker .idle).busy + (2 + 0) ≤ _
        omega
    · simp only [hrc, if_false]
      exact .stay hr rfl hmax hqueue hleft (by omega) rfl rfl rfl fun _ => rfl

/-- Every action inside a `done` function of the two threads is progress. -/
theorem doneStep_progress (inv : s.Inv H) {r : Runner} (hr : ∀ m, r ≠ .caller m) {a : DoneAction}
    (h : s.doneStep H r a = some t) : ∃ job, (s.pcs r).job? = some job ∧ DoneProgress s t r job := by
  have hsame : ∀ j ∈ s.pow.undoneJobs, j ∈ s.pow.undoneJobs ∧
      s.pow.rank (PowSys.jobId j) ≤ s.pow.rank (PowSys.jobId j) := fun j hj => ⟨hj, le_rfl⟩
  cases a with
  | ackPowDone payload allocated =>
    simp only [doneStep] at h
    split at h
    · next call job object payload hpc =>
      exact ⟨⟨call, .ack job⟩, by rw [hpc]; rfl, submitMsg_progress inv hr hpc h⟩
    · next call job object hpc =>
      cases h
      have hcost : 2 ≤ (s.pcs r).cost s.pow.queue.maxPending := by
        rw [hpc]
        exact Nat.le_add_right 2 _
      exact ⟨⟨call, .ack job⟩, by rw [hpc]; rfl,
        .stay hr rfl rfl hsame (by rw [hpc]; rfl) hcost rfl rfl rfl fun _ => rfl⟩
    · cases h
  | msgPowDone stored now =>
    simp only [doneStep] at h
    split at h
    · next call job object hpc =>
      have hleft : (s.pcs r).left = 2 := by rw [hpc]; rfl
      have hcost : 2 ≤ (s.pcs r).cost s.pow.queue.maxPending := by rw [hpc]; rfl
      refine ⟨⟨call, .msg job⟩, by rw [hpc]; rfl, ?_⟩
      split at h
      · cases h
        exact .stay hr rfl rfl hsame hleft hcost rfl rfl rfl fun _ => rfl
      · cases h
        exact .stay hr rfl rfl hsame hleft hcost rfl rfl rfl fun _ => rfl
    · cases h
  | callDone =>
    simp only [doneStep] at h
    split at h
    · next job hpc =>
      cases h
      exact ⟨job, by rw [hpc]; rfl, .complete hr job (by rw [hpc]; rfl) _ _⟩
    · next job object hpc =>
      cases h
      exact ⟨job, by rw [hpc]; rfl, .complete hr job (by rw [hpc]; rfl) _ _⟩
    · next call object hpc =>
      cases h
      exact ⟨⟨call, .other⟩, by rw [hpc]; rfl, .complete hr ⟨call, .other⟩ (by rw [hpc]; rfl) _ _⟩
    · cases h

/-- An action that leaves the two threads alone and the queue at most longer. -/
theorem Within.quiet {n k : ℕ} (h : s.Within n k) (hpcs : ∀ r, (∀ m, r ≠ .caller m) → t.pcs r = s.pcs r)
    (hmax : t.pow.queue.maxPending = s.pow.queue.maxPending)
    (hqueue : ∀ j ∈ s.pow.undoneJobs, j ∈ t.pow.undoneJobs ∧
      t.pow.rank (PowSys.jobId j) ≤ s.pow.rank (PowSys.jobId j)) : t.Within n k := by
  have hbusy : t.busy = s.busy := by
    rw [busy, hpcs .worker (by simp), hpcs .shutdown (by simp), busy]
  rcases h with ⟨j, hj, job, hdata, hcall, hk⟩ | ⟨r, job, hr, hjob, hcall, hk⟩
  · obtain ⟨hj', hrank⟩ := hqueue j hj
    refine .inl ⟨j, hj', job, hdata, hcall, ?_⟩
    rw [hmax, hbusy]
    omega
  · refine .inr ⟨r, job, hr, ?_, hcall, ?_⟩
    · rw [hpcs r hr, hjob]
    · rwa [hpcs r hr, hmax]

/-- While a thread is inside a `done` function the queue does nothing on its own. -/
theorem Inv.not_system (inv : s.Inv H) {l : PowLabel (Option StageJob)} {pow : PowSys (Option StageJob)}
    (hallowed : s.allowed l = true) (h : PowSys.step (powSolves H) s.pow l = some pow) {r : Runner} {job : StageJob}
    (hr : ∀ m, r ≠ .caller m) (hjob : (s.pcs r).job? = some job) : l.isSystem = false := by
  have hplaced := inv.placed r job hjob
  cases r with
  | caller m => exact absurd rfl (hr m)
  | worker =>
    obtain ⟨k, hk⟩ := hplaced
    have hjoined : s.pow.shutdownPc.joined ≠ true := by
      intro hjoined
      have := inv.pow.joined_exited hjoined
      rw [hk] at this
      cases this
    cases l with
    | submit thread a => rfl
    | shutdown => rfl
    | finish => simp [allowed, hjob] at hallowed
    | discard =>
      obtain ⟨j, l, hl, -⟩ := PowSys.discard_cases h
      exact absurd (by rw [hl]; rfl) hjoined
    | shutdownReturn =>
      obtain ⟨hl, -⟩ := PowSys.shutdownReturn_cases h
      exact absurd (by rw [hl]; rfl) hjoined
    | take => simp [PowSys.step, PowSys.take, hk] at h
    | mined nonce => simp [PowSys.step, PowSys.mined, hk] at h
    | cancelled => simp [PowSys.step, PowSys.cancelled, hk] at h
    | exit => simp [PowSys.step, PowSys.exit, hk] at h
    | join => simp [PowSys.step, PowSys.join, hk] at h
  | shutdown =>
    have hexited := inv.pow.joined_exited hplaced
    cases l with
    | submit thread a => rfl
    | shutdown => rfl
    | discard => simp [allowed, hjob] at hallowed
    | shutdownReturn => simp [allowed, hjob] at hallowed
    | join =>
      obtain ⟨l, hl, -, -⟩ := PowSys.join_cases h
      rw [Placed, hl] at hplaced
      cases hplaced
    | take => simp [PowSys.step, PowSys.take, hexited] at h
    | mined nonce => simp [PowSys.step, PowSys.mined, hexited] at h
    | cancelled => simp [PowSys.step, PowSys.cancelled, hexited] at h
    | finish => simp [PowSys.step, PowSys.finish, hexited] at h
    | exit => simp [PowSys.step, PowSys.exit, hexited] at h

theorem busy_goto_le (r : Runner) (pc : StagePc) : (s.goto r pc).busy ≤ s.busy + pc.left := by
  cases r with
  | worker => simp [busy, goto]; omega
  | shutdown => simp [busy, goto]
  | caller m => simp [busy, goto]

/-- What the queue does on its own: nothing on the threads, or it enters a `done` function. -/
theorem powStep_cases {l : PowLabel (Option StageJob)} {allocated : Bool} (h : s.powStep H l allocated = some t) :
    ∃ pow, s.allowed l = true ∧ PowSys.step (powSolves H) s.pow l = some pow ∧ t.pow = pow ∧
      (t = s.setPow pow ∧ (∀ r j job, s.pow.entering l = some (r, j) → j.userData.data ≠ some job) ∨
        ∃ r j job pc, s.pow.entering l = some (r, j) ∧ j.userData.data = some job ∧ t = (s.setPow pow).goto r pc ∧
          pc.job? = some job ∧ ∀ m, pc.cost m ≤ 2 + job.task.secondStage m) := by
  simp only [powStep] at h
  split at h
  · next hallowed =>
    obtain ⟨pow, hstep, rfl⟩ := Option.map_eq_some_iff.mp h
    refine ⟨pow, hallowed, hstep, ?_⟩
    cases hentering : s.pow.entering l with
    | none => exact ⟨rfl, .inl ⟨rfl, by simp⟩⟩
    | some e =>
      obtain ⟨r, j⟩ := e
      cases hdata : j.userData.data with
      | none =>
        refine ⟨by simp [hdata, setPow], .inl ⟨by simp [hdata], ?_⟩⟩
        rintro _ _ job ⟨⟩
        simp [hdata]
      | some job =>
        simp only [hdata]
        cases l.object j.payload allocated with
        | none =>
          refine ⟨rfl, .inr ⟨r, j, job, .failing job, rfl, hdata, rfl, rfl, fun m => ?_⟩⟩
          have hcost : (StagePc.failing job).cost m = 1 := rfl
          omega
        | some object =>
          refine ⟨rfl, .inr ⟨r, j, job, .called job object, rfl, hdata, rfl, rfl, fun m => ?_⟩⟩
          have := (StagePc.called job object).left_le
          simp only [StagePc.cost]
          omega
  · cases h

theorem entering_isSystem {pow : PowSys (Option StageJob)} {l : PowLabel (Option StageJob)}
    {e : Runner × PowJob (Ticket (Option StageJob))} (h : pow.entering l = some e) : l.isSystem = true := by
  cases l with
  | submit thread a => cases h
  | shutdown => cases h
  | _ => rfl

/-- A job that is left after an action of the queue has come closer. -/
theorem rank_of_mem {p q : PowSys (Option StageJob)} {l : PowLabel (Option StageJob)}
    (inv : PowSys.Inv (powSolves H) p) (h : PowSys.step (powSolves H) p l = some q)
    {j : PowJob (Ticket (Option StageJob))} (hp : j ∈ p.undoneJobs) (hq : j ∈ q.undoneJobs) :
    q.rank (PowSys.jobId j) + (if l.isSystem then 1 else 0) ≤ p.rank (PowSys.jobId j) := by
  have invq := PowSys.step_inv p l q inv h
  refine ((PowSys.step_rank inv h (List.mem_map_of_mem hp)).resolve_left fun hdone => ?_).2
  have hnodup := invq.accepted_nodup
  rw [invq.accepted_eq, List.nodup_append] at hnodup
  exact hnodup.2.2 _ hdone _ (List.mem_map_of_mem hq) rfl

/-- A job that is left before an action of the queue is left after it, or is entered. -/
theorem mem_undoneJobs_step {p q : PowSys (Option StageJob)} {l : PowLabel (Option StageJob)}
    (inv : PowSys.Inv (powSolves H) p) (h : PowSys.step (powSolves H) p l = some q)
    {j : PowJob (Ticket (Option StageJob))} (hj : j ∈ p.undoneJobs) :
    j ∈ q.undoneJobs ∨ ∃ r, p.entering l = some (r, j) := by
  by_cases hl : ∀ thread a, l ≠ .submit thread a
  · rw [PowSys.undoneJobs_step inv h hl, List.mem_append] at hj
    rcases hj with hj | hj
    · obtain ⟨⟨r, k⟩, he, rfl⟩ := Option.map_eq_some_iff.mp (Option.mem_toList.mp hj)
      exact .inr ⟨r, he⟩
    · exact .inl hj
  · push Not at hl
    obtain ⟨thread, a, rfl⟩ := hl
    rcases PowSys.submit_cases h with ⟨rc, -, rfl⟩ | ⟨i, -, -, -, -, -, -, hsh, -, -, rfl⟩
    · exact .inl hj
    · left
      simp only [PowSys.undoneJobs, PowSys.waitingJobs, inv.shutdown_rest hsh, List.append_nil, List.mem_append] at hj ⊢
      simp only [LinkedQueue.toList_enqueue, List.mem_append]
      tauto

theorem Within.powStep {n k : ℕ} (h : s.Within n k) (inv : s.Inv H) {l : PowLabel (Option StageJob)} {allocated : Bool}
    (hstep : s.powStep H l allocated = some t) :
    ∃ k', t.Within n k' ∧ k' + (if l.isSystem then 1 else 0) ≤ k := by
  obtain ⟨pow, hallowed, hpow, htpow, hmove⟩ := powStep_cases hstep
  have hmax : t.pow.queue.maxPending = s.pow.queue.maxPending := by
    rw [htpow]
    exact PowSys.step_maxPending hpow
  rcases h with ⟨j, hj, job, hdata, hcall, hk⟩ | ⟨r, job, hr, hjob, hcall, hk⟩
  · have hpos := s.pow.phase_pos
    have hrank1 : 1 ≤ s.pow.rank (PowSys.jobId j) := by
      rw [PowSys.rank]
      omega
    rcases mem_undoneJobs_step inv.pow hpow hj with hleft | ⟨r, hentering⟩
    · have hrank := rank_of_mem inv.pow hpow hj hleft
      refine Within.ofQueue hdata hcall hk (by rwa [htpow]) hmax ?_
      rw [htpow]
      rcases hmove with ⟨rfl, -⟩ | ⟨r, i, job', pc, hentering, -, rfl, -, -⟩
      · have hbusy : (s.setPow pow).busy = s.busy := rfl
        split_ifs at hrank ⊢ <;> omega
      · have hbusy := busy_goto_le (s := s.setPow pow) r pc
        have hsame : (s.setPow pow).busy = s.busy := rfl
        have hle := pc.left_le
        rw [if_pos (entering_isSystem hentering)] at hrank ⊢
        omega
    · -- the job itself is entered
      rcases hmove with ⟨-, hnone⟩ | ⟨r', i, job', pc, hentering', hdata', rfl, hpc, hcost⟩
      · exact absurd hdata (hnone r j job hentering)
      · rw [hentering] at hentering'
        cases hentering'
        rw [hdata] at hdata'
        cases hdata'
        obtain ⟨-, hcaller, -⟩ := inv.entering_placed hallowed hpow hentering
        refine ⟨2 + job.task.secondStage s.pow.queue.maxPending, .inr ⟨r, job, hcaller, ?_, hcall, ?_⟩, ?_⟩
        · rw [goto_self, hpc]
        · rw [goto_self, hmax]
          exact hcost _
        · split_ifs <;> omega
  · have hsystem := inv.not_system hallowed hpow hr hjob
    rcases hmove with ⟨rfl, -⟩ | ⟨r', i, job', pc, hentering, -⟩
    · exact ⟨k, .inr ⟨r, job, hr, hjob, hcall, by rwa [hmax]⟩, by simp [hsystem]⟩
    · rw [entering_isSystem hentering] at hsystem
      cases hsystem

theorem Inv.one_thread (inv : s.Inv H) {r r' : Runner} (hr : ∀ m, r ≠ .caller m) (hr' : ∀ m, r' ≠ .caller m)
    {job job' : StageJob} (h : (s.pcs r).job? = some job) (h' : (s.pcs r').job? = some job') : r = r' := by
  have hnot : ∀ i k, (s.pcs .worker).job? = some i → (s.pcs .shutdown).job? = some k → False := by
    intro i k hi hk
    obtain ⟨j, hj⟩ := inv.placed .worker i hi
    have hexited := inv.pow.joined_exited (inv.placed .shutdown k hk)
    rw [hj] at hexited
    cases hexited
  cases r with
  | caller m => exact absurd rfl (hr m)
  | worker =>
    cases r' with
    | caller m => exact absurd rfl (hr' m)
    | worker => rfl
    | shutdown => exact (hnot job job' h h').elim
  | shutdown =>
    cases r' with
    | caller m => exact absurd rfl (hr' m)
    | worker => exact (hnot job' job h' h).elim
    | shutdown => rfl

theorem Within.doneStep {n k : ℕ} (h : s.Within n k) (inv : s.Inv H) {r : Runner} (hr : ∀ m, r ≠ .caller m)
    {a : DoneAction} (hstep : s.doneStep H r a = some t) :
    0 < t.completions n ∨ ∃ k', t.Within n k' ∧ k' + 1 ≤ k := by
  obtain ⟨job, hjob, progress⟩ := doneStep_progress inv hr hstep
  rcases h with ⟨j, hj, job', hdata, hcall, hk⟩ | ⟨r', job', hr', hjob', rfl, hk⟩
  · obtain ⟨hj', hrank⟩ := progress.queue j hj
    have hbusy : t.busy + 1 ≤ s.busy := by
      have hlt := progress.left_lt
      cases r with
      | caller m => exact absurd rfl (hr m)
      | worker =>
        rw [busy, progress.others .shutdown (by simp), busy]
        omega
      | shutdown =>
        rw [busy, progress.others .worker (by simp), busy]
        omega
    exact .inr (Within.ofQueue hdata hcall hk hj' progress.maxPending (by omega))
  · cases inv.one_thread hr hr' hjob hjob'
    cases hjob.symm.trans hjob'
    rcases progress.next with hdone | ⟨k', hwithin, hk'⟩
    · exact .inl hdone
    · exact .inr ⟨k', hwithin, hk'.trans hk⟩

/-- No action moves a call away from its `done`, and every action of the two threads moves it closer. -/
theorem Within.step {n k : ℕ} (h : s.Within n k) (inv : s.Inv H) {l : PipelineLabel} (hstep : s.step H l = some t) :
    0 < t.completions n ∨ ∃ k', t.Within n k' ∧ k' + (if l.isSystem then 1 else 0) ≤ k := by
  have hsame : ∀ j ∈ s.pow.undoneJobs, j ∈ s.pow.undoneJobs ∧
      s.pow.rank (PowSys.jobId j) ≤ s.pow.rank (PowSys.jobId j) := fun j hj => ⟨hj, le_rfl⟩
  have hgoto : ∀ (u : PipelineSys) m pc r, (∀ m, r ≠ .caller m) → (u.goto (.caller m) pc).pcs r = u.pcs r :=
    fun u m pc r hr => goto_of_ne (hr m) pc
  cases l with
  | call thread queued c allocated =>
    refine .inr ⟨k, ?_, le_rfl⟩
    simp only [PipelineSys.step, PipelineSys.call] at hstep
    split at hstep
    · cases hstep
      exact h.quiet (fun _ _ => rfl) rfl hsame
    · split at hstep
      · obtain ⟨⟨rc, pow⟩, hsub, rfl⟩ := Option.map_eq_some_iff.mp hstep
        exact h.quiet (fun _ _ => rfl) (PowSys.submitOr_maxPending hsub)
          fun j hj => PowSys.submitOr_rank inv.pow hsub hj
      · cases hstep
        exact h.quiet (hgoto (s.opened c) _ _) rfl hsame
  | callerMined call nonce allocated =>
    refine .inr ⟨k, ?_, le_rfl⟩
    simp only [PipelineSys.step, PipelineSys.callerMined] at hstep
    split at hstep
    · split at hstep
      · cases hstep
        cases allocated with
        | true => exact h.quiet (hgoto s _ _) rfl hsame
        | false => exact h.quiet (hgoto s _ _) rfl hsame
      · cases hstep
    · cases hstep
  | callerReturn call =>
    refine .inr ⟨k, ?_, le_rfl⟩
    simp only [PipelineSys.step, PipelineSys.callerReturn] at hstep
    split at hstep
    · cases hstep
      exact h.quiet (hgoto s _ _) rfl hsame
    · cases hstep
  | done r a =>
    cases r with
    | caller m =>
      obtain ⟨hpow, hpcs⟩ := doneStep_caller hstep
      exact .inr ⟨k, h.quiet hpcs (by rw [hpow]) (by rwa [hpow]), le_rfl⟩
    | worker => exact h.doneStep inv (by simp) hstep
    | shutdown => exact h.doneStep inv (by simp) hstep
  | pow l allocated => exact .inr (h.powStep inv hstep)
  | database sent inbox =>
    cases hstep
    exact .inr ⟨k, h.quiet (fun _ _ => rfl) rfl hsame, le_rfl⟩

/-- The log grows, and a row is recorded by the step that writes it. -/
def Extends (s t : PipelineSys) : Prop :=
  ∃ es, t.log = s.log ++ es ∧ ∀ n row, SendEvent.wrote n row ∈ es → t.sent = messagesStoreInsertSent s.sent row

theorem Extends.ofLog (h : t.log = s.log) : Extends s t := ⟨[], by simp [h], by simp⟩

theorem Extends.ofEvent {e : SendEvent} (h : t.log = s.log ++ [e]) (he : ∀ n row, e ≠ .wrote n row) : Extends s t :=
  ⟨[e], h, fun n row hmem => absurd (List.mem_singleton.mp hmem).symm (he n row)⟩

theorem Extends.completions_le (h : Extends s t) (n : ℕ) : s.completions n ≤ t.completions n := by
  obtain ⟨es, hes, -⟩ := h
  rw [completions, completions, hes, List.countP_append]
  exact Nat.le_add_right _ _

theorem extends_doneStep {r : Runner} {a : DoneAction} (h : s.doneStep H r a = some t) : Extends s t := by
  cases a with
  | ackPowDone payload allocated =>
    simp only [doneStep] at h
    split at h
    · simp only [submitMsg] at h
      split at h
      · obtain ⟨⟨rc, pow⟩, -, rfl⟩ := Option.map_eq_some_iff.mp h
        exact .ofLog rfl
      · cases h
        exact .ofLog rfl
      · cases h
    · cases h
      exact .ofLog rfl
    · cases h
  | msgPowDone stored now =>
    simp only [doneStep] at h
    split at h
    · next call job object hpc =>
      split at h
      · cases h
        refine ⟨[.wrote call (job.sentRow now)], rfl, fun n row hmem => ?_⟩
        cases List.mem_singleton.mp hmem
        rfl
      · cases h
        exact .ofLog rfl
    · cases h
  | callDone =>
    simp only [doneStep] at h
    split at h
    · cases h
      exact .ofEvent rfl (by simp)
    · cases h
      exact .ofEvent rfl (by simp)
    · cases h
      exact .ofEvent rfl (by simp)
    · cases h

theorem extends_step {l : PipelineLabel} (h : s.step H l = some t) : Extends s t := by
  cases l with
  | call thread queued c allocated =>
    simp only [step, call] at h
    split at h
    · cases h
      exact .ofEvent rfl (by simp)
    · split at h
      · obtain ⟨⟨rc, pow⟩, -, rfl⟩ := Option.map_eq_some_iff.mp h
        exact .ofEvent rfl (by simp)
      · cases h
        exact .ofLog rfl
  | callerMined call nonce allocated =>
    simp only [step, callerMined] at h
    split at h
    · split at h
      · cases h
        cases allocated <;> exact .ofLog rfl
      · cases h
    · cases h
  | callerReturn call =>
    simp only [step, callerReturn] at h
    split at h
    · cases h
      exact .ofEvent rfl (by simp)
    · cases h
  | done r a => exact extends_doneStep h
  | pow l allocated =>
    obtain ⟨pow, -, -, -, ⟨rfl, -⟩ | ⟨r, j, job, pc, -, -, rfl, -, -⟩⟩ := powStep_cases h
    · exact .ofLog rfl
    · exact .ofLog rfl
  | database sent inbox =>
    cases h
    exact .ofLog rfl

theorem run_completions_le {ls : List PipelineLabel} (h : Transition.run (step H) s ls = some t) (n : ℕ) :
    s.completions n ≤ t.completions n :=
  Transition.run_invariant (I := fun u => s.completions n ≤ u.completions n)
    (fun _ _ _ hu hstep => hu.trans ((extends_step hstep).completions_le n)) le_rfl h

/-- Enough actions of the two threads, anywhere among those of the others, complete the call. -/
theorem Within.run {n k : ℕ} {ls : List PipelineLabel} (h : s.Within n k) (inv : s.Inv H)
    (hrun : Transition.run (PipelineSys.step H) s ls = some t) (hk : k < ls.countP PipelineLabel.isSystem) :
    0 < t.completions n := by
  induction ls generalizing s k with
  | nil => simp at hk
  | cons l ls ih =>
    obtain ⟨u, hu, ht⟩ := Transition.run_cons hrun
    rcases h.step inv hu with hdone | ⟨k', hwithin, hk'⟩
    · exact lt_of_lt_of_le hdone (run_completions_le ht n)
    · refine ih hwithin (step_inv s l u inv hu) ht ?_
      rw [List.countP_cons] at hk
      omega

/-- Inside a `done` function there is an action to take, if only that the message cannot be built. -/
theorem doneStep_enabled (inv : s.Inv H) {r : Runner} (hr : ∀ m, r ≠ .caller m) {job : StageJob}
    (hjob : (s.pcs r).job? = some job) :
    ∃ a, (∀ payload allocated, a ≠ .ackPowDone (some payload) allocated) ∧ (s.doneStep H r a).isSome = true := by
  cases hpc : s.pcs r with
  | idle => simp [hpc, StagePc.job?] at hjob
  | returning => simp [hpc, StagePc.job?] at hjob
  | mining job payload target =>
    obtain ⟨m, hm⟩ := inv.mining_caller r job payload target hpc
    exact absurd hm (hr m)
  | failing job => exact ⟨.callDone, by simp, by simp [doneStep, hpc]⟩
  | stored job object => exact ⟨.callDone, by simp, by simp [doneStep, hpc]⟩
  | called job object =>
    obtain ⟨call, task⟩ := job
    cases task with
    | ack msg => exact ⟨.ackPowDone none true, by simp, by simp [doneStep, hpc]⟩
    | msg msg => exact ⟨.msgPowDone false 0, by simp, by simp [doneStep, hpc]⟩
    | other => exact ⟨.callDone, by simp, by simp [doneStep, hpc]⟩

/-- A call on its own thread returns after its `done`. -/
def DoneFirst (s : PipelineSys) : Prop := ∀ n, s.pcs (.caller n) = .returning → 0 < s.completions n

theorem DoneFirst.goto (h : s.DoneFirst) (r : Runner) {pc : StagePc} (hpc : pc ≠ .returning) :
    (s.goto r pc).DoneFirst := by
  intro n hn
  by_cases hr : r = .caller n
  · subst hr
    rw [goto_self] at hn
    exact absurd hn hpc
  · rw [goto_of_ne (Ne.symm hr)] at hn
    exact h n hn

theorem DoneFirst.record (h : s.DoneFirst) (e : SendEvent) : (s.record e).DoneFirst := by
  intro n hn
  rw [completions, PipelineSys.record, List.countP_append]
  exact Nat.lt_add_right _ (h n hn)

theorem DoneFirst.complete (h : s.DoneFirst) (inv : s.Inv H) {r : Runner} {job : StageJob}
    (hjob : (s.pcs r).job? = some job) (rc : ℤ) (object : Option Bytes) :
    ((s.record (.done job.call rc object)).goto r (afterDone r)).DoneFirst := by
  intro n hn
  by_cases hr : r = .caller n
  · subst hr
    cases inv.placed (.caller n) job hjob
    exact completions_record job.call rc object
  · rw [goto_of_ne (Ne.symm hr)] at hn
    exact h.record _ n hn

theorem DoneFirst.doneStep (h : s.DoneFirst) (inv : s.Inv H) {r : Runner} {a : DoneAction}
    (hstep : s.doneStep H r a = some t) : t.DoneFirst := by
  cases a with
  | ackPowDone payload allocated =>
    simp only [PipelineSys.doneStep] at hstep
    split at hstep
    · simp only [submitMsg] at hstep
      split at hstep
      · obtain ⟨⟨rc, pow⟩, -, rfl⟩ := Option.map_eq_some_iff.mp hstep
        have hset : (s.setPow pow).DoneFirst := h
        exact hset.goto .worker (by split_ifs <;> simp)
      · cases hstep
        exact h.goto _ (by simp)
      · cases hstep
    · cases hstep
      exact h.goto r (by simp)
    · cases hstep
  | msgPowDone stored now =>
    simp only [PipelineSys.doneStep] at hstep
    split at hstep
    · split at hstep
      · cases hstep
        refine DoneFirst.goto ?_ r (by simp)
        exact DoneFirst.record h _
      · cases hstep
        exact h.goto r (by simp)
    · cases hstep
  | callDone =>
    simp only [PipelineSys.doneStep] at hstep
    split at hstep
    · next hpc =>
      cases hstep
      exact h.complete inv (by rw [hpc]; rfl) _ _
    · next hpc =>
      cases hstep
      exact h.complete inv (by rw [hpc]; rfl) _ _
    · next call object hpc =>
      cases hstep
      have hjob : (s.pcs r).job? = some ⟨call, .other⟩ := by rw [hpc]; rfl
      exact h.complete inv hjob _ _
    · cases hstep

theorem DoneFirst.step (h : s.DoneFirst) (inv : s.Inv H) {l : PipelineLabel} (hstep : s.step H l = some t) :
    t.DoneFirst := by
  cases l with
  | call thread queued c allocated =>
    simp only [PipelineSys.step, PipelineSys.call] at hstep
    split at hstep
    · cases hstep
      exact h.record _
    · split at hstep
      · obtain ⟨⟨rc, pow⟩, -, rfl⟩ := Option.map_eq_some_iff.mp hstep
        exact h.record _
      · cases hstep
        exact h.goto _ (by simp)
  | callerMined call nonce allocated =>
    simp only [PipelineSys.step, PipelineSys.callerMined] at hstep
    split at hstep
    · split at hstep
      · cases hstep
        cases allocated with
        | true => exact h.goto _ (by simp)
        | false => exact h.goto _ (by simp)
      · cases hstep
    · cases hstep
  | callerReturn call =>
    simp only [PipelineSys.step, PipelineSys.callerReturn] at hstep
    split at hstep
    · cases hstep
      exact (h.goto _ (by simp)).record _
    · cases hstep
  | done r a => exact h.doneStep inv hstep
  | pow l allocated =>
    obtain ⟨pow, -, -, -, ⟨rfl, -⟩ | ⟨r, j, job, pc, -, -, rfl, hpc, -⟩⟩ := powStep_cases hstep
    · exact h
    · have hset : (s.setPow pow).DoneFirst := h
      refine hset.goto r ?_
      rintro rfl
      cases hpc
  | database sent inbox =>
    cases hstep
    exact h

/-! ### Where a call is that has returned -/

/-- A call returns once, with one result. -/
theorem Inv.returned_unique (inv : s.Inv H) {n : ℕ} {rc rc' : ℤ} (h : SendEvent.returned n rc ∈ s.log)
    (h' : SendEvent.returned n rc' ∈ s.log) : rc = rc' := by
  have hle : s.log.countP (isReturn n) ≤ 1 := by
    have hreturns := inv.returns_eq n
    simp only [returns, isCall] at hreturns
    split_ifs at hreturns <;> omega
  have hmem : ∀ rc, SendEvent.returned n rc ∈ s.log → SendEvent.returned n rc ∈ s.log.filter (isReturn n) :=
    fun rc hrc => List.mem_filter.mpr ⟨hrc, by simp [isReturn]⟩
  rw [List.countP_eq_length_filter] at hle
  obtain ⟨e, he⟩ := List.length_eq_one_iff.mp (le_antisymm hle (List.length_pos_of_mem (hmem rc h)))
  have hrc := hmem rc h
  have hrc' := hmem rc' h'
  rw [he, List.mem_singleton] at hrc hrc'
  cases hrc.trans hrc'.symm
  rfl

/-- A call that has returned is completed, refused, or on its way. -/
theorem Inv.returned_tally (inv : s.Inv H) {n : ℕ} {rc : ℤ} (h : SendEvent.returned n rc ∈ s.log) :
    ((queued s.pow).map StageJob.call).count n + (held (s.pcs .worker)).count n +
      (held (s.pcs .shutdown)).count n + s.completions n + s.log.countP (isRefusal n) = 1 := by
  have hpos : 0 < s.log.countP (isReturn n) := List.countP_pos_iff.mpr ⟨_, h, by simp [isReturn]⟩
  have hreturns := inv.returns_eq n
  have htally := inv.tally_eq n
  simp only [returns] at hreturns
  have hcall : s.isCall n = 1 := by
    unfold isCall at hreturns ⊢
    split_ifs at hreturns ⊢ <;> omega
  have hidle : (s.pcs (.caller n)).job? = none := by
    cases hpc : (s.pcs (.caller n)).job? with
    | none => rfl
    | some job =>
      rw [active_of_job hpc] at hreturns
      omega
  rw [tally, held_of_none hidle, List.count_nil, hcall] at htally
  simp only [completions]
  omega

/-- A call that was accepted and is not completed is on its way. -/
theorem Inv.within (inv : s.Inv H) {n : ℕ} (h : SendEvent.returned n 0 ∈ s.log) (hzero : s.completions n = 0) :
    ∃ k, s.Within n k := by
  have htally := inv.returned_tally h
  have hrefused : s.log.countP (isRefusal n) = 0 := by
    refine List.countP_eq_zero.mpr fun e he hrefusal => ?_
    cases e with
    | returned m rc =>
      simp only [isRefusal, decide_eq_true_eq] at hrefusal
      obtain ⟨rfl, hrc⟩ := hrefusal
      exact hrc (inv.returned_unique he h)
    | _ => simp [isRefusal] at hrefusal
  have hheld : ∀ r, (∀ m, r ≠ .caller m) → 0 < (held (s.pcs r)).count n → ∃ k, s.Within n k := by
    intro r hr hcount
    obtain ⟨job, hjob, hcall⟩ := List.mem_map.mp (List.count_pos_iff.mp hcount)
    exact ⟨_, .inr ⟨r, job, hr, Option.mem_toList.mp hjob, hcall, le_rfl⟩⟩
  by_cases hworker : 0 < (held (s.pcs .worker)).count n
  · exact hheld .worker (by simp) hworker
  · by_cases hshutdown : 0 < (held (s.pcs .shutdown)).count n
    · exact hheld .shutdown (by simp) hshutdown
    · have hqueue : 0 < ((queued s.pow).map StageJob.call).count n := by omega
      obtain ⟨job, hjob, hcall⟩ := List.mem_map.mp (List.count_pos_iff.mp hqueue)
      obtain ⟨j, hj, hdata⟩ := List.mem_filterMap.mp hjob
      exact ⟨_, .inl ⟨j, hj, job, hdata, hcall, le_rfl⟩⟩

theorem Inv.completions_le (inv : s.Inv H) (n : ℕ) : s.completions n ≤ 1 := by
  have htally := inv.tally_eq n
  simp only [tally, isCall] at htally
  rw [completions]
  split_ifs at htally <;> omega

end PipelineSys

end Bitmessage
