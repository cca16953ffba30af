import Bitmessage.Pow.QueueInvariants

/-! Progress of the job queue, and its contract. The worker and the thread that shuts
the queue down bring every accepted job closer to its `done` with every action they
take, whatever the other threads do in between: later submissions go behind it, and a
shutdown only replaces mining by discarding. As long as the job is not done one of the
two has an action to take. -/

namespace Bitmessage.PowSys

variable {U : Type*} {solves : Bytes → ℕ → ℕ → Bool} {s t : PowSys U}

/-- The actions left before the next job of the list can be done. -/
def phase (s : PowSys U) : ℕ :=
  match s.worker with
  | .inDone _ => 5
  | .waiting => 4
  | .mining _ => 3
  | .exited => if s.shutdownPc.joined then 2 else 3

/-- A bound on the actions of the worker and the shutdown before job `i` is done. -/
def rank (s : PowSys U) (i : ℕ) : ℕ := 3 * (s.undoneJobs.map jobId).idxOf i + s.phase

theorem phase_pos (s : PowSys U) : 0 < s.phase := by
  unfold phase
  split <;> (try split) <;> omega

theorem phase_le (s : PowSys U) : s.phase ≤ 5 := by
  unfold phase
  split <;> (try split) <;> omega

/-- The head of the list is done; the others move up. -/
theorem rank_of_cons {j : PowJob (Ticket U)} {i : ℕ} (hs : s.undoneJobs = j :: t.undoneJobs)
    (hd : t.doneIds = s.doneIds ++ [jobId j]) (hp : t.phase ≤ s.phase + 2) (hi : i ∈ s.undoneJobs.map jobId) :
    i ∈ t.doneIds ∨ i ∈ t.undoneJobs.map jobId ∧ t.rank i + 1 ≤ s.rank i := by
  rw [hs, List.map_cons, List.mem_cons] at hi
  by_cases hij : i = jobId j
  · exact .inl (by rw [hd, hij]; simp)
  · refine .inr ⟨hi.resolve_left hij, ?_⟩
    simp only [rank, hs, List.map_cons]
    rw [List.idxOf_cons_ne _ (Ne.symm hij)]
    omega

/-- The list is unchanged; the phase advances. -/
theorem rank_of_phase {i : ℕ} (hs : t.undoneJobs = s.undoneJobs) (hp : t.phase + 1 ≤ s.phase)
    (hi : i ∈ s.undoneJobs.map jobId) : i ∈ t.undoneJobs.map jobId ∧ t.rank i + 1 ≤ s.rank i := by
  refine ⟨hs ▸ hi, ?_⟩
  simp only [rank, hs]
  omega

theorem rank_submit {thread : Thread} {a : SubmitArgs U} {i : ℕ} (inv : Inv solves s)
    (h : s.submit thread a = some t) (hi : i ∈ s.undoneJobs.map jobId) :
    i ∈ t.undoneJobs.map jobId ∧ t.rank i ≤ s.rank i := by
  rcases submit_cases h with ⟨rc, hrc, rfl⟩ | ⟨j, -, -, -, -, -, -, hsh, -, -, rfl⟩
  · exact ⟨hi, le_rfl⟩
  · set t : PowSys U := { s with
      queue := { s.queue with jobs := s.queue.jobs.enqueue j, pending := addW s.queue.pending 1 }
      calls := s.calls ++ [⟨s.calls.length, a.payload, a.target, 0⟩] }
    have hundone : t.undoneJobs = s.undoneJobs ++ [j] := by
      simp [t, undoneJobs, waitingJobs, inv.shutdown_rest hsh]
    have hphase : t.phase = s.phase := rfl
    simp only [rank, hundone, List.map_append, hphase]
    exact ⟨List.mem_append_left _ hi, by rw [List.idxOf_append_of_mem hi]⟩

theorem rank_shutdown {i : ℕ} (inv : Inv solves s) (hi : i ∈ s.undoneJobs.map jobId) :
    i ∈ s.shutdown.undoneJobs.map jobId ∧ s.shutdown.rank i ≤ s.rank i := by
  rcases shutdown_cases s with ⟨he, -⟩ | ⟨hsh, he⟩
  · rw [he]
    exact ⟨hi, le_rfl⟩
  · have hundone : s.shutdown.undoneJobs = s.undoneJobs := by
      rw [he, undoneJobs, undoneJobs, inv.waitingJobs_eq hsh]
      simp [waitingJobs, ShutdownPc.rest]
    have hphase : s.shutdown.phase = s.phase := by
      have hj : s.shutdownPc.joined = false := by rw [inv.shutdown_eq_false.mpr hsh]; rfl
      rw [he, phase, phase, hj]
      rfl
    simp only [rank, hundone, hphase]
    exact ⟨hi, le_rfl⟩

/-- No action moves a job away from its `done`, and every action of the system moves it closer. -/
theorem step_rank {i : ℕ} {l : PowLabel U} (inv : Inv solves s) (h : step solves s l = some t)
    (hi : i ∈ s.undoneJobs.map jobId) :
    i ∈ t.doneIds ∨
      i ∈ t.undoneJobs.map jobId ∧ t.rank i + (if l.isSystem then 1 else 0) ≤ s.rank i := by
  cases l with
  | submit thread a => exact .inr (rank_submit inv h hi)
  | shutdown => cases h; exact .inr (rank_shutdown inv hi)
  | take =>
    obtain ⟨j, q, hw, hsh, hl, rfl⟩ := take_cases h
    refine .inr (rank_of_phase ?_ ?_ hi)
    · simp [undoneJobs, waitingJobs, hw, WorkerPc.undone, hl, inv.shutdown_rest hsh]
    · simp [phase, hw]
  | mined nonce =>
    obtain ⟨j, hw, -, rfl⟩ := mined_cases h
    refine rank_of_cons (j := j) ?_ (by simp [doneIds]) (by simp [phase, hw]) hi
    simp [undoneJobs, waitingJobs, hw, WorkerPc.undone]
  | cancelled =>
    obtain ⟨j, hw, -, rfl⟩ := cancelled_cases h
    refine rank_of_cons (j := j) ?_ (by simp [doneIds]) (by simp [phase, hw]) hi
    simp [undoneJobs, waitingJobs, hw, WorkerPc.undone]
  | finish =>
    obtain ⟨j, hw, rfl⟩ := finish_cases h
    refine .inr (rank_of_phase ?_ (by simp [phase, hw]) hi)
    simp [undoneJobs, waitingJobs, hw, WorkerPc.undone, powQueueFinish]
  | exit =>
    obtain ⟨hw, hs, rfl⟩ := exit_cases h
    refine .inr (rank_of_phase ?_ ?_ hi)
    · simp [undoneJobs, waitingJobs, hw, WorkerPc.undone]
    · have hj : s.shutdownPc.joined = false := by
        rw [← Bool.not_eq_true]
        intro hj
        simp [inv.joined_exited hj] at hw
      simp [phase, hw, hj]
  | join =>
    obtain ⟨r, hl, hw, rfl⟩ := join_cases h
    refine .inr (rank_of_phase ?_ (by simp [phase, hw, hl, ShutdownPc.joined]) hi)
    simp [undoneJobs, waitingJobs, hl, ShutdownPc.rest]
  | discard =>
    obtain ⟨j, r, hl, rfl⟩ := discard_cases h
    have hw : s.worker = .exited := inv.joined_exited (by rw [hl]; rfl)
    have hjobs := inv.shutdown_jobs (inv.exited_shutdown hw)
    refine rank_of_cons (j := j) ?_ (by simp [doneIds]) (by simp [phase, hw, hl, ShutdownPc.joined]) hi
    simp [undoneJobs, waitingJobs, hw, WorkerPc.undone, hl, ShutdownPc.rest, hjobs]
  | shutdownReturn =>
    obtain ⟨hl, rfl⟩ := shutdownReturn_cases h
    have hw : s.worker = .exited := inv.joined_exited (by rw [hl]; rfl)
    have hjobs := inv.shutdown_jobs (inv.exited_shutdown hw)
    simp [undoneJobs, waitingJobs, hw, WorkerPc.undone, hl, ShutdownPc.rest, hjobs] at hi

/-- An invocation of `done` stays in the history. -/
theorem step_doneIds {l : PowLabel U} (h : step solves s l = some t) : s.doneIds <+: t.doneIds := by
  have happ : ∀ d : DoneCall, s.doneIds <+: (s.dones ++ [d]).map DoneCall.id := fun d => by
    rw [List.map_append]
    exact List.prefix_append _ _
  cases l with
  | submit thread a =>
    rcases submit_cases h with ⟨rc, -, rfl⟩ | ⟨j, -, -, -, -, -, -, -, -, -, rfl⟩ <;> exact List.prefix_rfl
  | take => obtain ⟨j, q, -, -, -, rfl⟩ := take_cases h; exact List.prefix_rfl
  | mined nonce => obtain ⟨j, -, -, rfl⟩ := mined_cases h; exact happ _
  | cancelled => obtain ⟨j, -, -, rfl⟩ := cancelled_cases h; exact happ _
  | finish => obtain ⟨j, -, rfl⟩ := finish_cases h; exact List.prefix_rfl
  | exit => obtain ⟨-, -, rfl⟩ := exit_cases h; exact List.prefix_rfl
  | shutdown =>
    cases h
    rcases shutdown_cases s with ⟨he, -⟩ | ⟨-, he⟩
    · rw [he]
    · rw [he]; exact List.prefix_rfl
  | join => obtain ⟨l, -, -, rfl⟩ := join_cases h; exact List.prefix_rfl
  | discard => obtain ⟨j, l, -, rfl⟩ := discard_cases h; exact happ _
  | shutdownReturn => obtain ⟨-, rfl⟩ := shutdownReturn_cases h; exact List.prefix_rfl

theorem run_doneIds {ks : List (PowLabel U)} (h : Transition.run (step solves) s ks = some t) :
    s.doneIds <+: t.doneIds :=
  Transition.run_invariant (I := fun u => s.doneIds <+: u.doneIds)
    (fun _ _ _ hu hstep => hu.trans (step_doneIds hstep)) List.prefix_rfl h

/-- Enough actions of the system, anywhere among the calls from outside, invoke `done`. -/
theorem run_done {i : ℕ} {ks : List (PowLabel U)} (inv : Inv solves s)
    (h : Transition.run (step solves) s ks = some t) (hi : i ∈ s.undoneJobs.map jobId)
    (hk : s.rank i ≤ ks.countP PowLabel.isSystem) : i ∈ t.doneIds := by
  induction ks generalizing s with
  | nil =>
    have := s.phase_pos
    simp only [rank, List.countP_nil] at hk
    omega
  | cons l ks ih =>
    obtain ⟨u, hu, ht⟩ := Transition.run_cons h
    rcases step_rank inv hu hi with hdone | ⟨hundone, hrank⟩
    · exact (run_doneIds ht).subset hdone
    · refine ih (step_inv s l u inv hu) ht hundone ?_
      rw [List.countP_cons] at hk
      omega

/-- As long as a job is not done, the worker or the shutdown can act, if the job that is mined has a nonce. -/
theorem system_enabled (hsolve : ∀ j, s.worker = .mining j → ∃ nonce, solves j.payload j.target nonce = true)
    (inv : Inv solves s) (hne : s.undoneJobs ≠ []) :
    ∃ l : PowLabel U, l.isSystem = true ∧ (step solves s l).isSome = true := by
  cases hw : s.worker with
  | mining j =>
    obtain ⟨nonce, hn⟩ := hsolve j hw
    exact ⟨.mined nonce, rfl, by simp [step, mined, hw, hn]⟩
  | inDone j => exact ⟨.finish, rfl, by simp [step, finish, hw]⟩
  | waiting =>
    cases hsh : s.queue.shutdown with
    | true => exact ⟨.exit, rfl, by simp [step, exit, hw, hsh]⟩
    | false =>
      rw [undoneJobs, hw, inv.waitingJobs_eq hsh, WorkerPc.undone, List.nil_append] at hne
      obtain ⟨j, js, hl⟩ := List.exists_cons_of_ne_nil hne
      obtain ⟨q, hq⟩ := powQueueTake_of_cons hsh hl
      exact ⟨.take, rfl, by simp [step, take, hw, hq]⟩
  | exited =>
    have hsh := inv.exited_shutdown hw
    rw [undoneJobs, hw, WorkerPc.undone, List.nil_append, waitingJobs, inv.shutdown_jobs hsh,
      List.nil_append] at hne
    cases hl : s.shutdownPc with
    | notCalled => simp [hl, ShutdownPc.rest] at hne
    | joining r => exact ⟨.join, rfl, by simp [step, join, hl, hw]⟩
    | discarding r =>
      cases r with
      | nil => simp [hl, ShutdownPc.rest] at hne
      | cons j r => exact ⟨.discard, rfl, by simp [step, discard, hl]⟩
    | returned => simp [hl, ShutdownPc.rest] at hne

/-! ### The contract -/

theorem step_maxPending {l : PowLabel U} (h : step solves s l = some t) :
    t.queue.maxPending = s.queue.maxPending := by
  cases l with
  | submit thread a =>
    rcases submit_cases h with ⟨rc, -, rfl⟩ | ⟨j, -, -, -, -, -, -, -, -, -, rfl⟩ <;> rfl
  | take => obtain ⟨j, q, -, -, -, rfl⟩ := take_cases h; rfl
  | mined nonce => obtain ⟨j, -, -, rfl⟩ := mined_cases h; rfl
  | cancelled => obtain ⟨j, -, -, rfl⟩ := cancelled_cases h; rfl
  | finish => obtain ⟨j, -, rfl⟩ := finish_cases h; rfl
  | exit => obtain ⟨-, -, rfl⟩ := exit_cases h; rfl
  | shutdown => cases h; rcases shutdown_cases s with ⟨he, -⟩ | ⟨-, he⟩ <;> rw [he]
  | join => obtain ⟨l, -, -, rfl⟩ := join_cases h; rfl
  | discard => obtain ⟨j, l, -, rfl⟩ := discard_cases h; rfl
  | shutdownReturn => obtain ⟨-, rfl⟩ := shutdownReturn_cases h; rfl

theorem Inv.call_unique (inv : Inv solves s) {c d : SubmitCall} (hc : c ∈ s.calls) (hd : d ∈ s.calls)
    (h : c.id = d.id) : c = d := by
  have hnd : (s.calls.map SubmitCall.id).Nodup := by rw [inv.call_ids]; exact List.nodup_range
  exact List.inj_on_of_nodup_map hnd hc hd h

theorem Inv.mem_accepted (inv : Inv solves s) {c : SubmitCall} (hc : c ∈ s.calls) :
    c.id ∈ s.accepted ↔ c.rc = 0 := by
  simp only [accepted, List.mem_map, List.mem_filter, decide_eq_true_eq]
  constructor
  · rintro ⟨d, ⟨hd, hrc⟩, he⟩
    exact inv.call_unique hd hc he ▸ hrc
  · exact fun hrc => ⟨c, ⟨hc, hrc⟩, rfl⟩

theorem Inv.doneIds_nodup (inv : Inv solves s) : s.doneIds.Nodup := by
  have := inv.accepted_nodup
  rw [inv.accepted_eq] at this
  exact this.of_append_left

theorem Inv.rank_le (inv : Inv solves s) {i : ℕ} (hi : i ∈ s.undoneJobs.map jobId) :
    s.rank i ≤ 3 * s.accepted.length + 2 := by
  have hidx := List.idxOf_lt_length_of_mem hi
  have hlen : (s.undoneJobs.map jobId).length ≤ s.accepted.length := by
    rw [inv.accepted_eq, List.length_append]
    exact Nat.le_add_left _ _
  have := s.phase_le
  simp only [rank]
  omega

/-- The job of an accepted call is invoked exactly once: never twice, with an object that
passes the test or, after a shutdown, with null, and certainly once the worker and the
shutdown have taken enough actions; until then one of them has an action to take. -/
def ExactlyOnce (solves : Bytes → ℕ → ℕ → Bool) (s : PowSys U) (c : SubmitCall) : Prop :=
  s.doneIds.count c.id ≤ 1 ∧
  (∀ d ∈ s.dones, d.id = c.id →
    (∃ o, d.object = some o ∧ Solved solves c o) ∨ (d.object = none ∧ s.queue.shutdown = true)) ∧
  (s.doneIds.count c.id = 0 → ∃ l : PowLabel U, l.isSystem = true ∧ (step solves s l).isSome = true) ∧
  (∀ ks t, Transition.run (step solves) s ks = some t →
    3 * s.accepted.length + 2 ≤ ks.countP PowLabel.isSystem → t.doneIds.count c.id = 1)

theorem Inv.exactlyOnce (hsolve : ∀ payload target, ∃ nonce, solves payload target nonce = true)
    (inv : Inv solves s) {c : SubmitCall} (hc : c ∈ s.calls) (hrc : c.rc = 0) : ExactlyOnce solves s c := by
  have hacc : c.id ∈ s.doneIds ∨ c.id ∈ s.undoneJobs.map jobId := by
    have := (inv.mem_accepted hc).mpr hrc
    rwa [inv.accepted_eq, List.mem_append] at this
  refine ⟨List.nodup_iff_count_le_one.mp inv.doneIds_nodup _, ?_, ?_, ?_⟩
  · intro d hd hid
    cases ho : d.object with
    | some o =>
      obtain ⟨c', hc', hid', hs⟩ := inv.done_solved d hd o ho
      rw [inv.call_unique hc' hc (hid'.trans hid)] at hs
      exact .inl ⟨o, rfl, hs⟩
    | none => exact .inr ⟨rfl, inv.done_null d hd ho⟩
  · intro hzero
    have hundone := hacc.resolve_left (List.count_eq_zero.mp hzero)
    exact system_enabled (fun j _ => hsolve j.payload j.target) inv (by rintro he; simp [he] at hundone)
  · intro ks t ht hk
    have hdone : c.id ∈ t.doneIds := by
      rcases hacc with hdone | hundone
      · exact (run_doneIds ht).subset hdone
      · exact run_done inv ht hundone ((inv.rank_le hundone).trans hk)
    have invt : Inv solves t := Transition.run_invariant step_inv inv ht
    exact List.count_eq_one_of_mem invt.doneIds_nodup hdone

/-- In every interleaving of submissions, worker and shutdown: accepted jobs are done exactly
once and refused ones never, the counter is the length of the list and bounded, jobs start in
the order of submission, and a non-empty key is in flight twice only between a running job and
a follow-up that its `done` has submitted. -/
theorem powQueue_contract (solves : Bytes → ℕ → ℕ → Bool)
    (hsolve : ∀ payload target, ∃ nonce, solves payload target nonce = true)
    (maxPending : ℕ) (hm : maxPending < wordSize) (ls : List (PowLabel U)) (s : PowSys U)
    (h : Transition.run (step solves) (init maxPending hm) ls = some s) :
    (∀ c ∈ s.calls, c.rc = 0 → ExactlyOnce solves s c) ∧
    (∀ c ∈ s.calls, c.rc ≠ 0 → s.doneIds.count c.id = 0) ∧
    (s.queue.pending = s.queue.jobs.toList.length ∧ s.queue.pending ≤ maxPending ∧ s.started <+: s.accepted) ∧
    (s.queue.jobs.toList.Pairwise (fun i j => i.key ≠ [] → i.key ≠ j.key) ∧
      ∀ r, s.queue.running = some r → ∀ j ∈ s.queue.jobs.toList, j.key ≠ [] → j.key = r.key →
        s.worker = .inDone r ∧ j.userData.origin = some r.userData.id) := by
  have inv := run_inv h
  have hmax : s.queue.maxPending = maxPending :=
    Transition.run_invariant (I := fun t => t.queue.maxPending = maxPending)
      (fun _ _ _ hs hstep => (step_maxPending hstep).trans hs) rfl h
  refine ⟨fun c hc hrc => inv.exactlyOnce hsolve hc hrc, ?_, ⟨inv.pending_eq, ?_, inv.started_accepted⟩, ?_, ?_⟩
  · intro c hc hrc
    refine List.count_eq_zero.mpr fun hdone => hrc ((inv.mem_accepted hc).mp ?_)
    rw [inv.accepted_eq]
    exact List.mem_append_left _ hdone
  · exact hmax ▸ inv.pending_le
  · exact (List.pairwise_append.mp inv.keys).1
  · exact fun r hr j hj => inv.running_key r hr j (List.mem_append_left _ hj)

/-- A job whose `done` submits a follow-up with the same key, and a shutdown that cancels it. -/
def followUpTrace : List (PowLabel ℕ) :=
  [.submit (.other 0) ⟨[1], 9, some [7], 0⟩, .take, .submit (.other 1) ⟨[2], 9, some [7], 0⟩, .mined 5,
    .submit .worker ⟨[3], 9, some [7], 1⟩, .finish, .take, .shutdown, .cancelled, .finish, .exit, .join,
    .shutdownReturn]

theorem powQueue_contract_followUp :
    ∃ s : PowSys ℕ,
      Transition.run (step fun _ _ _ => true) (init 2 (by decide)) followUpTrace = some s ∧
      (s.calls.map SubmitCall.rc, s.doneIds) = ([0, 1, 0], [0, 2]) ∧
      (∀ c ∈ s.calls, c.rc = 0 → ExactlyOnce (fun _ _ _ => true) s c) := by
  have hrun : (Transition.run (step fun _ _ _ => true) (init 2 (by decide)) followUpTrace).map
      (fun s => (s.calls.map SubmitCall.rc, s.doneIds)) = some ([0, 1, 0], [0, 2]) := rfl
  obtain ⟨s, hs, he⟩ := Option.map_eq_some_iff.mp hrun
  exact ⟨s, hs, he, (powQueue_contract _ (fun _ _ => ⟨0, rfl⟩) 2 (by decide) followUpTrace s hs).1⟩

end Bitmessage.PowSys
