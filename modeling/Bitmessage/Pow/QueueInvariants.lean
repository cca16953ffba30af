import Bitmessage.Pow.QueueSystem

/-! What holds in every interleaving of the threads around the job queue. The
invariant ties the list to its counter, the running job to the worker, and the
history to the state: the accepted jobs are, in order, those already done followed by
those still to be done. Everything the queue promises is read off it: no job is done
twice, a refused job never, and a key is shared only by a running job and a follow-up
submitted inside its `done`. -/

namespace Bitmessage.PowSys

variable {U : Type*} {solves : Bytes → ℕ → ℕ → Bool}

/-- The number of a job. -/
abbrev jobId (j : PowJob (Ticket U)) : ℕ := j.userData.id

/-- Two waiting jobs do not share a key, unless it is empty. -/
def KeysDiffer (i j : PowJob (Ticket U)) : Prop := i.key ≠ [] → i.key ≠ j.key

/-- Call `c` is the one that submitted `j`. -/
def Submitted (c : SubmitCall) (j : PowJob (Ticket U)) : Prop :=
  c.id = jobId j ∧ c.payload = j.payload ∧ c.target = j.target

/-- The object handed to `done` belongs to the call and passes the test. -/
def Solved (solves : Bytes → ℕ → ℕ → Bool) (c : SubmitCall) (object : Bytes) : Prop :=
  ∃ nonce, solves c.payload c.target nonce = true ∧ object = buildObject c.payload nonce

variable (solves) in
structure Inv (s : PowSys U) : Prop where
  pending_eq : s.queue.pending = s.queue.jobs.toList.length
  pending_le : s.queue.pending ≤ s.queue.maxPending
  running_eq : s.queue.running = s.worker.job?
  cancel_eq : s.queue.cancel = s.queue.shutdown
  shutdown_eq_false : s.shutdownPc = .notCalled ↔ s.queue.shutdown = false
  shutdown_jobs : s.queue.shutdown = true → s.queue.jobs.toList = []
  exited_shutdown : s.worker = .exited → s.queue.shutdown = true
  joined_exited : s.shutdownPc.joined = true → s.worker = .exited
  call_ids : s.calls.map SubmitCall.id = List.range s.calls.length
  accepted_eq : s.accepted = s.doneIds ++ s.undoneJobs.map jobId
  undone_submitted : ∀ j ∈ s.undoneJobs, ∃ c ∈ s.calls, Submitted c j
  done_solved : ∀ d ∈ s.dones, ∀ o, d.object = some o → ∃ c ∈ s.calls, c.id = d.id ∧ Solved solves c o
  done_null : ∀ d ∈ s.dones, d.object = none → s.queue.shutdown = true
  started_eq : s.shutdownPc.joined = false → s.started = s.doneIds ++ s.worker.undone.map jobId
  started_accepted : s.started <+: s.accepted
  keys : s.waitingJobs.Pairwise KeysDiffer
  running_key : ∀ r, s.queue.running = some r → ∀ j ∈ s.waitingJobs, j.key ≠ [] → j.key = r.key →
    s.worker = .inDone r ∧ j.userData.origin = some (jobId r)

theorem init_inv (maxPending : ℕ) (h : maxPending < wordSize) :
    Inv solves (init maxPending h : PowSys U) := by
  constructor <;>
    simp [init, powQueueInit, WorkerPc.job?, accepted, doneIds, undoneJobs, waitingJobs, WorkerPc.undone,
      ShutdownPc.rest, ShutdownPc.joined]

section

variable {s t : PowSys U}

theorem Inv.shutdown_rest (inv : Inv solves s) (h : s.queue.shutdown = false) : s.shutdownPc.rest = [] := by
  rw [inv.shutdown_eq_false.mpr h]
  rfl

theorem Inv.waitingJobs_eq (inv : Inv solves s) (h : s.queue.shutdown = false) :
    s.waitingJobs = s.queue.jobs.toList := by
  rw [waitingJobs, inv.shutdown_rest h, List.append_nil]

/-- The calls are numbered, so no job is accepted twice. -/
theorem Inv.accepted_nodup (inv : Inv solves s) : s.accepted.Nodup := by
  refine List.Nodup.sublist (List.filter_sublist.map SubmitCall.id) ?_
  rw [inv.call_ids]
  exact List.nodup_range

theorem Inv.pending_lt (inv : Inv solves s) : s.queue.pending < wordSize :=
  lt_of_le_of_lt inv.pending_le s.queue.maxPending_lt

/-- A refused call leaves its number behind and nothing else. -/
theorem Inv.refuse (inv : Inv solves s) {payload : Bytes} {target : ℕ} {rc : ℤ} (hrc : rc ≠ 0) :
    Inv solves { s with calls := s.calls ++ [⟨s.calls.length, payload, target, rc⟩] } := by
  have hacc : accepted { s with calls := s.calls ++ [⟨s.calls.length, payload, target, rc⟩] } = s.accepted := by
    simp [accepted, hrc]
  exact { inv with
    call_ids := by simp [inv.call_ids, List.range_succ]
    accepted_eq := hacc.trans inv.accepted_eq
    undone_submitted := fun j hj =>
      let ⟨c, hc, hs⟩ := inv.undone_submitted j hj
      ⟨c, List.mem_append_left _ hc, hs⟩
    done_solved := by
      intro d hd o ho
      obtain ⟨c, hc, hs⟩ := inv.done_solved d hd o ho
      exact ⟨c, List.mem_append_left _ hc, hs⟩
    started_accepted := hacc ▸ inv.started_accepted }

/-- An accepted call appends its job to the waiting ones. -/
theorem Inv.enqueue (inv : Inv solves s) {thread : Thread} {j : PowJob (Ticket U)}
    (hid : j.userData.id = s.calls.length) (ho : s.origin thread = some j.userData.origin)
    (hsh : s.queue.shutdown = false) (hlt : s.queue.pending < s.queue.maxPending)
    (hkey : j.key ≠ [] → keyInFlight s.queue (decide (thread = .worker)) j.key = false) :
    Inv solves { s with
      queue := { s.queue with jobs := s.queue.jobs.enqueue j, pending := addW s.queue.pending 1 }
      calls := s.calls ++ [⟨s.calls.length, j.payload, j.target, 0⟩] } := by
  set t : PowSys U := { s with
    queue := { s.queue with jobs := s.queue.jobs.enqueue j, pending := addW s.queue.pending 1 }
    calls := s.calls ++ [⟨s.calls.length, j.payload, j.target, 0⟩] }
  have hpend : addW s.queue.pending 1 = s.queue.pending + 1 :=
    addW_of_lt (lt_of_le_of_lt hlt s.queue.maxPending_lt)
  have hwait : t.waitingJobs = s.waitingJobs ++ [j] := by
    simp [t, waitingJobs, inv.shutdown_rest hsh]
  have hundone : t.undoneJobs = s.undoneJobs ++ [j] := by
    change s.worker.undone ++ t.waitingJobs = _
    rw [hwait, undoneJobs, List.append_assoc]
  have hacc : t.accepted = s.accepted ++ [j.userData.id] := by
    simp [t, accepted, hid]
  exact { inv with
    pending_eq := by
      change addW s.queue.pending 1 = (s.queue.jobs.enqueue j).toList.length
      rw [hpend, inv.pending_eq, LinkedQueue.toList_enqueue, List.length_append, List.length_singleton]
    pending_le := by simp only [t, hpend]; omega
    shutdown_jobs := fun h => by simp [t, hsh] at h
    call_ids := by simp [t, inv.call_ids, List.range_succ]
    accepted_eq := by
      rw [hacc, hundone, inv.accepted_eq, List.map_append, List.append_assoc]
      rfl
    undone_submitted := by
      intro i hi
      rw [hundone, List.mem_append, List.mem_singleton] at hi
      rcases hi with hi | rfl
      · obtain ⟨c, hc, hs⟩ := inv.undone_submitted i hi
        exact ⟨c, List.mem_append_left _ hc, hs⟩
      · exact ⟨_, List.mem_append_right _ (List.mem_singleton.mpr rfl), hid.symm, rfl, rfl⟩
    done_solved := by
      intro d hd o ho
      obtain ⟨c, hc, hs⟩ := inv.done_solved d hd o ho
      exact ⟨c, List.mem_append_left _ hc, hs⟩
    started_accepted := hacc ▸ inv.started_accepted.trans (List.prefix_append _ _)
    keys := by
      rw [hwait, List.pairwise_append]
      refine ⟨inv.keys, List.pairwise_singleton _ _, ?_⟩
      intro i hi k hk hne he
      rw [List.mem_singleton] at hk
      subst hk
      rw [inv.waitingJobs_eq hsh] at hi
      exact (keyInFlight_eq_false (hkey (he ▸ hne))).1 i hi he
    running_key := by
      intro r hr i hi hne he
      rw [hwait, List.mem_append, List.mem_singleton] at hi
      rcases hi with hi | rfl
      · exact inv.running_key r hr i hi hne he
      · -- the check skips the running job only on the worker thread, hence inside its `done`
        cases thread with
        | other n => exact absurd he.symm ((keyInFlight_eq_false (hkey hne)).2 (by simp) r hr)
        | worker =>
          have hw : s.worker.job? = some r := inv.running_eq ▸ hr
          unfold origin at ho
          simp only at ho
          split at ho
          · next k hk =>
            rw [hk] at hw
            cases hw
            exact ⟨hk, (Option.some.inj ho).symm⟩
          · cases ho }

theorem Inv.submit (inv : Inv solves s) {thread : Thread} {a : SubmitArgs U} (h : s.submit thread a = some t) :
    Inv solves t := by
  rcases submit_cases h with ⟨rc, hrc, rfl⟩ | ⟨j, hid, hp, ht, -, -, ho, hsh, hlt, hkey, rfl⟩
  · exact inv.refuse hrc
  · rw [← hp, ← ht]
    exact inv.enqueue hid ho hsh hlt hkey

/-- The head of the waiting jobs becomes the running one. -/
theorem Inv.take (inv : Inv solves s) (h : s.take = some t) : Inv solves t := by
  obtain ⟨j, q, hw, hsh, hl, rfl⟩ := take_cases h
  have hrest := inv.shutdown_rest hsh
  have hnc := inv.shutdown_eq_false.mpr hsh
  have hlen : s.queue.pending = q.toList.length + 1 := by rw [inv.pending_eq, hl, List.length_cons]
  have hpend : subW s.queue.pending 1 = q.toList.length := by
    rw [subW_one_of_pos inv.pending_lt (by omega), hlen, Nat.add_sub_cancel]
  have hundone : s.undoneJobs = j :: q.toList := by
    simp [undoneJobs, waitingJobs, hw, WorkerPc.undone, hl, hrest]
  have hstarted : s.started = s.doneIds := by
    simpa [hnc, hw, ShutdownPc.joined, WorkerPc.undone] using inv.started_eq
  have hkeys : (j :: q.toList).Pairwise KeysDiffer := by
    have := inv.keys
    rwa [inv.waitingJobs_eq hsh, hl] at this
  exact { inv with
    pending_eq := hpend
    pending_le := by simp only [hpend]; have := inv.pending_le; omega
    running_eq := rfl
    shutdown_jobs := fun h' => by simp [hsh] at h'
    exited_shutdown := by intro hex; cases hex
    joined_exited := fun h' => by simp [hnc, ShutdownPc.joined] at h'
    accepted_eq := by
      change s.accepted = _
      rw [inv.accepted_eq, hundone]
      simp [doneIds, undoneJobs, waitingJobs, WorkerPc.undone, hrest]
    undone_submitted := by
      intro i hi
      refine inv.undone_submitted i ?_
      rw [hundone]
      simpa [undoneJobs, waitingJobs, WorkerPc.undone, hrest] using hi
    started_eq := fun _ => by rw [hstarted]; rfl
    started_accepted := by
      change s.started ++ [jobId j] <+: s.accepted
      rw [inv.accepted_eq, hstarted, hundone]
      exact ⟨q.toList.map jobId, by simp⟩
    keys := by
      have := (List.pairwise_cons.mp hkeys).2
      simpa [waitingJobs, hrest] using this
    running_key := by
      intro r hr i hi hne he
      cases hr
      have hi : i ∈ q.toList := by simpa [waitingJobs, hrest] using hi
      exact absurd he.symm ((List.pairwise_cons.mp hkeys).1 i hi (he ▸ hne)) }

/-- `done` of the running job is called, with whatever object. -/
theorem Inv.callDone (inv : Inv solves s) {j : PowJob (Ticket U)} (hw : s.worker = .mining j)
    {object : Option Bytes}
    (hsome : ∀ o, object = some o → ∃ c ∈ s.calls, c.id = jobId j ∧ Solved solves c o)
    (hnone : object = none → s.queue.shutdown = true) :
    Inv solves { s with worker := .inDone j, dones := s.dones ++ [⟨jobId j, object⟩] } := by
  have hnj : s.shutdownPc.joined = false := by
    rw [← Bool.not_eq_true]
    intro hj
    simp [inv.joined_exited hj] at hw
  have hundone : s.undoneJobs = j :: s.waitingJobs := by simp [undoneJobs, hw, WorkerPc.undone]
  have hstarted : s.started = s.doneIds ++ [jobId j] := by
    simpa [hw, WorkerPc.undone] using inv.started_eq hnj
  exact { inv with
    running_eq := by rw [inv.running_eq, hw]; rfl
    exited_shutdown := nofun
    joined_exited := fun h => by simp [hnj] at h
    accepted_eq := by
      change s.accepted = _
      rw [inv.accepted_eq, hundone]
      simp [doneIds, undoneJobs, WorkerPc.undone, waitingJobs]
    undone_submitted := by
      intro i hi
      refine inv.undone_submitted i ?_
      rw [hundone]
      exact List.mem_cons_of_mem _ (by simpa [undoneJobs, WorkerPc.undone, waitingJobs] using hi)
    done_solved := by
      intro d hd o ho
      rcases List.mem_append.mp hd with hd | hd
      · exact inv.done_solved d hd o ho
      · rw [List.mem_singleton] at hd
        subst hd
        exact hsome o ho
    done_null := by
      intro d hd ho
      rcases List.mem_append.mp hd with hd | hd
      · exact inv.done_null d hd ho
      · rw [List.mem_singleton] at hd
        subst hd
        exact hnone ho
    started_eq := fun _ => by simp [hstarted, doneIds, WorkerPc.undone]
    running_key := by
      intro r hr i hi hne he
      -- while the job was being mined nothing waiting shared its key
      have := (inv.running_key r hr i hi hne he).1
      simp [hw] at this }

theorem Inv.mined (inv : Inv solves s) {nonce : ℕ} (h : s.mined solves nonce = some t) : Inv solves t := by
  obtain ⟨j, hw, hs, rfl⟩ := mined_cases h
  refine inv.callDone hw ?_ nofun
  rintro o ⟨⟩
  obtain ⟨c, hc, hid, hp, ht⟩ := inv.undone_submitted j (by simp [undoneJobs, hw, WorkerPc.undone])
  exact ⟨c, hc, hid, nonce, by rw [hp, ht]; exact hs, by rw [hp]⟩

theorem Inv.cancelled (inv : Inv solves s) (h : s.cancelled = some t) : Inv solves t := by
  obtain ⟨j, hw, hc, rfl⟩ := cancelled_cases h
  exact inv.callDone hw nofun fun _ => inv.cancel_eq ▸ hc

theorem Inv.finish (inv : Inv solves s) (h : s.finish = some t) : Inv solves t := by
  obtain ⟨j, hw, rfl⟩ := finish_cases h
  have hundone : s.worker.undone = [] := by rw [hw]; rfl
  exact { inv with
    running_eq := rfl
    exited_shutdown := nofun
    joined_exited := fun hj => by have := inv.joined_exited hj; simp [hw] at this
    accepted_eq := by
      have := inv.accepted_eq
      simp only [undoneJobs, hundone] at this
      exact this
    undone_submitted := fun i hi => inv.undone_submitted i (by rw [undoneJobs, hundone]; exact hi)
    started_eq := fun hj => by rw [inv.started_eq hj, hundone]; rfl
    running_key := nofun }

theorem Inv.exit (inv : Inv solves s) (h : s.exit = some t) : Inv solves t := by
  obtain ⟨hw, hs, rfl⟩ := exit_cases h
  have hundone : s.worker.undone = [] := by rw [hw]; rfl
  exact { inv with
    running_eq := by rw [inv.running_eq, hw]; rfl
    exited_shutdown := fun _ => hs
    joined_exited := fun _ => rfl
    accepted_eq := by
      have := inv.accepted_eq
      simp only [undoneJobs, hundone] at this
      exact this
    undone_submitted := fun i hi => inv.undone_submitted i (by rw [undoneJobs, hundone]; exact hi)
    started_eq := fun hj => by rw [inv.started_eq hj, hundone]; rfl
    running_key := by
      intro r hr
      rw [inv.running_eq, hw] at hr
      cases hr }

/-- Shutdown moves the waiting jobs from the queue to the list of the caller. -/
theorem Inv.shutdown (inv : Inv solves s) : Inv solves s.shutdown := by
  rcases shutdown_cases s with ⟨he, -⟩ | ⟨hsh, he⟩
  · rwa [he]
  · rw [he]
    set t : PowSys U := { s with
      queue := { s.queue with shutdown := true, cancel := true, jobs := s.queue.jobs.clear, pending := 0 }
      shutdownPc := .joining s.queue.jobs.toList }
    have hwait : t.waitingJobs = s.waitingJobs := by
      rw [inv.waitingJobs_eq hsh]
      simp [t, waitingJobs, ShutdownPc.rest]
    have hundone : t.undoneJobs = s.undoneJobs := by
      simp only [undoneJobs, hwait]
      rfl
    have hjoined : s.shutdownPc.joined = false := by rw [inv.shutdown_eq_false.mpr hsh]; rfl
    exact { inv with
      pending_eq := by simp [t]
      pending_le := Nat.zero_le _
      cancel_eq := rfl
      shutdown_eq_false := by simp [t]
      shutdown_jobs := fun _ => by simp [t]
      exited_shutdown := fun _ => rfl
      joined_exited := fun h => by simp [t, ShutdownPc.joined] at h
      accepted_eq := by rw [hundone]; exact inv.accepted_eq
      undone_submitted := by rw [hundone]; exact inv.undone_submitted
      done_null := fun _ _ _ => rfl
      started_eq := fun _ => inv.started_eq hjoined
      keys := by rw [hwait]; exact inv.keys
      running_key := by rw [hwait]; exact inv.running_key }

/-- The shutdown goes on behind the join, with the same jobs still to discard. -/
theorem Inv.setShutdownPc (inv : Inv solves s) (hw : s.worker = .exited) {pc : ShutdownPc U} (hjoined : pc.joined = true)
    (hrest : pc.rest = s.shutdownPc.rest) : Inv solves { s with shutdownPc := pc } := by
  have hsh := inv.exited_shutdown hw
  have hwait : waitingJobs { s with shutdownPc := pc } = s.waitingJobs := by
    simp only [waitingJobs, hrest]
  have hundone : undoneJobs { s with shutdownPc := pc } = s.undoneJobs := by
    simp only [undoneJobs, hwait]
  have hcalled : pc ≠ .notCalled := by
    rintro rfl
    cases hjoined
  exact { inv with
    shutdown_eq_false := by simp [hsh, hcalled]
    joined_exited := fun _ => hw
    accepted_eq := by rw [hundone]; exact inv.accepted_eq
    undone_submitted := by rw [hundone]; exact inv.undone_submitted
    started_eq := fun h => by rw [hjoined] at h; cases h
    keys := by rw [hwait]; exact inv.keys
    running_key := by rw [hwait]; exact inv.running_key }

theorem Inv.join (inv : Inv solves s) (h : s.join = some t) : Inv solves t := by
  obtain ⟨l, hl, hw, rfl⟩ := join_cases h
  apply inv.setShutdownPc hw
  · rfl
  · rw [hl]
    rfl

theorem Inv.discard (inv : Inv solves s) (h : s.discard = some t) : Inv solves t := by
  obtain ⟨j, l, hl, rfl⟩ := discard_cases h
  have hw : s.worker = .exited := inv.joined_exited (by rw [hl]; rfl)
  have hsh := inv.exited_shutdown hw
  have hundone : s.undoneJobs = j :: l := by
    simp [undoneJobs, waitingJobs, hw, WorkerPc.undone, hl, ShutdownPc.rest, inv.shutdown_jobs hsh]
  have hwait : s.waitingJobs = j :: l := by
    simp [waitingJobs, hl, ShutdownPc.rest, inv.shutdown_jobs hsh]
  set t : PowSys U := { s with
    shutdownPc := .discarding l
    dones := s.dones ++ [⟨j.userData.id, none⟩] }
  have hundone' : t.undoneJobs = l := by
    simp [t, undoneJobs, waitingJobs, hw, WorkerPc.undone, ShutdownPc.rest, inv.shutdown_jobs hsh]
  have hwait' : t.waitingJobs = l := by
    simp [t, waitingJobs, ShutdownPc.rest, inv.shutdown_jobs hsh]
  exact { inv with
    shutdown_eq_false := by simp [t, hsh]
    joined_exited := fun _ => hw
    accepted_eq := by
      rw [hundone']
      change s.accepted = _
      rw [inv.accepted_eq, hundone]
      simp [t, doneIds]
    undone_submitted := fun i hi =>
      inv.undone_submitted i (by rw [hundone]; rw [hundone'] at hi; exact List.mem_cons_of_mem _ hi)
    done_solved := by
      intro d hd o ho
      rcases List.mem_append.mp hd with hd | hd
      · exact inv.done_solved d hd o ho
      · rw [List.mem_singleton] at hd
        subst hd
        cases ho
    done_null := fun _ _ _ => hsh
    started_eq := by intro hnot; cases hnot
    keys := by
      rw [hwait']
      have := inv.keys
      rw [hwait, List.pairwise_cons] at this
      exact this.2
    running_key := by
      intro r hr
      rw [inv.running_eq, hw] at hr
      cases hr }

theorem Inv.shutdownReturn (inv : Inv solves s) (h : s.shutdownReturn = some t) : Inv solves t := by
  obtain ⟨hl, rfl⟩ := shutdownReturn_cases h
  apply inv.setShutdownPc (inv.joined_exited (by rw [hl]; rfl))
  · rfl
  · rw [hl]
    rfl

end

/-- Every action of every thread keeps the invariant. -/
theorem step_inv (s : PowSys U) (l : PowLabel U) (t : PowSys U) (inv : Inv solves s)
    (h : step solves s l = some t) : Inv solves t := by
  cases l with
  | submit thread a => exact inv.submit h
  | take => exact inv.take h
  | mined nonce => exact inv.mined h
  | cancelled => exact inv.cancelled h
  | finish => exact inv.finish h
  | exit => exact inv.exit h
  | shutdown => cases h; exact inv.shutdown
  | join => exact inv.join h
  | discard => exact inv.discard h
  | shutdownReturn => exact inv.shutdownReturn h

theorem run_inv {maxPending : ℕ} {hm : maxPending < wordSize} {ls : List (PowLabel U)} {s : PowSys U}
    (h : Transition.run (step solves) (init maxPending hm) ls = some s) : Inv solves s :=
  Transition.run_invariant step_inv (init_inv maxPending hm) h

end Bitmessage.PowSys
