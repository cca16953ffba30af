import Bitmessage.Pow.QueueSystem
import Bitmessage.Pow.Search
import Mathlib.Data.Nat.Prime.Basic

/-! What the search returns in every interleaving. The winner of the exchange on `found` is the
only thread that writes `result_nonce`, and the calling thread reads it after all workers
have returned. A worker returns without a nonce only when it has seen one of the two flags. -/

namespace Bitmessage.PowSearch

open Strides

variable {H : Hashes} {initialHash : Bytes} {target threads : ℕ} {s t : PowSearch} {w : ℕ} {saw : Bool}

/-! ### What one step can do -/

theorem callerStep_cases (h : s.callerStep H initialHash target threads saw = some t) :
    (∃ nonce c, s.caller = .test nonce ∧ target < powTrialValue H nonce initialHash ∧
      (c = .poll (addW nonce 1) ∨ c = .test (addW nonce 1)) ∧ t = { s.logTrial 0 nonce with caller := c }) ∨
    (∃ nonce, s.caller = .test nonce ∧ powTrialValue H nonce initialHash ≤ target ∧
      t = { s.logTrial 0 nonce with caller := .returned 0 (some nonce) }) ∨
    (∃ nonce, s.caller = .poll nonce ∧ t = { s with caller := .test nonce }) ∨
    (∃ nonce, s.caller = .poll nonce ∧ s.CancelRequested ∧ t = { s with caller := .returned (-1) none }) ∨
    (∃ i, s.caller = .creating i ∧ i < threads ∧
      t = { s.setWorker i ⟨.pollFound, 0, i % wordSize⟩ with caller := .creating (i + 1) }) ∨
    (∃ i, s.caller = .creating i ∧ threads ≤ i ∧ t = { s with caller := .joining 0 }) ∨
    (∃ i, s.caller = .joining i ∧ i < threads ∧ (s.workers i).pc = .returned ∧
      t = { s with caller := .joining (i + 1) }) ∨
    (∃ i, s.caller = .joining i ∧ threads ≤ i ∧ s.found.value = true ∧
      t = { s with caller := .returned 0 (some s.resultNonce) }) ∨
    (∃ i, s.caller = .joining i ∧ threads ≤ i ∧ s.found.value = false ∧
      t = { s with caller := .returned (-1) none }) := by
  unfold callerStep at h
  cases hc : s.caller with
  | test nonce =>
    simp only [hc] at h
    split_ifs at h with hmiss
    · cases h
      exact .inl ⟨nonce, _, rfl, hmiss, .inl rfl, rfl⟩
    · cases h
      exact .inl ⟨nonce, _, rfl, hmiss, .inr rfl, rfl⟩
    · cases h
      exact .inr (.inl ⟨nonce, rfl, Nat.le_of_not_lt hmiss, rfl⟩)
  | poll nonce =>
    simp only [hc, Option.ite_none_right_eq_some, Option.some.injEq] at h
    obtain ⟨hload, rfl⟩ := h
    cases saw with
    | true => exact .inr (.inr (.inr (.inl ⟨nonce, rfl, hload, rfl⟩)))
    | false => exact .inr (.inr (.inl ⟨nonce, rfl, rfl⟩))
  | creating i =>
    simp only [hc] at h
    split_ifs at h with hi
    · cases h
      exact .inr (.inr (.inr (.inr (.inl ⟨i, rfl, hi, rfl⟩))))
    · cases h
      exact .inr (.inr (.inr (.inr (.inr (.inl ⟨i, rfl, Nat.le_of_not_lt hi, rfl⟩)))))
  | joining i =>
    simp only [hc] at h
    split_ifs at h with hi hpc hfound
    · cases h
      exact .inr (.inr (.inr (.inr (.inr (.inr (.inl ⟨i, rfl, hi, hpc, rfl⟩))))))
    · cases h
      exact .inr (.inr (.inr (.inr (.inr (.inr (.inr (.inl ⟨i, rfl, Nat.le_of_not_lt hi, hfound, rfl⟩)))))))
    · cases h
      have hfalse : s.found.value = false := by simpa using hfound
      exact .inr (.inr (.inr (.inr (.inr (.inr (.inr (.inr ⟨i, rfl, Nat.le_of_not_lt hi, hfalse, rfl⟩)))))))
  | returned rc out =>
    simp only [hc] at h
    cases h

theorem workerStep_cases (h : s.workerStep H initialHash target threads w saw = some t) :
    (∃ pc, (s.workers w).pc.searching ∧ pc.searching ∧ t = s.setWorker w { s.workers w with pc := pc }) ∨
    (((s.workers w).pc.searching ∨ (s.workers w).pc = .exchange) ∧ (s.found.MayLoad true ∨ s.CancelRequested) ∧
      t = s.setWorker w { s.workers w with pc := .returned }) ∨
    (∃ pc i, (s.workers w).pc = .trial ∧ target < powTrialValue H (s.workers w).nonce initialHash ∧ pc.searching ∧
      t = (s.logTrial w (s.workers w).nonce).setWorker w
        ⟨pc, i, addW (s.workers w).nonce (threads % wordSize)⟩) ∨
    ((s.workers w).pc = .trial ∧ powTrialValue H (s.workers w).nonce initialHash ≤ target ∧
      t = (s.logTrial w (s.workers w).nonce).setWorker w { s.workers w with pc := .exchange }) ∨
    ((s.workers w).pc = .exchange ∧ s.found.value = false ∧
      t = { s.setWorker w { s.workers w with pc := .store } with
        found := s.found.store true, winner := some (w, (s.workers w).nonce) }) ∨
    ((s.workers w).pc = .store ∧
      t = { s.setWorker w { s.workers w with pc := .returned } with resultNonce := (s.workers w).nonce }) := by
  unfold workerStep at h
  have hloop : ∀ i, (powLoopTop i).searching = true := by
    intro i
    unfold powLoopTop
    split_ifs <;> rfl
  cases hpc : (s.workers w).pc with
  | notCreated | returned =>
    simp only [hpc] at h
    cases h
  | pollFound =>
    simp only [hpc, Option.ite_none_right_eq_some, Option.some.injEq] at h
    obtain ⟨hload, rfl⟩ := h
    cases saw with
    | true => exact .inr (.inl ⟨.inl rfl, .inl hload, rfl⟩)
    | false => exact .inl ⟨.pollCancel, rfl, rfl, rfl⟩
  | pollCancel =>
    simp only [hpc, Option.ite_none_right_eq_some, Option.some.injEq] at h
    obtain ⟨hload, rfl⟩ := h
    cases saw with
    | true => exact .inr (.inl ⟨.inl rfl, .inr hload, rfl⟩)
    | false => exact .inl ⟨.trial, rfl, rfl, rfl⟩
  | trial =>
    simp only [hpc] at h
    split_ifs at h with hhit
    · cases h
      exact .inr (.inr (.inr (.inl ⟨rfl, hhit, rfl⟩)))
    · cases h
      exact .inr (.inr (.inl ⟨_, _, rfl, Nat.lt_of_not_le hhit, hloop _, rfl⟩))
  | exchange =>
    simp only [hpc] at h
    split_ifs at h with hfound
    · cases h
      exact .inr (.inl ⟨.inr rfl, .inl (.inl hfound.symm), rfl⟩)
    · cases h
      exact .inr (.inr (.inr (.inr (.inl ⟨rfl, by simpa using hfound, rfl⟩))))
  | store =>
    simp only [hpc] at h
    cases h
    exact .inr (.inr (.inr (.inr (.inr ⟨rfl, rfl⟩))))

@[simp] theorem workers_setWorker_self (s : PowSearch) (w : ℕ) (a : PowWorker) : (s.setWorker w a).workers w = a :=
  Function.update_self ..

theorem workers_setWorker_of_ne (s : PowSearch) {v w : ℕ} (h : v ≠ w) (a : PowWorker) :
    (s.setWorker w a).workers v = s.workers v :=
  Function.update_of_ne h ..

@[simp] theorem tried_logTrial_self (s : PowSearch) (w nonce : ℕ) :
    (s.logTrial w nonce).tried w = s.tried w ++ [nonce] :=
  Function.update_self ..

theorem tried_logTrial_of_ne (s : PowSearch) {v w : ℕ} (h : v ≠ w) (nonce : ℕ) :
    (s.logTrial w nonce).tried v = s.tried v :=
  Function.update_of_ne h ..

/-! ### The worker that publishes its nonce -/

/-- Whether the worker has set `found` and is about to write its nonce. -/
def workerPhase (a : PowWorker) : Publication.Phase ℕ :=
  match a.pc with
  | .store => .holding a.nonce
  | .returned => .closed
  | _ => .searching

def phases (s : PowSearch) : ℕ → Publication.Phase ℕ := fun w => workerPhase (s.workers w)

theorem phases_setWorker (s : PowSearch) (w : ℕ) (a : PowWorker) :
    (s.setWorker w a).phases = Function.update s.phases w (workerPhase a) := by
  funext v
  by_cases hv : v = w
  · subst v
    rw [Function.update_self, phases, workers_setWorker_self]
  · rw [Function.update_of_ne hv, phases, workers_setWorker_of_ne s hv]
    rfl

@[simp] theorem phases_logTrial (s : PowSearch) (w nonce : ℕ) : (s.logTrial w nonce).phases = s.phases := rfl

theorem workerPhase_searching {a : PowWorker} (h : a.pc.searching ∨ a.pc = .exchange) : workerPhase a = .searching := by
  unfold workerPhase
  cases hpc : a.pc with
  | notCreated | pollFound | pollCancel | trial | exchange => rfl
  | store | returned =>
    rw [hpc] at h
    simp [PowWorkerPc.searching] at h

/-! ### The nonces of one worker -/

section

variable (H initialHash target threads)

/-- The nonces tried in lane `w`; none but the last passes the test. -/
abbrev LaneLog (w : ℕ) (log : List ℕ) : Prop :=
  Searched (wrapped threads wordSize w) (fun nonce => powTrialValue H nonce initialHash ≤ target) log

/-- A thread that will try `nonce` next. -/
structure AtNonce (w nonce : ℕ) (log : List ℕ) : Prop where
  next : nonce = wrapped threads wordSize w log.length
  missed : ∀ x ∈ log, ¬powTrialValue H x initialHash ≤ target

/-- Worker `w` with the nonces it has tried. -/
structure OnLane (w : ℕ) (a : PowWorker) (log : List ℕ) : Prop where
  logged : LaneLog H initialHash target threads w log
  ahead : a.pc.searching → AtNonce H initialHash target threads w a.nonce log
  hit : a.pc = .exchange ∨ a.pc = .store → a.nonce ∈ log ∧ powTrialValue H a.nonce initialHash ≤ target

end

section

variable {nonce : ℕ} {log : List ℕ} {a : PowWorker}

theorem LaneLog.snoc (h : LaneLog H initialHash target threads w log)
    (hat : AtNonce H initialHash target threads w nonce log) :
    LaneLog H initialHash target threads w (log ++ [nonce]) := by
  rw [hat.next]
  exact Searched.snoc h hat.missed

/-- After a miss the thread goes on with the next nonce of its lane. -/
theorem AtNonce.snoc (hat : AtNonce H initialHash target threads w nonce log)
    (hmiss : target < powTrialValue H nonce initialHash) :
    AtNonce H initialHash target threads w (addW nonce (threads % wordSize)) (log ++ [nonce]) := by
  constructor
  · rw [List.length_append, List.length_singleton, ← wrapped_succ, hat.next, addW, Nat.add_mod_mod]
  · intro x hx
    rw [List.mem_append, List.mem_singleton] at hx
    rcases hx with hx | rfl
    · exact hat.missed x hx
    · exact Nat.not_le_of_lt hmiss

/-- A worker that is through, or has not begun. -/
theorem OnLane.rest (h : LaneLog H initialHash target threads w log) (hpc : a.pc = .notCreated ∨ a.pc = .returned) :
    OnLane H initialHash target threads w a log := by
  refine ⟨h, fun hs => ?_, fun hs => ?_⟩
  · rcases hpc with hpc | hpc <;> rw [hpc] at hs <;> cases hs
  · rcases hpc with hpc | hpc <;> simp [hpc] at hs

theorem OnLane.search (h : LaneLog H initialHash target threads w log)
    (hat : AtNonce H initialHash target threads w a.nonce log) (hpc : a.pc.searching) :
    OnLane H initialHash target threads w a log := by
  refine ⟨h, fun _ => hat, fun hs => ?_⟩
  rcases hs with hs | hs <;> rw [hs] at hpc <;> cases hpc

theorem OnLane.solve (h : LaneLog H initialHash target threads w log) (hmem : a.nonce ∈ log)
    (hhit : powTrialValue H a.nonce initialHash ≤ target) (hpc : a.pc.searching = false) :
    OnLane H initialHash target threads w a log :=
  ⟨h, fun hs => absurd hs (by simp [hpc]), fun _ => ⟨hmem, hhit⟩⟩

end

/-! ### The invariant -/

section

variable (H initialHash target threads)

/-- What the calling thread knows. While it searches itself there are no workers. -/
def CallerOk (s : PowSearch) : Prop :=
  match s.caller with
  | .test nonce | .poll nonce =>
    threads = 1 ∧ (∀ w, (s.workers w).pc = .notCreated) ∧
      AtNonce H initialHash target threads 0 nonce (s.tried 0)
  | .creating i =>
    1 < threads ∧ (∀ w < i, (s.workers w).pc ≠ .notCreated) ∧
      ∀ w, i ≤ w → (s.workers w).pc = .notCreated ∧ s.tried w = []
  | .joining i =>
    1 < threads ∧ (∀ w < threads, (s.workers w).pc ≠ .notCreated) ∧ ∀ w < i, (s.workers w).pc = .returned
  | .returned rc out =>
    (∀ w, (s.workers w).pc = .notCreated ∨ (s.workers w).pc = .returned) ∧
    (rc = 0 → ∃ w < threads, ∃ nonce ∈ s.tried w, out = some nonce ∧
      powTrialValue H nonce initialHash ≤ target ∧ (1 < threads → s.winner = some (w, nonce))) ∧
    (rc ≠ 0 → s.CancelRequested)

structure Inv (s : PowSearch) : Prop where
  lanes : ∀ w, OnLane H initialHash target threads w (s.workers w) (s.tried w)
  created_lt : ∀ w, (s.workers w).pc ≠ .notCreated → w < threads
  settled : Publication.Settled s.found.value s.winner s.phases s.resultNonce
  winner_hit : ∀ w nonce, s.winner = some (w, nonce) →
    w < threads ∧ nonce ∈ s.tried w ∧ powTrialValue H nonce initialHash ≤ target
  found_kept : s.found.MayLoad true → s.found.value = true
  seen : ∀ w, (s.workers w).pc = .returned → s.found.value = true ∨ s.CancelRequested
  caller_ok : CallerOk H initialHash target threads s

end

theorem inv_start (numCpus : ℤ) (cancel : Option AtomicFlag) :
    Inv H initialHash target (numThreads numCpus) (start numCpus cancel) where
  lanes w := OnLane.rest searched_nil (.inl rfl)
  created_lt w h := absurd rfl h
  settled := Publication.settled_start 0
  winner_hit _ _ h := by cases h
  found_kept h := by
    rcases h with h | h
    · exact h.symm
    · cases h
  seen _ h := by cases h
  caller_ok := by
    have hpos := numThreads_pos numCpus
    by_cases hone : numThreads numCpus ≤ 1
    · have hcaller : (start numCpus cancel).caller = .test 0 := if_pos hone
      rw [CallerOk, hcaller]
      exact ⟨by omega, fun _ => rfl, by simp [wrapped, start], fun _ hx => absurd hx List.not_mem_nil⟩
    · have hcaller : (start numCpus cancel).caller = .creating 0 := if_neg hone
      rw [CallerOk, hcaller]
      exact ⟨by omega, fun w hw => absurd hw (Nat.not_lt_zero w), fun _ _ => ⟨rfl, rfl⟩⟩

/-! ### Steps of a worker -/

section

variable {a : PowWorker}

/-- The calling thread takes no notice of what a worker does before it returns. -/
theorem CallerOk.workerMove (h : CallerOk H initialHash target threads s) (hcreated : (s.workers w).pc ≠ .notCreated)
    (hreturned : (s.workers w).pc ≠ .returned) (hcaller : t.caller = s.caller) (hself : (t.workers w).pc ≠ .notCreated)
    (hother : ∀ v, v ≠ w → t.workers v = s.workers v) (htried : ∀ v, v ≠ w → t.tried v = s.tried v) :
    CallerOk H initialHash target threads t := by
  have hkeep : ∀ v, (s.workers v).pc ≠ .notCreated → (t.workers v).pc ≠ .notCreated := by
    intro v hv
    by_cases hvw : v = w
    · rw [hvw]
      exact hself
    · rw [hother v hvw]
      exact hv
  unfold CallerOk at h ⊢
  rw [hcaller]
  cases hc : s.caller with
  | test nonce | poll nonce =>
    rw [hc] at h
    exact absurd (h.2.1 w) hcreated
  | creating i =>
    rw [hc] at h
    refine ⟨h.1, fun v hv => hkeep v (h.2.1 v hv), fun v hv => ?_⟩
    have hne : v ≠ w := by
      rintro rfl
      exact hcreated (h.2.2 v hv).1
    rw [hother v hne, htried v hne]
    exact h.2.2 v hv
  | joining i =>
    rw [hc] at h
    refine ⟨h.1, fun v hv => hkeep v (h.2.1 v hv), fun v hv => ?_⟩
    have hne : v ≠ w := by
      rintro rfl
      exact hreturned (h.2.2 v hv)
    rw [hother v hne]
    exact h.2.2 v hv
  | returned rc out =>
    rw [hc] at h
    rcases h.1 w with hw | hw
    · exact absurd hw hcreated
    · exact absurd hw hreturned

/-- What has to be checked of a step of worker `w`, which becomes `a`. -/
theorem Inv.workerMove (inv : Inv H initialHash target threads s) (hcreated : (s.workers w).pc ≠ .notCreated)
    (hreturned : (s.workers w).pc ≠ .returned) (hcaller : t.caller = s.caller)
    (hself : t.workers w = a) (hother : ∀ v, v ≠ w → t.workers v = s.workers v)
    (htried : ∀ v, v ≠ w → t.tried v = s.tried v) (hlane : OnLane H initialHash target threads w a (t.tried w))
    (hsettled : Publication.Settled t.found.value t.winner t.phases t.resultNonce)
    (hwinner : ∀ v nonce, t.winner = some (v, nonce) →
      v < threads ∧ nonce ∈ t.tried v ∧ powTrialValue H nonce initialHash ≤ target)
    (hkept : t.found.MayLoad true → t.found.value = true)
    (hmono : s.found.value = true ∨ s.CancelRequested → t.found.value = true ∨ t.CancelRequested)
    (hseen : a.pc = .returned → t.found.value = true ∨ t.CancelRequested) (hkeep : a.pc ≠ .notCreated) :
    Inv H initialHash target threads t where
  lanes v := by
    by_cases hv : v = w
    · subst v
      rw [hself]
      exact hlane
    · rw [hother v hv, htried v hv]
      exact inv.lanes v
  created_lt v h := by
    by_cases hv : v = w
    · subst v
      exact inv.created_lt w hcreated
    · rw [hother v hv] at h
      exact inv.created_lt v h
  settled := hsettled
  winner_hit := hwinner
  found_kept := hkept
  seen v h := by
    by_cases hv : v = w
    · subst v
      rw [hself] at h
      exact hseen h
    · rw [hother v hv] at h
      exact hmono (inv.seen v h)
  caller_ok := inv.caller_ok.workerMove hcreated hreturned hcaller (hself ▸ hkeep) hother htried

theorem not_rest_of_searching {pc : PowWorkerPc} (h : pc.searching ∨ pc = .exchange) :
    pc ≠ .notCreated ∧ pc ≠ .returned := by
  constructor
  · rintro rfl
    simp [PowWorkerPc.searching] at h
  · rintro rfl
    simp [PowWorkerPc.searching] at h

theorem phases_searching (h : (s.workers w).pc.searching ∨ (s.workers w).pc = .exchange) :
    s.phases w = .searching :=
  workerPhase_searching h

theorem mem_tried_logTrial {v nonce : ℕ} (h : nonce ∈ s.tried v) (w x : ℕ) : nonce ∈ (s.logTrial w x).tried v := by
  by_cases hv : v = w
  · subst v
    rw [tried_logTrial_self]
    exact List.mem_append_left _ h
  · rw [tried_logTrial_of_ne s hv]
    exact h

theorem Inv.winner_logTrial (inv : Inv H initialHash target threads s) (w x : ℕ) :
    ∀ v nonce, s.winner = some (v, nonce) →
      v < threads ∧ nonce ∈ (s.logTrial w x).tried v ∧ powTrialValue H nonce initialHash ≤ target := by
  intro v nonce hw
  obtain ⟨hlt, hmem, hhit⟩ := inv.winner_hit v nonce hw
  exact ⟨hlt, mem_tried_logTrial hmem w x, hhit⟩

/-- A worker has not seen a flag. -/
theorem Inv.poll (inv : Inv H initialHash target threads s) {pc : PowWorkerPc} (hs : (s.workers w).pc.searching)
    (hpc : pc.searching) : Inv H initialHash target threads (s.setWorker w { s.workers w with pc := pc }) := by
  obtain ⟨hc, hr⟩ := not_rest_of_searching (.inl hs)
  have hlane := inv.lanes w
  have hphase := workerPhase_searching (a := { s.workers w with pc := pc }) (.inl hpc)
  refine inv.workerMove hc hr rfl (workers_setWorker_self ..) (fun v hv => workers_setWorker_of_ne s hv _)
    (fun _ _ => rfl) (.search hlane.logged (hlane.ahead hs) hpc) ?_ inv.winner_hit inv.found_kept id ?_
    (not_rest_of_searching (.inl hpc)).1
  · rw [phases_setWorker, hphase]
    exact inv.settled.search (phases_searching (.inl hs))
  · rintro rfl
    cases hpc

/-- A worker has seen a flag, or comes too late with its nonce. -/
theorem Inv.leave (inv : Inv H initialHash target threads s)
    (hs : (s.workers w).pc.searching ∨ (s.workers w).pc = .exchange) (hsaw : s.found.MayLoad true ∨ s.CancelRequested) :
    Inv H initialHash target threads (s.setWorker w { s.workers w with pc := .returned }) := by
  obtain ⟨hc, hr⟩ := not_rest_of_searching hs
  refine inv.workerMove hc hr rfl (workers_setWorker_self ..) (fun v hv => workers_setWorker_of_ne s hv _)
    (fun _ _ => rfl) (.rest (inv.lanes w).logged (.inr rfl)) ?_ inv.winner_hit inv.found_kept id ?_ nofun
  · rw [phases_setWorker]
    exact inv.settled.close (phases_searching hs)
  · intro _
    exact hsaw.imp_left inv.found_kept

/-- A worker tries its nonce. -/
theorem Inv.workerTrial (inv : Inv H initialHash target threads s) {a : PowWorker} (hs : (s.workers w).pc.searching)
    (ha : a.pc.searching ∨ a.pc = .exchange)
    (hlane : OnLane H initialHash target threads w a (s.tried w ++ [(s.workers w).nonce])) :
    Inv H initialHash target threads ((s.logTrial w (s.workers w).nonce).setWorker w a) := by
  obtain ⟨hc, hr⟩ := not_rest_of_searching (.inl hs)
  obtain ⟨hc', hr'⟩ := not_rest_of_searching ha
  refine inv.workerMove hc hr rfl (workers_setWorker_self ..) (fun v hv => workers_setWorker_of_ne _ hv _)
    (fun v hv => tried_logTrial_of_ne s hv _) ?_ ?_ (inv.winner_logTrial w _) inv.found_kept id
    (fun h => absurd h hr') hc'
  · show OnLane H initialHash target threads w a ((s.logTrial w (s.workers w).nonce).tried w)
    rw [tried_logTrial_self]
    exact hlane
  · rw [phases_setWorker, phases_logTrial, workerPhase_searching ha]
    exact inv.settled.search (phases_searching (.inl hs))

/-- A worker is the first to set `found`. -/
theorem Inv.win (inv : Inv H initialHash target threads s) (hpc : (s.workers w).pc = .exchange)
    (hfound : s.found.value = false) :
    Inv H initialHash target threads { s.setWorker w { s.workers w with pc := .store } with
      found := s.found.store true, winner := some (w, (s.workers w).nonce) } := by
  obtain ⟨hc, hr⟩ := not_rest_of_searching (.inr hpc)
  obtain ⟨hmem, hhit⟩ := (inv.lanes w).hit (.inl hpc)
  refine inv.workerMove hc hr rfl (workers_setWorker_self ..) (fun v hv => workers_setWorker_of_ne s hv _)
    (fun _ _ => rfl) (.solve (inv.lanes w).logged hmem hhit rfl) ?_ ?_ (fun _ => rfl) (fun _ => .inl rfl) nofun nofun
  · have hsettled := inv.settled
    rw [hfound] at hsettled
    show Publication.Settled true _ (s.setWorker w _).phases _
    rw [phases_setWorker]
    exact hsettled.claim _
  · intro v nonce hw
    cases hw
    exact ⟨inv.created_lt w hc, hmem, hhit⟩

/-- The winner writes its nonce. -/
theorem Inv.publish (inv : Inv H initialHash target threads s) (hpc : (s.workers w).pc = .store) :
    Inv H initialHash target threads
      { s.setWorker w { s.workers w with pc := .returned } with resultNonce := (s.workers w).nonce } := by
  have hc : (s.workers w).pc ≠ .notCreated := by simp [hpc]
  have hr : (s.workers w).pc ≠ .returned := by simp [hpc]
  have hphase : s.phases w = .holding (s.workers w).nonce := by
    show workerPhase (s.workers w) = _
    rw [workerPhase, hpc]
  refine inv.workerMove hc hr rfl (workers_setWorker_self ..) (fun v hv => workers_setWorker_of_ne s hv _)
    (fun _ _ => rfl) (.rest (inv.lanes w).logged (.inr rfl)) ?_ inv.winner_hit inv.found_kept id ?_ nofun
  · show Publication.Settled _ _ (s.setWorker w _).phases _
    rw [phases_setWorker]
    exact inv.settled.publish hphase
  · intro _
    left
    show s.found.value = true
    rw [inv.settled.taken_iff, inv.settled.holding w _ hphase]
    rfl

theorem Inv.workerStep (inv : Inv H initialHash target threads s)
    (h : s.workerStep H initialHash target threads w saw = some t) : Inv H initialHash target threads t := by
  have hlane := inv.lanes w
  rcases workerStep_cases h with ⟨pc, hs, hpc, rfl⟩ | ⟨hs, hsaw, rfl⟩ | ⟨pc, i, hpc, hmiss, hs', rfl⟩ |
    ⟨hpc, hhit, rfl⟩ | ⟨hpc, hfound, rfl⟩ | ⟨hpc, rfl⟩
  · exact inv.poll hs hpc
  · exact inv.leave hs hsaw
  · have hs : (s.workers w).pc.searching := by rw [hpc]; rfl
    have hat := hlane.ahead hs
    exact inv.workerTrial hs (.inl hs') (.search (hlane.logged.snoc hat) (hat.snoc hmiss) hs')
  · have hs : (s.workers w).pc.searching := by rw [hpc]; rfl
    have hat := hlane.ahead hs
    exact inv.workerTrial hs (.inr rfl) (.solve (hlane.logged.snoc hat) List.mem_concat_self hhit rfl)
  · exact inv.win hpc hfound
  · exact inv.publish hpc

end

/-! ### Steps of the calling thread -/

/-- The calling thread goes to another place and changes nothing else. -/
theorem Inv.setCaller (inv : Inv H initialHash target threads s) {c : PowCallerPc}
    (h : CallerOk H initialHash target threads { s with caller := c }) :
    Inv H initialHash target threads { s with caller := c } :=
  ⟨inv.lanes, inv.created_lt, inv.settled, inv.winner_hit, inv.found_kept, inv.seen, h⟩

/-- The single-thread search tries a nonce. -/
theorem Inv.callerTrial (inv : Inv H initialHash target threads s) {nonce : ℕ} {c : PowCallerPc}
    (hidle : (s.workers 0).pc = .notCreated) (hat : AtNonce H initialHash target threads 0 nonce (s.tried 0))
    (h : CallerOk H initialHash target threads { s.logTrial 0 nonce with caller := c }) :
    Inv H initialHash target threads { s.logTrial 0 nonce with caller := c } where
  lanes v := by
    show OnLane H initialHash target threads v (s.workers v) ((s.logTrial 0 nonce).tried v)
    by_cases hv : v = 0
    · subst v
      rw [tried_logTrial_self]
      exact .rest ((inv.lanes 0).logged.snoc hat) (.inl hidle)
    · rw [tried_logTrial_of_ne s hv]
      exact inv.lanes v
  created_lt := inv.created_lt
  settled := inv.settled
  winner_hit := inv.winner_logTrial 0 nonce
  found_kept := inv.found_kept
  seen := inv.seen
  caller_ok := h

/-- A worker is created at the first nonce of its lane. -/
theorem Inv.create (inv : Inv H initialHash target threads s) {i : ℕ} (hi : i < threads) (hone : 1 < threads)
    (hcreated : ∀ w < i, (s.workers w).pc ≠ .notCreated)
    (hidle : ∀ w, i ≤ w → (s.workers w).pc = .notCreated ∧ s.tried w = []) :
    Inv H initialHash target threads
      { s.setWorker i ⟨.pollFound, 0, i % wordSize⟩ with caller := .creating (i + 1) } where
  lanes v := by
    show OnLane H initialHash target threads v ((s.setWorker i _).workers v) (s.tried v)
    by_cases hv : v = i
    · subst v
      rw [workers_setWorker_self, (hidle i le_rfl).2]
      exact .search searched_nil ⟨by simp [wrapped], fun _ hx => absurd hx List.not_mem_nil⟩ rfl
    · rw [workers_setWorker_of_ne s hv]
      exact inv.lanes v
  created_lt v h := by
    by_cases hv : v = i
    · rw [hv]
      exact hi
    · exact inv.created_lt v (workers_setWorker_of_ne s hv _ ▸ h)
  settled := by
    show Publication.Settled _ _ (s.setWorker i _).phases _
    have hphase : s.phases i = .searching := by
      show workerPhase (s.workers i) = .searching
      rw [workerPhase, (hidle i le_rfl).1]
    rw [phases_setWorker]
    exact inv.settled.search hphase
  winner_hit := inv.winner_hit
  found_kept := inv.found_kept
  seen v h := by
    replace h : ((s.setWorker i ⟨.pollFound, 0, i % wordSize⟩).workers v).pc = .returned := h
    by_cases hv : v = i
    · subst v
      rw [workers_setWorker_self] at h
      cases h
    · rw [workers_setWorker_of_ne s hv] at h
      exact inv.seen v h
  caller_ok := by
    refine ⟨hone, fun v hv => ?_, fun v hv => ?_⟩
    · show ((s.setWorker i _).workers v).pc ≠ .notCreated
      rcases Nat.lt_succ_iff_lt_or_eq.mp hv with hv | rfl
      · rw [workers_setWorker_of_ne s (by omega)]
        exact hcreated v hv
      · rw [workers_setWorker_self]
        intro hpc
        cases hpc
    · show ((s.setWorker i _).workers v).pc = .notCreated ∧ s.tried v = []
      rw [workers_setWorker_of_ne s (by omega)]
      exact hidle v (by omega)

/-- When all workers have returned, `result_nonce` is the winner's nonce. -/
theorem Inv.joined (inv : Inv H initialHash target threads s) {i : ℕ} (hi : threads ≤ i)
    (hreturned : ∀ w < i, (s.workers w).pc = .returned) (hfound : s.found.value = true) :
    ∃ w, s.winner = some (w, s.resultNonce) := by
  apply inv.settled.cell_of_unheld hfound
  intro w a hhold
  replace hhold : workerPhase (s.workers w) = .holding a := hhold
  unfold workerPhase at hhold
  by_cases hcreated : (s.workers w).pc = .notCreated
  · rw [hcreated] at hhold
    cases hhold
  · rw [hreturned w (lt_of_lt_of_le (inv.created_lt w hcreated) hi)] at hhold
    cases hhold

theorem Inv.callerStep (inv : Inv H initialHash target threads s)
    (h : s.callerStep H initialHash target threads saw = some t) : Inv H initialHash target threads t := by
  have hok := inv.caller_ok
  have hrest : ∀ i, threads ≤ i → (∀ w < i, (s.workers w).pc = .returned) →
      ∀ w, (s.workers w).pc = .notCreated ∨ (s.workers w).pc = .returned := by
    intro i hi hreturned w
    by_cases hcreated : (s.workers w).pc = .notCreated
    · exact .inl hcreated
    · exact .inr (hreturned w (lt_of_lt_of_le (inv.created_lt w hcreated) hi))
  rcases callerStep_cases h with ⟨nonce, c, hc, hmiss, hnext, rfl⟩ | ⟨nonce, hc, hhit, rfl⟩ | ⟨nonce, hc, rfl⟩ |
    ⟨nonce, hc, hcancel, rfl⟩ | ⟨i, hc, hi, rfl⟩ | ⟨i, hc, hi, rfl⟩ | ⟨i, hc, hi, hpc, rfl⟩ |
    ⟨i, hc, hi, hfound, rfl⟩ | ⟨i, hc, hi, hfound, rfl⟩
  all_goals rw [CallerOk, hc] at hok
  · -- a miss of the single-thread search
    obtain ⟨hone, hidle, hat⟩ := hok
    have hsnoc := hat.snoc hmiss
    refine inv.callerTrial (hidle 0) hat ?_
    have hstep : addW nonce (threads % wordSize) = addW nonce 1 := by
      rw [hone, Nat.mod_eq_of_lt one_lt_wordSize]
    rw [hstep, ← tried_logTrial_self] at hsnoc
    rcases hnext with rfl | rfl <;> exact ⟨hone, hidle, hsnoc⟩
  · obtain ⟨hone, hidle, hat⟩ := hok
    refine inv.callerTrial (hidle 0) hat ⟨fun w => .inl (hidle w), fun _ => ?_, fun hrc => absurd rfl hrc⟩
    refine ⟨0, by omega, nonce, ?_, rfl, hhit, fun hthreads => by omega⟩
    show nonce ∈ (s.logTrial 0 nonce).tried 0
    rw [tried_logTrial_self]
    exact List.mem_concat_self
  · exact inv.setCaller hok
  · exact inv.setCaller ⟨fun w => .inl (hok.2.1 w), fun hrc => absurd hrc (by decide), fun _ => hcancel⟩
  · exact inv.create hi hok.1 hok.2.1 hok.2.2
  · exact inv.setCaller ⟨hok.1, fun w hw => hok.2.1 w (lt_of_lt_of_le hw hi), nofun⟩
  · refine inv.setCaller ⟨hok.1, hok.2.1, fun w hw => ?_⟩
    rcases Nat.lt_succ_iff_lt_or_eq.mp hw with hw | rfl
    · exact hok.2.2 w hw
    · exact hpc
  · obtain ⟨w, hw⟩ := inv.joined hi hok.2.2 hfound
    obtain ⟨hlt, hmem, hhit⟩ := inv.winner_hit w _ hw
    exact inv.setCaller
      ⟨hrest i hi hok.2.2, fun _ => ⟨w, hlt, _, hmem, rfl, hhit, fun _ => hw⟩, fun hrc => absurd rfl hrc⟩
  · -- no worker has set `found`, so the first one has seen the cancel flag
    have hzero := inv.seen 0 (hok.2.2 0 (by omega))
    rw [hfound] at hzero
    have hcancel : s.CancelRequested := hzero.resolve_left (by decide)
    exact inv.setCaller ⟨hrest i hi hok.2.2, fun hrc => absurd hrc (by decide), fun _ => hcancel⟩

/-! ### Every run -/

theorem CancelRequested.cancelStep {value : Bool} (hreq : s.CancelRequested) (h : s.cancelStep value = some t) :
    t.CancelRequested := by
  obtain ⟨flag, hflag, rfl⟩ := Option.map_eq_some_iff.mp h
  unfold CancelRequested at hreq ⊢
  rw [hflag] at hreq
  exact AtomicFlag.mayLoad_store hreq value

theorem Inv.cancelStep (inv : Inv H initialHash target threads s) {value : Bool} (h : s.cancelStep value = some t) :
    Inv H initialHash target threads t := by
  have hmono := fun hreq : s.CancelRequested => hreq.cancelStep h
  obtain ⟨flag, -, rfl⟩ := Option.map_eq_some_iff.mp h
  refine ⟨inv.lanes, inv.created_lt, inv.settled, inv.winner_hit, inv.found_kept,
    fun w hw => (inv.seen w hw).imp_right hmono, ?_⟩
  have hok := inv.caller_ok
  unfold CallerOk at hok ⊢
  cases hc : s.caller with
  | test nonce | poll nonce | creating i | joining i =>
    rw [hc] at hok
    exact hok
  | returned rc out =>
    rw [hc] at hok
    exact ⟨hok.1, hok.2.1, fun hrc => hmono (hok.2.2 hrc)⟩

theorem Inv.step (inv : Inv H initialHash target threads s) {l : PowSearchLabel}
    (h : s.step H initialHash target threads l = some t) : Inv H initialHash target threads t := by
  cases l with
  | caller saw => exact inv.callerStep h
  | worker w saw => exact inv.workerStep h
  | cancel value => exact inv.cancelStep h

theorem inv_run {numCpus : ℤ} {cancel : Option AtomicFlag} {ls : List PowSearchLabel}
    (h : Transition.run (step H initialHash target (numThreads numCpus)) (start numCpus cancel) ls = some s) :
    Inv H initialHash target (numThreads numCpus) s :=
  Transition.run_invariant (fun _ _ _ inv hstep => inv.step hstep) (inv_start numCpus cancel) h

theorem cancel_callerStep (h : s.callerStep H initialHash target threads saw = some t) : t.cancel = s.cancel := by
  rcases callerStep_cases h with ⟨_, _, -, -, -, rfl⟩ | ⟨_, -, -, rfl⟩ | ⟨_, -, rfl⟩ | ⟨_, -, -, rfl⟩ | ⟨_, -, -, rfl⟩ |
    ⟨_, -, -, rfl⟩ | ⟨_, -, -, -, rfl⟩ | ⟨_, -, -, -, rfl⟩ | ⟨_, -, -, -, rfl⟩ <;> rfl

theorem cancel_workerStep (h : s.workerStep H initialHash target threads w saw = some t) : t.cancel = s.cancel := by
  rcases workerStep_cases h with ⟨_, -, -, rfl⟩ | ⟨-, -, rfl⟩ | ⟨_, _, -, -, -, rfl⟩ | ⟨-, -, rfl⟩ | ⟨-, -, rfl⟩ |
    ⟨-, rfl⟩ <;> rfl

/-- Without a cancel flag there is none at any time. -/
theorem cancel_eq_none {l : PowSearchLabel} (hnone : s.cancel = none)
    (h : s.step H initialHash target threads l = some t) : t.cancel = none := by
  cases l with
  | caller saw => rw [cancel_callerStep h, hnone]
  | worker w saw => rw [cancel_workerStep h, hnone]
  | cancel value =>
    replace h : s.cancelStep value = some t := h
    rw [PowSearch.cancelStep, hnone] at h
    cases h

/-- `bm_pow_run`, which passes no cancel flag, always finds a nonce. -/
theorem rc_eq_zero_of_no_cancel {numCpus : ℤ} {ls : List PowSearchLabel}
    (h : Transition.run (step H initialHash target (numThreads numCpus)) (start numCpus none) ls = some s)
    {rc : ℤ} {out : Option ℕ} (hc : s.caller = .returned rc out) : rc = 0 := by
  by_contra hrc
  have hok := (inv_run h).caller_ok
  rw [CallerOk, hc] at hok
  have hnone : s.cancel = none :=
    Transition.run_invariant (I := fun u => u.cancel = none) (fun _ _ _ hu hstep => cancel_eq_none hu hstep) rfl h
  have hreq := hok.2.2 hrc
  rw [CancelRequested, hnone] at hreq
  cases hreq

/-! ### Progress -/

theorem exists_mayRequest (cancel : Option AtomicFlag) : ∃ saw, MayRequest cancel saw := by
  cases cancel with
  | none => exact ⟨false, rfl⟩
  | some flag => exact ⟨flag.value, .inl rfl⟩

theorem workerStep_isSome (hcreated : (s.workers w).pc ≠ .notCreated) (hreturned : (s.workers w).pc ≠ .returned) :
    ∃ saw, (s.workerStep H initialHash target threads w saw).isSome := by
  unfold PowSearch.workerStep
  cases hpc : (s.workers w).pc with
  | notCreated => exact absurd hpc hcreated
  | returned => exact absurd hpc hreturned
  | pollFound =>
    use s.found.value
    simp [hpc, AtomicFlag.MayLoad]
  | pollCancel =>
    obtain ⟨saw, hsaw⟩ := exists_mayRequest s.cancel
    use saw
    simp [hpc, hsaw]
  | trial | exchange =>
    use false
    simp only [hpc]
    split_ifs <;> rfl
  | store =>
    use false
    simp only [hpc]
    rfl

/-- The calling thread waits for nothing but a worker. -/
theorem callerStep_isSome (hrun : ∀ rc out, s.caller ≠ .returned rc out) :
    (∃ saw, (s.callerStep H initialHash target threads saw).isSome) ∨
      ∃ i < threads, s.caller = .joining i ∧ (s.workers i).pc ≠ .returned := by
  unfold PowSearch.callerStep
  cases hc : s.caller with
  | test nonce =>
    left
    use false
    dsimp only
    split_ifs <;> rfl
  | poll nonce =>
    left
    obtain ⟨saw, hsaw⟩ := exists_mayRequest s.cancel
    use saw
    simp [hsaw]
  | creating i =>
    left
    use false
    dsimp only
    split_ifs <;> rfl
  | joining i =>
    by_cases hwait : i < threads ∧ (s.workers i).pc ≠ .returned
    · exact .inr ⟨i, hwait.1, rfl, hwait.2⟩
    · left
      use false
      dsimp only
      split_ifs with hi hpc
      · rfl
      · exact absurd ⟨hi, hpc⟩ hwait
      · rfl
      · rfl
  | returned rc out => exact absurd hc (hrun rc out)

/-- The threads never wait for each other in vain: until the call returns, the calling thread or a
worker can take a step. -/
theorem exists_step {numCpus : ℤ} {cancel : Option AtomicFlag} {ls : List PowSearchLabel}
    (h : Transition.run (step H initialHash target (numThreads numCpus)) (start numCpus cancel) ls = some s)
    (hrun : ∀ rc out, s.caller ≠ .returned rc out) :
    ∃ l, (∀ value, l ≠ .cancel value) ∧ (s.step H initialHash target (numThreads numCpus) l).isSome := by
  rcases callerStep_isSome hrun with ⟨saw, hstep⟩ | ⟨i, hi, hc, hpc⟩
  · exact ⟨.caller saw, nofun, hstep⟩
  · have hok := (inv_run h).caller_ok
    rw [CallerOk, hc] at hok
    obtain ⟨saw, hstep⟩ := workerStep_isSome (hok.2.1 i hi) hpc
    exact ⟨.worker i saw, nofun, hstep⟩

/-! ### The test of both paths -/

section

variable (H initialHash target)

/-- The nonces at which the single-thread search stops when it comes to them. -/
def singleThreadAccepts (threads : ℕ) : Set ℕ :=
  {nonce | ∃ s t saw, s.caller = .test nonce ∧ callerStep H initialHash target threads s saw = some t ∧
    t.caller = .returned 0 (some nonce)}

/-- The nonces with which a worker goes to the exchange when it comes to them. -/
def workerAccepts (threads w : ℕ) : Set ℕ :=
  {nonce | ∃ s t saw, (s.workers w).pc = .trial ∧ (s.workers w).nonce = nonce ∧
    workerStep H initialHash target threads s w saw = some t ∧ (t.workers w).pc = .exchange}

theorem singleThreadAccepts_eq (threads : ℕ) :
    singleThreadAccepts H initialHash target threads = {nonce | powTrialValue H nonce initialHash ≤ target} := by
  ext nonce
  constructor
  · rintro ⟨s, t, saw, hc, h, ht⟩
    by_contra hmiss
    rw [PowSearch.callerStep, hc] at h
    simp only [if_pos (Nat.lt_of_not_le hmiss), Option.some.injEq] at h
    rw [← h] at ht
    dsimp only at ht
    split_ifs at ht
  · intro hhit
    let s : PowSearch := { start 1 none with caller := .test nonce }
    refine ⟨s, { s.logTrial 0 nonce with caller := .returned 0 (some nonce) }, false, rfl, ?_, rfl⟩
    exact if_neg (Nat.not_lt_of_le hhit)

theorem workerAccepts_eq (threads w : ℕ) :
    workerAccepts H initialHash target threads w = {nonce | powTrialValue H nonce initialHash ≤ target} := by
  ext nonce
  constructor
  · rintro ⟨s, t, saw, hpc, rfl, h, ht⟩
    by_contra hmiss
    simp only [PowSearch.workerStep, hpc] at h
    rw [if_neg (Nat.not_le_of_lt (Nat.lt_of_not_le hmiss)), Option.some.injEq] at h
    rw [← h, workers_setWorker_self, powLoopTop] at ht
    split_ifs at ht
  · intro hhit
    let s := (start 1 none).setWorker w ⟨.trial, 0, nonce⟩
    have hself : s.workers w = ⟨.trial, 0, nonce⟩ := workers_setWorker_self ..
    refine ⟨s, (s.logTrial w nonce).setWorker w ⟨.exchange, 0, nonce⟩, false, by rw [hself], by rw [hself], ?_, ?_⟩
    · simp only [PowSearch.workerStep, hself]
      exact if_pos hhit
    · rw [workers_setWorker_self]

end

/-! ### The search -/

/-- The lanes end where the nonces wrap. Workers that go on try the nonces of others again unless their
number is a power of two. -/
theorem nonces_apart_iff (numCpus : ℤ) :
    (∀ w < numThreads numCpus, ∀ v < numThreads numCpus, w ≠ v → ∀ i j,
      wrapped (numThreads numCpus) wordSize w i ≠ wrapped (numThreads numCpus) wordSize v j) ↔
    ∃ k ≤ 64, numThreads numCpus = 2 ^ k := by
  rw [wrapped_apart_iff (numThreads_pos numCpus) (by decide)]
  exact Nat.dvd_prime_pow Nat.prime_two

/-- In every interleaving of the threads and of the stores to the cancel flag the search returns 0 only
with a nonce that passes the test, the winner's when there are workers, and something else only
when it was cancelled. The threads go through the nonces of their lanes from the first, and
past no nonce that passes the test; the lanes share out all 64-bit values, and until the nonces
wrap no two threads try the same. -/
theorem pow_search_sound (H : Hashes) (payload : Bytes) (target : ℕ) (numCpus : ℤ) (cancel : Option AtomicFlag)
    (ls : List PowSearchLabel) (s : PowSearch)
    (h : Transition.run (step H (H.sha512 payload) target (numThreads numCpus)) (start numCpus cancel) ls = some s) :
    (∀ rc out, s.caller = .returned rc out →
      (rc = 0 → ∃ nonce < wordSize, out = some nonce ∧ powTrialValue H nonce (H.sha512 payload) ≤ target ∧
        (1 < numThreads numCpus → ∃ w, s.winner = some (w, nonce))) ∧
      (rc ≠ 0 → s.CancelRequested)) ∧
    (∀ w, s.tried w = (List.range (s.tried w).length).map (wrapped (numThreads numCpus) wordSize w) ∧
      ∀ x ∈ (s.tried w).dropLast, target < powTrialValue H x (H.sha512 payload)) ∧
    (∀ w < numThreads numCpus, ∀ v < numThreads numCpus, w ≠ v →
      lane (numThreads numCpus) wordSize w ∩ lane (numThreads numCpus) wordSize v = ∅) ∧
    ⋃ w < numThreads numCpus, lane (numThreads numCpus) wordSize w = {x | x < wordSize} ∧
    (∀ r, (∀ w < numThreads numCpus, r ≤ (s.tried w).length) →
      ∀ x < wordSize, x < r * numThreads numCpus → ∃ w < numThreads numCpus, x ∈ s.tried w) ∧
    (∀ threads threads' w, singleThreadAccepts H (H.sha512 payload) target threads =
      workerAccepts H (H.sha512 payload) target threads' w) ∧
    (∀ w < numThreads numCpus, ∀ v < numThreads numCpus, w ≠ v → ∀ i j nonce,
      w + i * numThreads numCpus < wordSize → v + j * numThreads numCpus < wordSize →
      (s.tried w)[i]? = some nonce → (s.tried v)[j]? ≠ some nonce) := by
  have inv := inv_run h
  have hpos := numThreads_pos numCpus
  refine ⟨fun rc out hc => ?_, fun w => ⟨(inv.lanes w).logged.eq_map, fun x hx => ?_⟩,
    fun w hw v hv hne => lane_inter hw hv hne, iUnion_lane hpos wordSize, fun r hr x hx hlt => ?_,
    fun threads threads' w => ?_, fun w hw v hv hne i j nonce hi hj hmine htheirs => ?_⟩
  · have hok := inv.caller_ok
    rw [CallerOk, hc] at hok
    refine ⟨fun hrc => ?_, hok.2.2⟩
    obtain ⟨w, -, nonce, hmem, hout, hhit, hwinner⟩ := hok.2.1 hrc
    have hlt : nonce < wordSize := by
      rw [(inv.lanes w).logged.eq_map, List.mem_map] at hmem
      obtain ⟨i, -, rfl⟩ := hmem
      exact wrapped_lt (by decide) i
    exact ⟨nonce, hlt, hout, hhit, fun hthreads => ⟨w, hwinner hthreads⟩⟩
  · exact Nat.lt_of_not_le ((inv.lanes w).logged.missed x hx)
  · obtain ⟨hround, hnonce⟩ := exists_wrapped_of_lt hpos hx hlt
    have hw := Nat.mod_lt x hpos
    refine ⟨x % numThreads numCpus, hw, ?_⟩
    have hmem := (inv.lanes _).logged.mem (lt_of_lt_of_le hround (hr _ hw))
    rwa [hnonce] at hmem
  · rw [singleThreadAccepts_eq, workerAccepts_eq]
  · refine wrapped_ne hw hv hne hi hj ?_
    rw [← (inv.lanes w).logged.eq_of_getElem? hmine, ← (inv.lanes v).logged.eq_of_getElem? htheirs]

/-- Two workers race, the flag is set meanwhile, and the second wins. -/
def racingRun : List PowSearchLabel :=
  [.caller false, .caller false, .caller false, .worker 0 false, .worker 1 false, .worker 0 false, .worker 1 false,
    .worker 0 false, .worker 1 false, .cancel true, .worker 1 false, .worker 0 false, .worker 1 false,
    .caller false, .caller false, .caller false]

theorem pow_search_race : ∃ s, Transition.run (step prefixHashes (prefixHashes.sha512 [1, 2, 3]) 1 (numThreads 2))
      (start 2 (some ⟨false, []⟩)) racingRun = some s ∧ s.caller = .returned 0 (some 1) ∧
    powTrialValue prefixHashes 1 (prefixHashes.sha512 [1, 2, 3]) ≤ 1 ∧ ∃ w, s.winner = some (w, 1) := by
  have hcaller : (Transition.run (step prefixHashes (prefixHashes.sha512 [1, 2, 3]) 1 (numThreads 2))
      (start 2 (some ⟨false, []⟩)) racingRun).map caller = some (.returned 0 (some 1)) := by
    decide +kernel
  obtain ⟨s, hs, hreturned⟩ := Option.map_eq_some_iff.mp hcaller
  have hsound := pow_search_sound prefixHashes [1, 2, 3] 1 2 (some ⟨false, []⟩) racingRun s hs
  obtain ⟨nonce, -, hout, hhit, hwinner⟩ := (hsound.1 0 (some 1) hreturned).1 rfl
  cases hout
  exact ⟨s, hs, hreturned, hhit, hwinner (by decide)⟩

/-! ### The worker of the job queue -/

section

variable {U : Type*} {q : PowSys U} {j : PowJob (Ticket U)} {numCpus : ℤ} {cancel : Option AtomicFlag}
  {ls : List PowSearchLabel} {nonce : ℕ} {rc : ℤ} {out : Option ℕ}

/-- What a search for the running job returns with 0 is a nonce with which the job can be finished. -/
theorem mined_of_returned (hq : q.worker = .mining j)
    (h : Transition.run (step H (H.sha512 j.payload) j.target (numThreads numCpus)) (start numCpus cancel) ls = some s)
    (hc : s.caller = .returned 0 (some nonce)) : (q.mined (powSolves H) nonce).isSome := by
  have hok := (inv_run h).caller_ok
  rw [CallerOk, hc] at hok
  obtain ⟨w, -, n, -, hout, hhit, -⟩ := hok.2.1 rfl
  cases hout
  have hsolves : powSolves H j.payload j.target nonce = true := decide_eq_true hhit
  rw [PowSys.mined, hq]
  simp [hsolves]

/-- A flag that is only ever set is set once it has been. -/
def SetForGood (s : PowSearch) : Prop := ∀ flag, s.cancel = some flag → flag.MayLoad true → flag.value = true

theorem SetForGood.step {initialHash : Bytes} {threads : ℕ} {l : PowSearchLabel} (hs : s.SetForGood)
    (hl : ∀ value, l = .cancel value → value = true) (h : s.step H initialHash target threads l = some t) :
    t.SetForGood := by
  intro flag hflag hload
  cases l with
  | caller saw =>
    rw [cancel_callerStep h] at hflag
    exact hs flag hflag hload
  | worker w saw =>
    rw [cancel_workerStep h] at hflag
    exact hs flag hflag hload
  | cancel value =>
    obtain ⟨old, -, rfl⟩ := Option.map_eq_some_iff.mp h
    cases hflag
    exact hl value rfl

/-- A search for the running job that returns without a nonce was cancelled by the queue, if the flag is
the queue's, which is never cleared. -/
theorem cancelled_of_returned (hq : q.worker = .mining j)
    (h : Transition.run (step H (H.sha512 j.payload) j.target (numThreads numCpus))
      (start numCpus (some ⟨false, []⟩)) ls = some s)
    (hset : ∀ l ∈ ls, ∀ value, l = .cancel value → value = true)
    (hflag : ∀ flag, s.cancel = some flag → flag.value = q.queue.cancel)
    (hc : s.caller = .returned rc out) (hrc : rc ≠ 0) : q.cancelled.isSome := by
  have hok := (inv_run h).caller_ok
  rw [CallerOk, hc] at hok
  have hreq : s.CancelRequested := hok.2.2 hrc
  have hstart : (start numCpus (some ⟨false, []⟩)).SetForGood := by
    intro flag hcancel hload
    cases hcancel
    simp [AtomicFlag.MayLoad] at hload
  have hgood : s.SetForGood :=
    Transition.run_invariant_along (fun _ _ _ hs hl hstep => hs.step hl hstep) hstart
      (Transition.along_of_mem _ hset) h
  cases hcancel : s.cancel with
  | none =>
    rw [CancelRequested, hcancel] at hreq
    cases hreq
  | some flag =>
    rw [CancelRequested, hcancel] at hreq
    have hvalue : q.queue.cancel = true := by
      rw [← hflag flag hcancel]
      exact hgood flag hcancel hreq
    rw [PowSys.cancelled, hq]
    simp [hvalue]

end

end Bitmessage.PowSearch
