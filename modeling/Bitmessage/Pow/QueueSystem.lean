import Bitmessage.Lib.Transition
import Bitmessage.Pow.Queue

/-! The threads around the job queue. Any number of threads call `bm_pow_queue_submit`;
the worker takes a job, mines it, calls `done` and finishes it; inside `done` the
worker may submit again; one thread calls `bm_pow_queue_shutdown`, which detaches the
waiting jobs, joins the worker and then discards them one by one. The mutex is free
while the worker mines or is inside `done` and while the shutting down thread joins
and discards, so every label below may occur between any two of their steps. A run of
`step` is one interleaving.

Each submission carries a ticket: the number of the call, and the number of the job
inside whose `done` it was made, if it was made on the worker thread. The lists of
calls, starts and `done` invocations record the history. -/

namespace Bitmessage

variable {U : Type*}

/-- The calling thread, as `pthread_equal(pthread_self(), q->thread)` tells it. -/
inductive Thread where
  | worker
  | other (n : ℕ)
  deriving DecidableEq

/-- The user data of a job, numbered by the submitting call. -/
structure Ticket (U : Type*) where
  id : ℕ
  origin : Option ℕ
  data : U

/-- Where the worker thread is in `pow_queue_worker`. -/
inductive WorkerPc (U : Type*) where
  | waiting
  | mining (j : PowJob (Ticket U))
  | inDone (j : PowJob (Ticket U))
  | exited

/-- Where the call of `bm_pow_queue_shutdown` is, with the jobs it has detached. -/
inductive ShutdownPc (U : Type*) where
  | notCalled
  | joining (list : List (PowJob (Ticket U)))
  | discarding (list : List (PowJob (Ticket U)))
  | returned

/-- A call of `bm_pow_queue_submit` that has returned `rc`. -/
structure SubmitCall where
  id : ℕ
  payload : Bytes
  target : ℕ
  rc : ℤ

/-- An invocation of the `done` function of job `id`; no object is the null pointer. -/
structure DoneCall where
  id : ℕ
  object : Option Bytes

structure PowSys (U : Type*) where
  queue : PowQueue (Ticket U)
  worker : WorkerPc U
  shutdownPc : ShutdownPc U
  calls : List SubmitCall
  started : List ℕ
  dones : List DoneCall

/-- The arguments of a submission. -/
structure SubmitArgs (U : Type*) where
  payload : Bytes
  target : ℕ
  key : Option Bytes
  userData : U

inductive PowLabel (U : Type*) where
  | submit (thread : Thread) (args : SubmitArgs U)
  | take
  | mined (nonce : ℕ)
  | cancelled
  | finish
  | exit
  | shutdown
  | join
  | discard
  | shutdownReturn

/-- The job the worker holds, from taking it to finishing it. -/
def WorkerPc.job? : WorkerPc U → Option (PowJob (Ticket U))
  | .mining j | .inDone j => some j
  | .waiting | .exited => none

/-- The job whose `done` the worker has yet to call. -/
def WorkerPc.undone : WorkerPc U → List (PowJob (Ticket U))
  | .mining j => [j]
  | .inDone _ | .waiting | .exited => []

/-- The detached jobs whose `done` the shutdown has yet to call. -/
def ShutdownPc.rest : ShutdownPc U → List (PowJob (Ticket U))
  | .joining l | .discarding l => l
  | .notCalled | .returned => []

/-- The worker has been joined. -/
def ShutdownPc.joined : ShutdownPc U → Bool
  | .discarding _ | .returned => true
  | .notCalled | .joining _ => false

namespace PowSys

def init (maxPending : ℕ) (h : maxPending < wordSize) : PowSys U :=
  ⟨powQueueInit maxPending h, .waiting, .notCalled, [], [], []⟩

/-- The number of the running job, for a submission made inside its `done`. A thread other than
the worker may always submit. -/
def origin (s : PowSys U) : Thread → Option (Option ℕ)
  | .other _ => some none
  | .worker =>
    match s.worker with
    | .inDone j => some (some j.userData.id)
    | _ => none

def submit (s : PowSys U) (thread : Thread) (a : SubmitArgs U) : Option (PowSys U) :=
  (s.origin thread).map fun origin =>
    let r := powQueueSubmit s.queue (decide (thread = .worker)) a.payload a.target a.key
      ⟨s.calls.length, origin, a.userData⟩
    { s with queue := r.2, calls := s.calls ++ [⟨s.calls.length, a.payload, a.target, r.1⟩] }

def take (s : PowSys U) : Option (PowSys U) :=
  match s.worker with
  | .waiting =>
    (powQueueTake s.queue).map fun r =>
      { s with queue := r.2, worker := .mining r.1, started := s.started ++ [r.1.userData.id] }
  | _ => none

/-- The search has found a nonce: `done` is called with the object. -/
def mined (solves : Bytes → ℕ → ℕ → Bool) (s : PowSys U) (nonce : ℕ) : Option (PowSys U) :=
  match s.worker with
  | .mining j =>
    if solves j.payload j.target nonce then
      some { s with
        worker := .inDone j
        dones := s.dones ++ [⟨j.userData.id, some (buildObject j.payload nonce)⟩] }
    else none
  | _ => none

/-- The search has seen the cancel flag: `discard` calls `done` with a null object. -/
def cancelled (s : PowSys U) : Option (PowSys U) :=
  match s.worker with
  | .mining j =>
    if s.queue.cancel then
      some { s with worker := .inDone j, dones := s.dones ++ [⟨j.userData.id, none⟩] }
    else none
  | _ => none

def finish (s : PowSys U) : Option (PowSys U) :=
  match s.worker with
  | .inDone _ => some { s with queue := powQueueFinish s.queue, worker := .waiting }
  | _ => none

def exit (s : PowSys U) : Option (PowSys U) :=
  match s.worker with
  | .waiting => if s.queue.shutdown then some { s with worker := .exited } else none
  | _ => none

def shutdown (s : PowSys U) : PowSys U :=
  match powQueueShutdown s.queue with
  | some (l, q) => { s with queue := q, shutdownPc := .joining l }
  | none => s

def join (s : PowSys U) : Option (PowSys U) :=
  match s.shutdownPc, s.worker with
  | .joining l, .exited => some { s with shutdownPc := .discarding l }
  | _, _ => none

def discard (s : PowSys U) : Option (PowSys U) :=
  match s.shutdownPc with
  | .discarding (j :: l) =>
    some { s with shutdownPc := .discarding l, dones := s.dones ++ [⟨j.userData.id, none⟩] }
  | _ => none

def shutdownReturn (s : PowSys U) : Option (PowSys U) :=
  match s.shutdownPc with
  | .discarding [] => some { s with shutdownPc := .returned }
  | _ => none

/-- One action of one thread. -/
def step (solves : Bytes → ℕ → ℕ → Bool) (s : PowSys U) : PowLabel U → Option (PowSys U)
  | .submit thread a => s.submit thread a
  | .take => s.take
  | .mined nonce => s.mined solves nonce
  | .cancelled => s.cancelled
  | .finish => s.finish
  | .exit => s.exit
  | .shutdown => some s.shutdown
  | .join => s.join
  | .discard => s.discard
  | .shutdownReturn => s.shutdownReturn

/-! ### What the history says -/

/-- The jobs whose submission returned 0, in the order of submission. -/
def accepted (s : PowSys U) : List ℕ := (s.calls.filter fun c => c.rc = 0).map SubmitCall.id

/-- The jobs whose `done` has been invoked, once for each invocation. -/
def doneIds (s : PowSys U) : List ℕ := s.dones.map DoneCall.id

/-- The answer to the last submission. -/
def lastRc (s : PowSys U) : ℤ := (s.calls.getLast?.map SubmitCall.rc).getD 0

/-- The accepted jobs that are neither running nor done, first the next one. -/
def waitingJobs (s : PowSys U) : List (PowJob (Ticket U)) := s.queue.jobs.toList ++ s.shutdownPc.rest

/-- The jobs whose `done` is yet to be invoked. -/
def undoneJobs (s : PowSys U) : List (PowJob (Ticket U)) := s.worker.undone ++ s.waitingJobs

end PowSys

/-- The actions of the worker and of the thread inside `bm_pow_queue_shutdown`; the others are
calls that come from outside. -/
def PowLabel.isSystem : PowLabel U → Bool
  | .submit _ _ | .shutdown => false
  | _ => true

namespace PowSys

/-! ### What one action can do -/

theorem submit_cases {s t : PowSys U} {thread : Thread} {a : SubmitArgs U} (h : s.submit thread a = some t) :
    (∃ rc, rc ≠ 0 ∧ t = { s with calls := s.calls ++ [⟨s.calls.length, a.payload, a.target, rc⟩] }) ∨
    (∃ (j : PowJob (Ticket U)),
      j.userData.id = s.calls.length ∧ j.payload = a.payload ∧ j.target = a.target ∧
      j.key = a.key.getD [] ∧ j.userData.data = a.userData ∧ s.origin thread = some j.userData.origin ∧
        s.queue.shutdown = false ∧ s.queue.pending < s.queue.maxPending ∧
      (j.key ≠ [] → keyInFlight s.queue (decide (thread = .worker)) j.key = false) ∧
      t = { s with
        queue := { s.queue with jobs := s.queue.jobs.enqueue j, pending := addW s.queue.pending 1 }
        calls := s.calls ++ [⟨s.calls.length, a.payload, a.target, 0⟩] }) := by
  unfold submit at h
  rw [Option.map_eq_some_iff] at h
  obtain ⟨origin, ho, rfl⟩ := h
  rcases powQueueSubmit_cases s.queue (decide (thread = .worker)) a.payload a.target a.key
    ⟨s.calls.length, origin, a.userData⟩ with ⟨rc, hrc, he⟩ | ⟨hk, hsh, hlt, hkey, he⟩
  · exact .inl ⟨rc, hrc, by simp only [he]⟩
  · exact .inr ⟨⟨a.payload, a.target, a.key.getD [], ⟨s.calls.length, origin, a.userData⟩, hk⟩,
      rfl, rfl, rfl, rfl, rfl, ho, hsh, hlt, hkey, by simp only [he]⟩

theorem take_cases {s t : PowSys U} (h : s.take = some t) :
    ∃ j q, s.worker = .waiting ∧ s.queue.shutdown = false ∧
      s.queue.jobs.toList = j :: LinkedQueue.toList q ∧
      t = { s with
        queue := { s.queue with jobs := q, pending := subW s.queue.pending 1, running := some j }
        worker := .mining j
        started := s.started ++ [j.userData.id] } := by
  unfold take at h
  split at h
  · next hw =>
    rw [Option.map_eq_some_iff] at h
    obtain ⟨⟨j, q⟩, hq, rfl⟩ := h
    obtain ⟨hs, hl, he⟩ := powQueueTake_eq_some hq
    exact ⟨j, q.jobs, hw, hs, hl, by rw [← he]⟩
  · cases h

theorem mined_cases {solves : Bytes → ℕ → ℕ → Bool} {s t : PowSys U} {nonce : ℕ}
    (h : s.mined solves nonce = some t) :
    ∃ j, s.worker = .mining j ∧ solves j.payload j.target nonce = true ∧
      t = { s with
        worker := .inDone j
        dones := s.dones ++ [⟨j.userData.id, some (buildObject j.payload nonce)⟩] } := by
  unfold mined at h
  split at h
  · next j hw =>
    split at h
    · next hs => cases h; exact ⟨j, hw, hs, rfl⟩
    · cases h
  · cases h

theorem cancelled_cases {s t : PowSys U} (h : s.cancelled = some t) :
    ∃ j, s.worker = .mining j ∧ s.queue.cancel = true ∧
      t = { s with worker := .inDone j, dones := s.dones ++ [⟨j.userData.id, none⟩] } := by
  unfold cancelled at h
  split at h
  · next j hw =>
    split at h
    · next hs => cases h; exact ⟨j, hw, hs, rfl⟩
    · cases h
  · cases h

theorem finish_cases {s t : PowSys U} (h : s.finish = some t) :
    ∃ j, s.worker = .inDone j ∧ t = { s with queue := powQueueFinish s.queue, worker := .waiting } := by
  unfold finish at h
  split at h
  · next j hw => cases h; exact ⟨j, hw, rfl⟩
  · cases h

theorem exit_cases {s t : PowSys U} (h : s.exit = some t) :
    s.worker = .waiting ∧ s.queue.shutdown = true ∧ t = { s with worker := .exited } := by
  unfold exit at h
  split at h
  · next hw =>
    split at h
    · next hs => cases h; exact ⟨hw, hs, rfl⟩
    · cases h
  · cases h

theorem shutdown_cases (s : PowSys U) :
    s.shutdown = s ∧ s.queue.shutdown = true ∨
    s.queue.shutdown = false ∧ s.shutdown = { s with
      queue := { s.queue with shutdown := true, cancel := true, jobs := s.queue.jobs.clear, pending := 0 }
      shutdownPc := .joining s.queue.jobs.toList } := by
  unfold shutdown
  split
  · next l q hq =>
    obtain ⟨hs, rfl, rfl⟩ := powQueueShutdown_eq_some hq
    exact .inr ⟨hs, rfl⟩
  · next hq =>
    refine .inl ⟨rfl, ?_⟩
    unfold powQueueShutdown at hq
    split at hq
    · assumption
    · cases hq

theorem join_cases {s t : PowSys U} (h : s.join = some t) :
    ∃ l, s.shutdownPc = .joining l ∧ s.worker = .exited ∧ t = { s with shutdownPc := .discarding l } := by
  unfold join at h
  split at h
  · next l hl hw => cases h; exact ⟨l, hl, hw, rfl⟩
  · cases h

theorem discard_cases {s t : PowSys U} (h : s.discard = some t) :
    ∃ j l, s.shutdownPc = .discarding (j :: l) ∧
      t = { s with shutdownPc := .discarding l, dones := s.dones ++ [⟨j.userData.id, none⟩] } := by
  unfold discard at h
  split at h
  · next j l hl => cases h; exact ⟨j, l, hl, rfl⟩
  · cases h

theorem shutdownReturn_cases {s t : PowSys U} (h : s.shutdownReturn = some t) :
    s.shutdownPc = .discarding [] ∧ t = { s with shutdownPc := .returned } := by
  unfold shutdownReturn at h
  split at h
  · next hl => cases h; exact ⟨hl, rfl⟩
  · cases h

/-- The jobs that the worker or the queue has: the one in hand and the waiting ones. -/
def liveJobs (s : PowSys U) : List (PowJob (Ticket U)) := s.worker.job?.toList ++ s.waitingJobs

/-- A job gets into the queue by its submission only. -/
theorem liveJobs_step {solves : Bytes → ℕ → ℕ → Bool} {s t : PowSys U} {l : PowLabel U}
    (h : step solves s l = some t) {j : PowJob (Ticket U)} (hj : j ∈ t.liveJobs) :
    j ∈ s.liveJobs ∨ ∃ thread a, l = .submit thread a ∧ j.payload = a.payload ∧ j.key = a.key.getD [] ∧
      j.userData.data = a.userData := by
  simp only [liveJobs, waitingJobs, List.mem_append] at hj ⊢
  cases l with
  | submit thread a =>
    rcases submit_cases h with ⟨rc, -, rfl⟩ | ⟨i, -, hpayload, -, hkey, hdata, -, -, -, -, rfl⟩
    · exact .inl hj
    · simp only [LinkedQueue.toList_enqueue, List.mem_append, List.mem_singleton] at hj
      rcases hj with hj | (hj | rfl) | hj
      · exact .inl (.inl hj)
      · exact .inl (.inr (.inl hj))
      · exact .inr ⟨thread, a, rfl, hpayload, hkey, hdata⟩
      · exact .inl (.inr (.inr hj))
  | take =>
    obtain ⟨i, q, hw, -, hl, rfl⟩ := take_cases h
    simp only [hw, hl, WorkerPc.job?, Option.toList_some, List.mem_cons, List.not_mem_nil, or_false] at hj ⊢
    rcases hj with rfl | hj | hj
    · exact .inl (.inr (.inl (.inl rfl)))
    · exact .inl (.inr (.inl (.inr hj)))
    · exact .inl (.inr (.inr hj))
  | mined nonce =>
    obtain ⟨i, hw, -, rfl⟩ := mined_cases h
    rw [hw]
    exact .inl hj
  | cancelled =>
    obtain ⟨i, hw, -, rfl⟩ := cancelled_cases h
    rw [hw]
    exact .inl hj
  | finish =>
    obtain ⟨i, hw, rfl⟩ := finish_cases h
    rcases hj with hj | hj
    · cases hj
    · exact .inl (.inr hj)
  | exit =>
    obtain ⟨hw, -, rfl⟩ := exit_cases h
    rcases hj with hj | hj
    · cases hj
    · exact .inl (.inr hj)
  | shutdown =>
    cases h
    rcases shutdown_cases s with ⟨hsame, -⟩ | ⟨-, hsame⟩
    · rw [hsame] at hj
      exact .inl hj
    · rw [hsame] at hj
      rcases hj with hj | hj | hj
      · exact .inl (.inl hj)
      · simp at hj
      · exact .inl (.inr (.inl hj))
  | join =>
    obtain ⟨i, hl, -, rfl⟩ := join_cases h
    rw [hl]
    exact .inl hj
  | discard =>
    obtain ⟨i, rest, hl, rfl⟩ := discard_cases h
    rw [hl]
    rcases hj with hj | hj | hj
    · exact .inl (.inl hj)
    · exact .inl (.inr (.inl hj))
    · exact .inl (.inr (.inr (List.mem_cons_of_mem _ hj)))
  | shutdownReturn =>
    obtain ⟨hl, rfl⟩ := shutdownReturn_cases h
    rw [hl]
    exact .inl hj

end PowSys

end Bitmessage
