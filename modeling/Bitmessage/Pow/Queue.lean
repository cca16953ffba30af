import Bitmessage.Lib.LinkedQueue
import Bitmessage.Pow.Engine

/-! The proof-of-work job queue: the state that `struct bm_pow_queue` guards with its
mutex, and one function for each critical section of `pow_queue.c`. A critical
section runs with the mutex held, so each function here is atomic; what happens
between them, with the mutex released, belongs to the system in `Pow.QueueSystem`. -/

namespace Bitmessage

variable {U : Type*}

/-- `BM_POW_QUEUE_KEY_MAX`. -/
def powQueueKeyMax : ℕ := 40

/-- `struct bm_pow_job`. The bytes `key[0 .. key_len)` are the key, empty when the job takes
no part in deduplication. The `done` function is part of the user data. -/
structure PowJob (U : Type*) where
  payload : Bytes
  target : ℕ
  key : Bytes
  userData : U
  key_le : key.length ≤ powQueueKeyMax

/-- `struct bm_pow_queue`, without the mutex, the condition variable and the thread. -/
structure PowQueue (U : Type*) where
  jobs : LinkedQueue (PowJob U)
  pending : ℕ
  maxPending : ℕ
  running : Option (PowJob U)
  shutdown : Bool
  cancel : Bool
  completed : ℕ
  maxPending_lt : maxPending < wordSize

/-- `bm_pow_queue_init`. -/
def powQueueInit (maxPending : ℕ) (h : maxPending < wordSize) : PowQueue U where
  jobs := LinkedQueue.empty
  pending := 0
  maxPending := maxPending
  running := none
  shutdown := false
  cancel := false
  completed := 0
  maxPending_lt := h

/-- `build_object`: the nonce in eight big-endian bytes, then the payload. -/
def buildObject (payload : Bytes) (nonce : ℕ) : Bytes := packBe64 nonce ++ payload

/-- `key_in_flight`. The running job is not looked at on the worker thread, where the call
comes from inside its own `done`. -/
def keyInFlight (q : PowQueue U) (onWorker : Bool) (key : Bytes) : Bool :=
  (match q.running with
    | some j => !onWorker && decide (j.key = key)
    | none => false) ||
  q.jobs.toList.any fun j => decide (j.key = key)

/-- `bm_pow_queue_submit` for a queue that exists. A null key is an empty key; a key that is
too long, a full queue and a queue that is shut down answer `-1`, a key in flight `1`. -/
def powQueueSubmit (q : PowQueue U) (onWorker : Bool) (payload : Bytes) (target : ℕ)
    (key : Option Bytes) (userData : U) : ℤ × PowQueue U :=
  let key := key.getD []
  if hk : key.length ≤ powQueueKeyMax then
    if q.shutdown || decide (q.maxPending ≤ q.pending) then (-1, q)
    else if decide (0 < key.length) && keyInFlight q onWorker key then (1, q)
    else
      (0, { q with
        jobs := q.jobs.enqueue ⟨payload, target, key, userData, hk⟩
        pending := addW q.pending 1 })
  else (-1, q)

/-- The worker's first critical section: with no shutdown and a job waiting, take the head. -/
def powQueueTake (q : PowQueue U) : Option (PowJob U × PowQueue U) :=
  if q.shutdown then none
  else
    match q.jobs.dequeue with
    | some (j, jobs) => some (j, { q with jobs := jobs, pending := subW q.pending 1, running := some j })
    | none => none

/-- The worker's second critical section, after `done` has returned. -/
def powQueueFinish (q : PowQueue U) : PowQueue U :=
  { q with running := none, completed := addW q.completed 1 }

/-- The critical section of `bm_pow_queue_shutdown`: detach the waiting jobs. A second call
does nothing. -/
def powQueueShutdown (q : PowQueue U) : Option (List (PowJob U) × PowQueue U) :=
  if q.shutdown then none
  else some (q.jobs.toList,
    { q with shutdown := true, cancel := true, jobs := q.jobs.clear, pending := 0 })

/-- What a submission can do: refuse and change nothing, or append the job. -/
theorem powQueueSubmit_cases (q : PowQueue U) (onWorker : Bool) (payload : Bytes) (target : ℕ)
    (key : Option Bytes) (userData : U) :
    (∃ rc, rc ≠ 0 ∧ powQueueSubmit q onWorker payload target key userData = (rc, q)) ∨
    (∃ hk, q.shutdown = false ∧ q.pending < q.maxPending ∧
      (key.getD [] ≠ [] → keyInFlight q onWorker (key.getD []) = false) ∧
      powQueueSubmit q onWorker payload target key userData =
        (0, { q with
          jobs := q.jobs.enqueue ⟨payload, target, key.getD [], userData, hk⟩
          pending := addW q.pending 1 })) := by
  unfold powQueueSubmit
  simp only
  split
  · next hk =>
    split
    · exact .inl ⟨-1, by decide, rfl⟩
    · next hfull =>
      simp only [Bool.or_eq_true, decide_eq_true_eq, not_or, Bool.not_eq_true, not_le] at hfull
      split
      · exact .inl ⟨1, by decide, rfl⟩
      · next hfree =>
        refine .inr ⟨hk, hfull.1, hfull.2, fun hne => ?_, rfl⟩
        have hpos : 0 < (key.getD []).length := List.length_pos_iff.mpr hne
        simpa [hpos] using hfree
  · exact .inl ⟨-1, by decide, rfl⟩

theorem powQueueTake_eq_some {q q' : PowQueue U} {j : PowJob U} (h : powQueueTake q = some (j, q')) :
    q.shutdown = false ∧ q.jobs.toList = j :: q'.jobs.toList ∧
      q' = { q with jobs := q'.jobs, pending := subW q.pending 1, running := some j } := by
  unfold powQueueTake at h
  split at h
  · cases h
  · next hs =>
    split at h
    · next j' jobs hd =>
      cases h
      exact ⟨by simpa using hs, LinkedQueue.toList_of_dequeue hd, rfl⟩
    · cases h

theorem powQueueTake_of_cons {q : PowQueue U} {j : PowJob U} {js : List (PowJob U)}
    (hs : q.shutdown = false) (h : q.jobs.toList = j :: js) : ∃ q', powQueueTake q = some (j, q') := by
  obtain ⟨jobs, hd, -⟩ := LinkedQueue.dequeue_of_toList_cons h
  simp [powQueueTake, hs, hd]

theorem powQueueShutdown_eq_some {q q' : PowQueue U} {l : List (PowJob U)}
    (h : powQueueShutdown q = some (l, q')) :
    q.shutdown = false ∧ l = q.jobs.toList ∧
      q' = { q with shutdown := true, cancel := true, jobs := q.jobs.clear, pending := 0 } := by
  unfold powQueueShutdown at h
  split at h
  · cases h
  · next hs =>
    cases h
    exact ⟨by simpa using hs, rfl, rfl⟩

/-- A key that is not in flight differs from every waiting key and, off the worker thread, from
the running one. -/
theorem keyInFlight_eq_false {q : PowQueue U} {onWorker : Bool} {key : Bytes}
    (h : keyInFlight q onWorker key = false) :
    (∀ j ∈ q.jobs.toList, j.key ≠ key) ∧ (onWorker = false → ∀ j, q.running = some j → j.key ≠ key) := by
  simp only [keyInFlight, Bool.or_eq_false_iff, List.any_eq_false, decide_eq_true_eq] at h
  refine ⟨h.2, ?_⟩
  rintro rfl j hj
  simpa [hj] using h.1

end Bitmessage
