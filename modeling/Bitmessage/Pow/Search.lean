import Bitmessage.Lib.Publication
import Bitmessage.Lib.Strides
import Bitmessage.Lib.Transition
import Bitmessage.Pow.Engine

/-! The search of `bm_pow_run_cancellable` with its threads. On one processor the calling
thread tries the nonces itself; otherwise it creates a worker for each processor and joins
them. Each label is one access to a shared variable or the work between two of them, so a
run of `step` is one interleaving of the threads and of the stores to the cancel flag.

A relaxed load may lag behind: its label names the value it returns, which may be any
value the flag has had so far. The logs of the nonces tried and the winner of the
exchange on `found` are the history of the run; no thread reads them. -/

namespace Bitmessage

/-- An atomic flag: its value and those it had before. -/
structure AtomicFlag where
  value : Bool
  earlier : List Bool
  deriving DecidableEq

namespace AtomicFlag

def store (f : AtomicFlag) (value : Bool) : AtomicFlag := ⟨value, f.value :: f.earlier⟩

/-- What a relaxed load may return. -/
def MayLoad (f : AtomicFlag) (saw : Bool) : Prop := saw = f.value ∨ saw ∈ f.earlier

instance (f : AtomicFlag) (saw : Bool) : Decidable (f.MayLoad saw) := inferInstanceAs (Decidable (_ ∨ _))

theorem mayLoad_store {f : AtomicFlag} {saw : Bool} (h : f.MayLoad saw) (value : Bool) :
    (f.store value).MayLoad saw := by
  right
  show saw ∈ f.value :: f.earlier
  rw [List.mem_cons]
  exact h

end AtomicFlag

/-- What `cancel_requested` may return; the pointer may be null. -/
def MayRequest (cancel : Option AtomicFlag) (saw : Bool) : Prop :=
  match cancel with
  | none => saw = false
  | some flag => flag.MayLoad saw

instance decidableMayRequest (cancel : Option AtomicFlag) (saw : Bool) : Decidable (MayRequest cancel saw) :=
  match cancel with
  | none => inferInstanceAs (Decidable (saw = false))
  | some flag => inferInstanceAs (Decidable (flag.MayLoad saw))

/-- Where a worker is in `pow_worker`. -/
inductive PowWorkerPc where
  | notCreated
  /-- the load of `found` -/
  | pollFound
  /-- the call of `cancel_requested` -/
  | pollCancel
  | trial
  /-- the exchange on `found` -/
  | exchange
  /-- the store to `result_nonce` -/
  | store
  | returned
  deriving DecidableEq

/-- Some nonces are still ahead of the worker. -/
def PowWorkerPc.searching : PowWorkerPc → Bool
  | .pollFound | .pollCancel | .trial => true
  | .notCreated | .exchange | .store | .returned => false

/-- The local variables of `pow_worker`. -/
structure PowWorker where
  pc : PowWorkerPc
  i : ℕ
  nonce : ℕ
  deriving DecidableEq

/-- Where the calling thread is in `bm_pow_run_cancellable`; with the return code goes what it
has written to `*out_nonce`. -/
inductive PowCallerPc where
  /-- the condition of the `while` of the single-thread search -/
  | test (nonce : ℕ)
  /-- the call of `cancel_requested` in its body -/
  | poll (nonce : ℕ)
  | creating (i : ℕ)
  | joining (i : ℕ)
  | returned (rc : ℤ) (outNonce : Option ℕ)
  deriving DecidableEq

structure PowSearch where
  caller : PowCallerPc
  workers : ℕ → PowWorker
  found : AtomicFlag
  resultNonce : ℕ
  cancel : Option AtomicFlag
  tried : ℕ → List ℕ
  winner : Option (ℕ × ℕ)

/-- The thread that takes the next step, with the value that a relaxed load in it returns, or a
store to the cancel flag by another thread. -/
inductive PowSearchLabel where
  | caller (saw : Bool)
  | worker (w : ℕ) (saw : Bool)
  | cancel (value : Bool)

/-- `num_threads`, from the answer of `sysconf`. -/
def numThreads (numCpus : ℤ) : ℕ := if 1 ≤ numCpus then numCpus.toNat else 1

theorem numThreads_pos (numCpus : ℤ) : 0 < numThreads numCpus := by
  unfold numThreads
  split_ifs <;> omega

/-- The top of the loop of `pow_worker`. -/
def powLoopTop (i : ℕ) : PowWorkerPc := if i % 64 = 0 then .pollFound else .trial

namespace PowSearch

def start (numCpus : ℤ) (cancel : Option AtomicFlag) : PowSearch where
  caller := if numThreads numCpus ≤ 1 then .test 0 else .creating 0
  workers := fun _ => ⟨.notCreated, 0, 0⟩
  found := ⟨false, []⟩
  resultNonce := 0
  cancel := cancel
  tried := fun _ => []
  winner := none

def setWorker (s : PowSearch) (w : ℕ) (a : PowWorker) : PowSearch :=
  { s with workers := Function.update s.workers w a }

def logTrial (s : PowSearch) (w nonce : ℕ) : PowSearch :=
  { s with tried := Function.update s.tried w (s.tried w ++ [nonce]) }

section

variable (H : Hashes) (initialHash : Bytes) (target threads : ℕ)

/-- `bm_pow_run_cancellable`. The nonces of the single-thread search are logged as those of worker 0. -/
def callerStep (s : PowSearch) (saw : Bool) : Option PowSearch :=
  match s.caller with
  | .test nonce =>
    let t := s.logTrial 0 nonce
    if target < powTrialValue H nonce initialHash then
      let next := addW nonce 1
      some { t with caller := if next % 64 = 0 then .poll next else .test next }
    else some { t with caller := .returned 0 (some nonce) }
  | .poll nonce =>
    if MayRequest s.cancel saw then
      some { s with caller := if saw then .returned (-1) none else .test nonce }
    else none
  | .creating i =>
    if i < threads then
      let t := s.setWorker i ⟨powLoopTop 0, 0, i % wordSize⟩
      some { t with caller := .creating (i + 1) }
    else some { s with caller := .joining 0 }
  | .joining i =>
    if i < threads then
      if (s.workers i).pc = .returned then some { s with caller := .joining (i + 1) } else none
    else some { s with caller := if s.found.value then .returned 0 (some s.resultNonce) else .returned (-1) none }
  | .returned _ _ => none

/-- `pow_worker` of worker `w`. -/
def workerStep (s : PowSearch) (w : ℕ) (saw : Bool) : Option PowSearch :=
  let a := s.workers w
  match a.pc with
  | .notCreated => none
  | .pollFound =>
    if s.found.MayLoad saw then
      some (s.setWorker w { a with pc := if saw then .returned else .pollCancel })
    else none
  | .pollCancel =>
    if MayRequest s.cancel saw then
      some (s.setWorker w { a with pc := if saw then .returned else .trial })
    else none
  | .trial =>
    let t := s.logTrial w a.nonce
    if powTrialValue H a.nonce initialHash ≤ target then
      some (t.setWorker w { a with pc := .exchange })
    else
      let i := addW a.i 1
      some (t.setWorker w ⟨powLoopTop i, i, addW a.nonce (threads % wordSize)⟩)
  | .exchange =>
    if s.found.value then some (s.setWorker w { a with pc := .returned })
    else
      let t := s.setWorker w { a with pc := .store }
      some { t with found := s.found.store true, winner := some (w, a.nonce) }
  | .store =>
    let t := s.setWorker w { a with pc := .returned }
    some { t with resultNonce := a.nonce }
  | .returned => none

/-- Another thread stores to the flag behind `cancel`. -/
def cancelStep (s : PowSearch) (value : Bool) : Option PowSearch :=
  s.cancel.map fun flag => { s with cancel := some (flag.store value) }

def step (s : PowSearch) : PowSearchLabel → Option PowSearch
  | .caller saw => s.callerStep H initialHash target threads saw
  | .worker w saw => s.workerStep H initialHash target threads w saw
  | .cancel value => s.cancelStep value

end

/-- The cancel flag has been set at some time. -/
def CancelRequested (s : PowSearch) : Prop := MayRequest s.cancel true

end PowSearch

end Bitmessage
