import Bitmessage.Lib.Ownership
import Bitmessage.Lib.Transition
import Bitmessage.Common.Bytes

/-! Who owns a connection. The network thread waits for events, reads and closes connections,
accepts new ones and sweeps the registry; the peer connector makes a connection, registers
it with `epoll`, sends the version and only then adds it to the registry; other threads walk the
registry under its lock and ask for evictions. Every access of these threads to a
`struct bm_fd_data` is a step, and an access to a freed one is recorded as a fault, with which the
model goes on as the program would. A connection is named by the number of its allocation; the
address, which the program compares, may be used again after it was freed. -/

namespace Bitmessage

abbrev ConnId := ℕ

/-- The part of `struct bm_fd_data` that the lifecycle concerns, with what the allocator and `epoll`
know about it. -/
structure ConnObj where
  addr : ℕ
  live : Bool
  inEpoll : Bool
  generation : ℕ
  pendingEviction : Bool

/-- What must not happen. -/
inductive Fault where
  | useAfterFree (c : ConnId)
  | doubleFree (c : ConnId)
  | addAfterFree (c : ConnId)
  deriving DecidableEq

/-- Where `bm_peer_connector_connect_initial` stands with its connection. -/
inductive Connector where
  | idle
  | created (c : ConnId)
  | registered (c : ConnId)
  | versionSent (c : ConnId)
  | versionFailed (c : ConnId)
  | unregistered (c : ConnId)
  deriving DecidableEq

/-- The connections that the network thread has still to look at: the rest of the events that
`epoll_wait` returned, or the rest of the snapshot of a sweep. -/
structure Work where
  sweep : Bool
  todo : List ConnId

/-- Where `bm_network_epoll_thread` stands. -/
inductive EpollThread where
  | waiting
  | working (w : Work)
  /-- in `bm_network_handle_accept`, before and after the registration with `epoll` -/
  | accepting (c : ConnId) (registered : Bool) (w : Work)
  /-- in `close_connection`, before and after the removal from the registry -/
  | closing (c : ConnId) (removed : Bool) (w : Work)

/-- The process. `walking` is the rest of a walk over the registry by a thread that holds its lock. -/
structure Lifecycle where
  objs : ConnId → ConnObj
  nextId : ℕ
  registry : List ConnId
  nextGeneration : ℕ
  walking : Option (List ConnId)
  connector : Connector
  epoll : EpollThread
  faults : List Fault

def Lifecycle.init : Lifecycle where
  objs _ := ⟨0, false, false, 0, false⟩
  nextId := 0
  registry := []
  nextGeneration := 1
  walking := none
  connector := .idle
  epoll := .waiting
  faults := []

inductive LifecycleLabel where
  /-- `epoll_wait` returns events of these connections -/
  | epollWait (batch : List ConnId)
  /-- the next connection is flushed, read or swept, and kept -/
  | keep
  /-- the next connection is to be closed: end of stream, error, timeout, eviction -/
  | close
  | closeRemove
  | closeFree
  | accept (addr : ℕ)
  | acceptRegister (ok : Bool)
  | acceptAdd
  | sweep
  | endSweep
  | connectorNew (addr : ℕ)
  | connectorRegister (ok : Bool)
  | connectorVersion (ok : Bool)
  | connectorUnregister
  | connectorFree
  | connectorAdd
  /-- `bm_peer_registry_broadcast_inv` or another walk over the registry takes the lock -/
  | walk
  | walkOne
  | endWalk
  /-- `bm_peer_registry_evict_if_current` -/
  | evict (addr generation : ℕ)

namespace Lifecycle

variable (s : Lifecycle)

def modify (c : ConnId) (f : ConnObj → ConnObj) : Lifecycle :=
  { s with objs := Function.update s.objs c (f (s.objs c)) }

def fault (f : Fault) : Lifecycle := { s with faults := s.faults ++ [f] }

/-- A field of the connection is read or written. -/
def touch (c : ConnId) : Lifecycle := if (s.objs c).live then s else s.fault (.useAfterFree c)

/-- `bm_fd_data_free` and `close` of the descriptor, which also leaves `epoll`. -/
def free (c : ConnId) : Lifecycle :=
  if (s.objs c).live then s.modify c fun o => { o with live := false, inEpoll := false }
  else s.fault (.doubleFree c)

/-- The allocator gives out an address that no live connection has. -/
def Fresh (addr : ℕ) : Prop := ∀ c < s.nextId, (s.objs c).live = true → (s.objs c).addr ≠ addr

instance (addr : ℕ) : Decidable (s.Fresh addr) := inferInstanceAs (Decidable (∀ c < _, _))

/-- `bm_fd_data_new`. -/
def fdDataNew (addr : ℕ) : Lifecycle :=
  { s with objs := Function.update s.objs s.nextId ⟨addr, true, false, 0, false⟩, nextId := s.nextId + 1 }

/-- `bm_network_epoll_register` when `epoll_ctl` succeeds. -/
def register (c : ConnId) : Lifecycle := s.modify c fun o => { o with inEpoll := true }

/-- `bm_peer_registry_add`. -/
def registryAdd (c : ConnId) : Lifecycle :=
  let s := if (s.objs c).live then s else s.fault (.addAfterFree c)
  let s := s.modify c fun o => { o with generation := s.nextGeneration }
  { s with registry := s.registry ++ [c], nextGeneration := addW s.nextGeneration 1 }

/-- `bm_peer_registry_remove`, which compares addresses. -/
def registryRemove (c : ConnId) : Lifecycle :=
  { s with registry := Ownership.swapRemove (fun d => (s.objs d).addr == (s.objs c).addr) s.registry }

/-- `bm_peer_registry_evict_if_current`, for an address and a generation that were read some time ago. -/
def evictIfCurrent (addr generation : ℕ) : Lifecycle :=
  match s.registry.find? fun d => (s.objs d).addr == addr with
  | none => s
  | some d =>
    let s := s.touch d
    if (s.objs d).generation = generation then s.modify d fun o => { o with pendingEviction := true } else s

end Lifecycle

/-- One step of one of the threads. -/
def lifecycleStep (s : Lifecycle) : LifecycleLabel → Option Lifecycle
  | .epollWait batch =>
    match s.epoll with
    | .waiting =>
      if batch.Nodup ∧ ∀ c ∈ batch, (s.objs c).inEpoll = true then some { s with epoll := .working ⟨false, batch⟩ }
      else none
    | _ => none
  | .keep =>
    match s.epoll with
    | .working ⟨sweep, c :: todo⟩ => some { s.touch c with epoll := .working ⟨sweep, todo⟩ }
    | _ => none
  | .close =>
    match s.epoll with
    | .working ⟨sweep, c :: todo⟩ => some { s.touch c with epoll := .closing c false ⟨sweep, todo⟩ }
    | _ => none
  | .closeRemove =>
    match s.epoll, s.walking with
    | .closing c false w, none => some { (s.touch c).registryRemove c with epoll := .closing c true w }
    | _, _ => none
  | .closeFree =>
    match s.epoll with
    | .closing c true w => some { s.free c with epoll := .working w }
    | _ => none
  | .accept addr =>
    match s.epoll with
    | .working ⟨false, todo⟩ =>
      if s.Fresh addr then some { s.fdDataNew addr with epoll := .accepting s.nextId false ⟨false, todo⟩ } else none
    | _ => none
  | .acceptRegister ok =>
    match s.epoll with
    | .accepting c false w =>
      some (if ok then { (s.touch c).register c with epoll := .accepting c true w }
        else { (s.touch c).free c with epoll := .working w })
    | _ => none
  | .acceptAdd =>
    match s.epoll, s.walking with
    | .accepting c true w, none => some { s.registryAdd c with epoll := .working w }
    | _, _ => none
  | .sweep =>
    match s.epoll, s.walking with
    | .working ⟨false, []⟩, none => some { s with epoll := .working ⟨true, s.registry⟩ }
    | _, _ => none
  | .endSweep =>
    match s.epoll with
    | .working ⟨true, []⟩ => some { s with epoll := .waiting }
    | _ => none
  | .connectorNew addr =>
    match s.connector with
    | .idle => if s.Fresh addr then some { s.fdDataNew addr with connector := .created s.nextId } else none
    | _ => none
  | .connectorRegister ok =>
    match s.connector with
    | .created c =>
      some (if ok then { (s.touch c).register c with connector := .registered c }
        else { (s.touch c).free c with connector := .idle })
    | _ => none
  | .connectorVersion ok =>
    match s.connector with
    | .registered c => some { s.touch c with connector := if ok then .versionSent c else .versionFailed c }
    | _ => none
  | .connectorUnregister =>
    match s.connector with
    | .versionFailed c => some { s.modify c (fun o => { o with inEpoll := false }) with connector := .unregistered c }
    | _ => none
  | .connectorFree =>
    match s.connector with
    | .unregistered c => some { s.free c with connector := .idle }
    | _ => none
  | .connectorAdd =>
    match s.connector, s.walking with
    | .versionSent c, none => some { s.registryAdd c with connector := .idle }
    | _, _ => none
  | .walk =>
    match s.walking with
    | none => some { s with walking := some s.registry }
    | some _ => none
  | .walkOne =>
    match s.walking with
    | some (c :: rest) => some { s.touch c with walking := some rest }
    | _ => none
  | .endWalk =>
    match s.walking with
    | some [] => some { s with walking := none }
    | _ => none
  | .evict addr generation =>
    match s.walking with
    | none => some (s.evictIfCurrent addr generation)
    | some _ => none

/-! ### Ownership -/

/-- The connection that the connector is setting up. -/
def Connector.conn? : Connector → Option ConnId
  | .idle => none
  | .created c | .registered c | .versionSent c | .versionFailed c | .unregistered c => some c

/-- The connections that the network thread will still look at. -/
def EpollThread.todo : EpollThread → List ConnId
  | .waiting => []
  | .working w | .accepting _ _ w | .closing _ _ w => w.todo

/-- The connection that only the network thread knows: not yet in the registry, or not any more. -/
def EpollThread.held? : EpollThread → Option ConnId
  | .accepting c _ _ | .closing c true _ => some c
  | .waiting | .working _ | .closing _ false _ => none

/-- The connection is allocated. -/
def Lifecycle.Live (s : Lifecycle) (c : ConnId) : Prop := (s.objs c).live = true

/-- Every live connection has one owner, the registry, the connector or the network thread, and the network
thread and the walks over the registry have live ones before them. -/
structure Owned (s : Lifecycle) : Prop where
  noFaults : s.faults = []
  lt_nextId : ∀ c, s.Live c → c < s.nextId
  addr_inj : ∀ c d, s.Live c → s.Live d → (s.objs c).addr = (s.objs d).addr → c = d
  inEpoll : ∀ c, (s.objs c).inEpoll = true → s.Live c
  created : ∀ c, s.connector = .created c → (s.objs c).inEpoll = false ∧ c ∉ s.epoll.todo
  closing : ∀ c w, s.epoll = .closing c false w → c ∈ s.registry ∧ c ∉ w.todo
  walking : ∀ l, s.walking = some l → ∀ c ∈ l, c ∈ s.registry
  owners : Ownership.Distribution s.Live s.registry s.connector.conn? s.epoll.held? s.epoll.todo

theorem owned_init : Owned .init where
  noFaults := rfl
  lt_nextId := nofun
  addr_inj := nofun
  inEpoll := nofun
  created := nofun
  closing := nofun
  walking := nofun
  owners := Ownership.distribution_empty nofun

@[simp] theorem objs_modify_self (s : Lifecycle) (c : ConnId) (f : ConnObj → ConnObj) :
    (s.modify c f).objs c = f (s.objs c) := Function.update_self ..

theorem objs_modify_of_ne (s : Lifecycle) {c d : ConnId} (h : d ≠ c) (f : ConnObj → ConnObj) :
    (s.modify c f).objs d = s.objs d := Function.update_of_ne h ..

theorem touch_of_live {s : Lifecycle} {c : ConnId} (h : s.Live c) : s.touch c = s := if_pos h

section Objects
variable {s : Lifecycle} {c : ConnId}

/-- What changes neither the addresses nor who is live or known to `epoll`. -/
theorem Owned.congr_objs (h : Owned s) {objs : ConnId → ConnObj} (hlive : ∀ d, (objs d).live = (s.objs d).live)
    (haddr : ∀ d, (objs d).addr = (s.objs d).addr) (hepoll : ∀ d, (objs d).inEpoll = (s.objs d).inEpoll) :
    Owned { s with objs := objs } where
  noFaults := h.noFaults
  lt_nextId d hd := h.lt_nextId d ((hlive d).symm.trans hd)
  addr_inj d e hd he heq := h.addr_inj d e ((hlive d).symm.trans hd) ((hlive e).symm.trans he)
    ((haddr d).symm.trans (heq.trans (haddr e)))
  inEpoll d hd := (hlive d).trans (h.inEpoll d ((hepoll d).symm.trans hd))
  created d hd := ⟨(hepoll d).trans (h.created d hd).1, (h.created d hd).2⟩
  closing := h.closing
  walking := h.walking
  owners := h.owners.congr fun d => by rw [Lifecycle.Live, Lifecycle.Live, hlive d]

theorem live_free (hlive : s.Live c) (d : ConnId) : (s.free c).Live d ↔ s.Live d ∧ d ≠ c := by
  have hfree : s.free c = s.modify c fun o => { o with live := false, inEpoll := false } := if_pos hlive
  rw [hfree, Lifecycle.modify, Lifecycle.Live, Lifecycle.Live]
  by_cases hd : d = c
  · subst hd
    simp
  · simp [hd]

theorem free_eq (hlive : s.Live c) :
    s.free c = s.modify c fun o => { o with live := false, inEpoll := false } := if_pos hlive

/-- The facts about single connections after one is freed. -/
theorem Owned.free_objs (h : Owned s) (hlive : s.Live c) :
    (s.free c).faults = [] ∧ (∀ d, (s.free c).Live d → d < s.nextId) ∧
      (∀ d e, (s.free c).Live d → (s.free c).Live e → ((s.free c).objs d).addr = ((s.free c).objs e).addr → d = e) ∧
      (∀ d, ((s.free c).objs d).inEpoll = true → (s.free c).Live d) := by
  have haddr : ∀ d, d ≠ c → (s.free c).objs d = s.objs d := by
    intro d hd
    rw [free_eq hlive, objs_modify_of_ne s hd]
  refine ⟨?_, ?_, ?_, ?_⟩
  · rw [free_eq hlive]
    exact h.noFaults
  · intro d hd
    exact h.lt_nextId d ((live_free hlive d).mp hd).1
  · intro d e hd he heq
    obtain ⟨hd', hdc⟩ := (live_free hlive d).mp hd
    obtain ⟨he', hec⟩ := (live_free hlive e).mp he
    rw [haddr d hdc, haddr e hec] at heq
    exact h.addr_inj d e hd' he' heq
  · intro d hd
    by_cases hdc : d = c
    · subst hdc
      rw [free_eq hlive, objs_modify_self] at hd
      contradiction
    · rw [haddr d hdc] at hd
      exact (live_free hlive d).mpr ⟨h.inEpoll d hd, hdc⟩

theorem inEpoll_free {d : ConnId} (hd : (s.objs d).inEpoll = false) : ((s.free c).objs d).inEpoll = false := by
  unfold Lifecycle.free Lifecycle.modify Lifecycle.fault
  split_ifs
  · by_cases hdc : d = c
    · subst hdc
      simp
    · simp [hdc, hd]
  · exact hd

theorem free_frame : (s.free c).registry = s.registry ∧ (s.free c).walking = s.walking ∧
    (s.free c).connector = s.connector ∧ (s.free c).epoll = s.epoll ∧ (s.free c).nextId = s.nextId := by
  unfold Lifecycle.free
  split_ifs <;> exact ⟨rfl, rfl, rfl, rfl, rfl⟩

/-- The network thread frees the connection that it alone knows. -/
theorem Owned.epollFree (h : Owned s) {w : Work} (hheld : s.epoll.held? = some c) (hw : s.epoll.todo = w.todo) :
    Owned { s.free c with epoll := .working w } := by
  have hlive : s.Live c := (h.owners.worker_spec c hheld).1
  obtain ⟨hf, hlt, haddr, hepoll⟩ := h.free_objs hlive
  obtain ⟨hreg, hwalk, hconn, -, hnext⟩ := free_frame (s := s) (c := c)
  have howners := h.owners
  rw [hheld, hw] at howners
  refine ⟨hf, ?_, haddr, hepoll, ?_, nofun, ?_, ?_⟩
  · intro d hd
    exact hnext ▸ hlt d hd
  · intro d hd
    obtain ⟨he, ht⟩ := h.created d (hconn ▸ hd)
    rw [hw] at ht
    exact ⟨inEpoll_free he, ht⟩
  · intro l hl
    show ∀ d ∈ l, d ∈ (s.free c).registry
    rw [hreg]
    exact h.walking l (hwalk ▸ hl)
  · show Ownership.Distribution (s.free c).Live (s.free c).registry (s.free c).connector.conn? none w.todo
    rw [hreg, hconn]
    exact howners.workerRelease (live_free hlive)

/-- The connector frees its connection while the network thread has no event of it. -/
theorem Owned.connectorFree (h : Owned s) (hconn : s.connector.conn? = some c) (htodo : c ∉ s.epoll.todo) :
    Owned { s.free c with connector := .idle } := by
  have hlive : s.Live c := (h.owners.maker_spec c hconn).1
  obtain ⟨hf, hlt, haddr, hepoll⟩ := h.free_objs hlive
  obtain ⟨hreg, hwalk, -, hep, hnext⟩ := free_frame (s := s) (c := c)
  have howners := h.owners
  rw [hconn] at howners
  refine ⟨hf, ?_, haddr, hepoll, nofun, ?_, ?_, ?_⟩
  · intro d hd
    exact hnext ▸ hlt d hd
  · intro d w hd
    show d ∈ (s.free c).registry ∧ d ∉ w.todo
    rw [hreg]
    exact h.closing d w (hep ▸ hd)
  · intro l hl
    show ∀ d ∈ l, d ∈ (s.free c).registry
    rw [hreg]
    exact h.walking l (hwalk ▸ hl)
  · show Ownership.Distribution (s.free c).Live (s.free c).registry none (s.free c).epoll.held? (s.free c).epoll.todo
    rw [hreg, hep]
    exact howners.makerRelease htodo (live_free hlive)

/-- A connection that is new has an address of its own. -/
theorem Owned.new_objs (h : Owned s) {addr : ℕ} (hfresh : s.Fresh addr) :
    ¬ s.Live s.nextId ∧ (∀ d, (s.fdDataNew addr).Live d ↔ s.Live d ∨ d = s.nextId) ∧
      (∀ d, (s.fdDataNew addr).Live d → d < s.nextId + 1) ∧
      (∀ d e, (s.fdDataNew addr).Live d → (s.fdDataNew addr).Live e →
        ((s.fdDataNew addr).objs d).addr = ((s.fdDataNew addr).objs e).addr → d = e) ∧
      (∀ d, ((s.fdDataNew addr).objs d).inEpoll = true → (s.fdDataNew addr).Live d) := by
  have hdead : ¬ s.Live s.nextId := fun hl => absurd (h.lt_nextId _ hl) (Nat.lt_irrefl _)
  have hself : (s.fdDataNew addr).objs s.nextId = ⟨addr, true, false, 0, false⟩ := Function.update_self ..
  have hother : ∀ d, d ≠ s.nextId → (s.fdDataNew addr).objs d = s.objs d := fun d hd => Function.update_of_ne hd ..
  have hlive : ∀ d, (s.fdDataNew addr).Live d ↔ s.Live d ∨ d = s.nextId := by
    intro d
    by_cases hd : d = s.nextId
    · subst hd
      rw [Lifecycle.Live, hself]
      exact iff_of_true rfl (.inr rfl)
    · rw [Lifecycle.Live, hother d hd, Lifecycle.Live, or_iff_left hd]
  have hnew : ∀ d, s.Live d → (s.objs d).addr ≠ addr := fun d hd => hfresh d (h.lt_nextId d hd) hd
  refine ⟨hdead, hlive, ?_, ?_, ?_⟩
  · intro d hd
    rcases (hlive d).mp hd with hd | rfl
    · exact Nat.lt_succ_of_lt (h.lt_nextId d hd)
    · exact Nat.lt_succ_self _
  · intro d e hd he heq
    rcases (hlive d).mp hd with hd | rfl <;> rcases (hlive e).mp he with he | rfl
    · rw [hother d (fun hx => hdead (hx ▸ hd)), hother e (fun hx => hdead (hx ▸ he))] at heq
      exact h.addr_inj d e hd he heq
    · rw [hother d (fun hx => hdead (hx ▸ hd)), hself] at heq
      exact absurd heq (hnew d hd)
    · rw [hother e (fun hx => hdead (hx ▸ he)), hself] at heq
      exact absurd heq.symm (hnew e he)
    · rfl
  · intro d hd
    by_cases hx : d = s.nextId
    · exact (hlive d).mpr (.inr hx)
    · rw [hother d hx] at hd
      exact (hlive d).mpr (.inl (h.inEpoll d hd))

theorem Owned.accept (h : Owned s) {addr : ℕ} (hfresh : s.Fresh addr) (hheld : s.epoll.held? = none) {w : Work}
    (hw : s.epoll.todo = w.todo) : Owned { s.fdDataNew addr with epoll := .accepting s.nextId false w } := by
  obtain ⟨hdead, hlive, hlt, haddr, hepoll⟩ := h.new_objs hfresh
  have howners := h.owners
  rw [hheld, hw] at howners
  refine ⟨h.noFaults, hlt, haddr, hepoll, ?_, nofun, h.walking, howners.workerMake hdead hlive⟩
  intro d hd
  obtain ⟨he, ht⟩ := h.created d hd
  rw [hw] at ht
  have hne : d ≠ s.nextId := by
    rintro rfl
    exact hdead (h.owners.maker_spec _ (by rw [show s.connector = .created s.nextId from hd]; rfl)).1
  refine ⟨?_, ht⟩
  rw [show (s.fdDataNew addr).objs d = s.objs d from Function.update_of_ne hne ..]
  exact he

theorem Owned.connectorNew (h : Owned s) {addr : ℕ} (hfresh : s.Fresh addr) (hidle : s.connector = .idle) :
    Owned { s.fdDataNew addr with connector := .created s.nextId } := by
  obtain ⟨hdead, hlive, hlt, haddr, hepoll⟩ := h.new_objs hfresh
  have howners := h.owners
  rw [hidle] at howners
  refine ⟨h.noFaults, hlt, haddr, hepoll, ?_, h.closing, h.walking, howners.makerMake hdead hlive⟩
  intro d hd
  obtain rfl : s.nextId = d := by injection hd
  refine ⟨?_, fun ht => hdead (h.owners.todo_live _ ht)⟩
  rw [show (s.fdDataNew addr).objs s.nextId = ⟨addr, true, false, 0, false⟩ from Function.update_self ..]

/-- `epoll` learns of a live connection, or forgets one. -/
theorem Owned.setInEpoll (h : Owned s) (hlive : s.Live c) (value : Bool)
    (hcreated : s.connector ≠ .created c) : Owned (s.modify c fun o => { o with inEpoll := value }) := by
  have hsame : ∀ d, ((s.modify c fun o => { o with inEpoll := value }).objs d).live = (s.objs d).live ∧
      ((s.modify c fun o => { o with inEpoll := value }).objs d).addr = (s.objs d).addr := by
    intro d
    by_cases hd : d = c
    · subst hd
      rw [objs_modify_self]
      exact ⟨rfl, rfl⟩
    · rw [objs_modify_of_ne s hd]
      exact ⟨rfl, rfl⟩
  have hlive' : ∀ d, (s.modify c fun o => { o with inEpoll := value }).Live d ↔ s.Live d := fun d => by
    rw [Lifecycle.Live, (hsame d).1, Lifecycle.Live]
  refine ⟨h.noFaults, fun d hd => h.lt_nextId d ((hlive' d).mp hd), ?_, ?_, ?_, h.closing, h.walking,
    h.owners.congr hlive'⟩
  · intro d e hd he heq
    rw [(hsame d).2, (hsame e).2] at heq
    exact h.addr_inj d e ((hlive' d).mp hd) ((hlive' e).mp he) heq
  · intro d hd
    rw [hlive' d]
    by_cases hdc : d = c
    · exact hdc ▸ hlive
    · rw [objs_modify_of_ne s hdc] at hd
      exact h.inEpoll d hd
  · intro d hd
    have hdc : d ≠ c := by
      rintro rfl
      exact hcreated hd
    rw [objs_modify_of_ne s hdc]
    exact h.created d hd

/-- The connector moves on with the same connection. -/
theorem Owned.connectorMove (h : Owned s) {pc : Connector} (hconn : pc.conn? = s.connector.conn?)
    (hpc : ∀ d, pc ≠ .created d) : Owned { s with connector := pc } where
  noFaults := h.noFaults
  lt_nextId := h.lt_nextId
  addr_inj := h.addr_inj
  inEpoll := h.inEpoll
  created d hd := absurd hd (hpc d)
  closing := h.closing
  walking := h.walking
  owners := by
    show Ownership.Distribution s.Live s.registry pc.conn? s.epoll.held? s.epoll.todo
    rw [hconn]
    exact h.owners

/-- The network thread moves on. -/
theorem Owned.epollMove (h : Owned s) {pc : EpollThread} (hclosing : ∀ d w, pc = .closing d false w →
      d ∈ s.registry ∧ d ∉ w.todo) (hcreated : ∀ d, s.connector = .created d → d ∉ pc.todo)
    (howners : Ownership.Distribution s.Live s.registry s.connector.conn? pc.held? pc.todo) :
    Owned { s with epoll := pc } where
  noFaults := h.noFaults
  lt_nextId := h.lt_nextId
  addr_inj := h.addr_inj
  inEpoll := h.inEpoll
  created d hd := ⟨(h.created d hd).1, hcreated d hd⟩
  closing := hclosing
  walking := h.walking
  owners := howners

theorem Owned.setWalking (h : Owned s) {walking : Option (List ConnId)}
    (hw : ∀ l, walking = some l → ∀ d ∈ l, d ∈ s.registry) : Owned { s with walking := walking } where
  noFaults := h.noFaults
  lt_nextId := h.lt_nextId
  addr_inj := h.addr_inj
  inEpoll := h.inEpoll
  created := h.created
  closing := h.closing
  walking := hw
  owners := h.owners

/-- A field changes that says nothing about the ownership. -/
theorem Owned.modify (h : Owned s) (c : ConnId) {f : ConnObj → ConnObj} (hlive : ∀ o, (f o).live = o.live)
    (haddr : ∀ o, (f o).addr = o.addr) (hepoll : ∀ o, (f o).inEpoll = o.inEpoll) : Owned (s.modify c f) := by
  have hsame {α : Type} (field : ConnObj → α) (hfield : ∀ o, field (f o) = field o) (d : ConnId) :
      field ((s.modify c f).objs d) = field (s.objs d) := by
    by_cases hd : d = c
    · subst hd
      rw [objs_modify_self, hfield]
    · rw [objs_modify_of_ne s hd]
  exact h.congr_objs (hsame _ hlive) (hsame _ haddr) (hsame _ hepoll)

theorem registryAdd_eq (hlive : s.Live c) : s.registryAdd c =
    { s.modify c (fun o => { o with generation := s.nextGeneration }) with
      registry := s.registry ++ [c], nextGeneration := addW s.nextGeneration 1 } := by
  have hl : (s.objs c).live = true := hlive
  rw [Lifecycle.registryAdd, if_pos hl]
  rfl

/-- The network thread puts the accepted connection in the registry. -/
theorem Owned.acceptAdd (h : Owned s) {w : Work} (hheld : s.epoll.held? = some c) (hw : s.epoll.todo = w.todo)
    (hwalk : s.walking = none) : Owned { s.registryAdd c with epoll := .working w } := by
  have hgen := h.modify c (f := fun o => { o with generation := s.nextGeneration }) (fun _ => rfl) (fun _ => rfl)
    fun _ => rfl
  have howners := hgen.owners
  rw [show (s.modify c fun o => { o with generation := s.nextGeneration }).epoll.held? = some c from hheld,
    show (s.modify c fun o => { o with generation := s.nextGeneration }).epoll.todo = w.todo from hw] at howners
  rw [registryAdd_eq (h.owners.worker_spec c hheld).1]
  refine ⟨h.noFaults, hgen.lt_nextId, hgen.addr_inj, hgen.inEpoll, ?_, nofun, ?_, howners.workerPublish⟩
  · intro d hd
    obtain ⟨he, ht⟩ := hgen.created d hd
    exact ⟨he, fun hmem => ht (hw.symm ▸ hmem)⟩
  · intro l hl
    exact absurd (hwalk.symm.trans hl) nofun

/-- The connector puts its connection in the registry. -/
theorem Owned.connectorAdd (h : Owned s) (hconn : s.connector.conn? = some c) (hwalk : s.walking = none) :
    Owned { s.registryAdd c with connector := .idle } := by
  have hgen := h.modify c (f := fun o => { o with generation := s.nextGeneration }) (fun _ => rfl) (fun _ => rfl)
    fun _ => rfl
  have howners := hgen.owners
  rw [show (s.modify c fun o => { o with generation := s.nextGeneration }).connector.conn? = some c from hconn] at howners
  rw [registryAdd_eq (h.owners.maker_spec c hconn).1]
  refine ⟨h.noFaults, hgen.lt_nextId, hgen.addr_inj, hgen.inEpoll, nofun, ?_, ?_, howners.makerPublish⟩
  · intro d w hd
    obtain ⟨hr, ht⟩ := h.closing d w hd
    exact ⟨List.mem_append_left _ hr, ht⟩
  · intro l hl
    exact absurd (hwalk.symm.trans hl) nofun

/-- The network thread takes a connection off the registry. -/
theorem Owned.closeRemove (h : Owned s) {w : Work} (hpc : s.epoll = .closing c false w) (hwalk : s.walking = none) :
    Owned { s.registryRemove c with epoll := .closing c true w } := by
  obtain ⟨hmem, htodo⟩ := h.closing c w hpc
  have hsame : ∀ d ∈ s.registry, ((s.objs d).addr == (s.objs c).addr) = true ↔ d = c := by
    intro d hd
    rw [beq_iff_eq]
    constructor
    · exact h.addr_inj d c (h.owners.table_live d hd) (h.owners.table_live c hmem)
    · rintro rfl
      rfl
  obtain ⟨hnd, hmem'⟩ := Ownership.swapRemove_spec h.owners.nodup hmem hsame
  have howners := h.owners
  rw [hpc] at howners
  refine ⟨h.noFaults, h.lt_nextId, h.addr_inj, h.inEpoll, ?_, nofun, ?_, howners.withdraw hmem htodo hnd hmem'⟩
  · intro d hd
    obtain ⟨he, ht⟩ := h.created d hd
    rw [hpc] at ht
    exact ⟨he, ht⟩
  · intro l hl
    exact absurd (hwalk.symm.trans hl) nofun

/-- An eviction touches connections of the registry only. -/
theorem Owned.evictIfCurrent (h : Owned s) (addr generation : ℕ) : Owned (s.evictIfCurrent addr generation) := by
  unfold Lifecycle.evictIfCurrent
  cases hfind : s.registry.find? fun d => (s.objs d).addr == addr with
  | none => exact h
  | some d =>
    simp only
    rw [touch_of_live (h.owners.table_live d (List.mem_of_find?_eq_some hfind))]
    split_ifs
    · exact h.modify d (fun _ => rfl) (fun _ => rfl) fun _ => rfl
    · exact h

end Objects

/-! ### Runs -/

/-- The network thread does not close a connection that the connector is setting up, and the connector does
not free one of which the network thread still has an event. -/
def OwnershipKept (s : Lifecycle) : LifecycleLabel → Prop
  | .close => ∀ c ∈ s.connector.conn?, s.epoll.todo.head? ≠ some c
  | .connectorFree => ∀ c ∈ s.connector.conn?, c ∉ s.epoll.todo
  | _ => True

instance (s : Lifecycle) (label : LifecycleLabel) : Decidable (OwnershipKept s label) := by
  cases label with
  | close => exact inferInstanceAs (Decidable (∀ c ∈ s.connector.conn?, s.epoll.todo.head? ≠ some c))
  | connectorFree => exact inferInstanceAs (Decidable (∀ c ∈ s.connector.conn?, c ∉ s.epoll.todo))
  | _ => exact isTrue trivial

section Steps
variable {s t : Lifecycle}

/-- The network thread is done with the connection at the head of its list. -/
theorem Owned.next (h : Owned s) {sweep : Bool} {c : ConnId} {todo : List ConnId}
    (hpc : s.epoll = .working ⟨sweep, c :: todo⟩) : Owned { s with epoll := .working ⟨sweep, todo⟩ } := by
  have howners := h.owners
  rw [hpc] at howners
  have hnd := List.nodup_cons.mp howners.todo_nodup
  refine h.epollMove nofun ?_ (howners.visit hnd.2 fun d hd => howners.todo_live d (List.mem_cons_of_mem _ hd))
  intro d hd hmem
  apply (h.created d hd).2
  rw [hpc]
  exact List.mem_cons_of_mem _ hmem

/-- The network thread starts to close a connection that is not the connector's. -/
theorem Owned.close (h : Owned s) {sweep : Bool} {c : ConnId} {todo : List ConnId}
    (hpc : s.epoll = .working ⟨sweep, c :: todo⟩) (hkept : OwnershipKept s .close) :
    Owned { s with epoll := .closing c false ⟨sweep, todo⟩ } := by
  have howners := h.owners
  rw [hpc] at howners
  have hnd := List.nodup_cons.mp howners.todo_nodup
  have hmem : c ∈ s.registry :=
    howners.mem_table (howners.todo_live c List.mem_cons_self) fun hc => hkept c hc (by rw [hpc]; rfl)
  refine h.epollMove ?_ ?_ (howners.visit hnd.2 fun d hd => howners.todo_live d (List.mem_cons_of_mem _ hd))
  · intro d w heq
    cases heq
    exact ⟨hmem, hnd.1⟩
  · intro d hd hmem
    apply (h.created d hd).2
    rw [hpc]
    exact List.mem_cons_of_mem _ hmem

/-- The network thread gets a batch of events. -/
theorem Owned.wait (h : Owned s) (hpc : s.epoll = .waiting) {batch : List ConnId} (hnd : batch.Nodup)
    (hbatch : ∀ c ∈ batch, (s.objs c).inEpoll = true) : Owned { s with epoll := .working ⟨false, batch⟩ } := by
  have howners := h.owners
  rw [hpc] at howners
  refine h.epollMove nofun ?_ (howners.visit hnd fun d hd => h.inEpoll d (hbatch d hd))
  intro d hd hmem
  have hin := hbatch d hmem
  rw [(h.created d hd).1] at hin
  contradiction

/-- The network thread starts a sweep of the registry. -/
theorem Owned.sweep (h : Owned s) {w : Work} (hpc : s.epoll = .working w) :
    Owned { s with epoll := .working ⟨true, s.registry⟩ } := by
  have howners := h.owners
  rw [hpc] at howners
  refine h.epollMove nofun ?_ (howners.visit howners.nodup howners.table_live)
  intro d hd
  exact (howners.maker_spec d (by rw [hd]; rfl)).2.1

/-- The network thread registers the accepted connection for events. -/
theorem Owned.acceptRegister (h : Owned s) {c : ConnId} {w : Work} (hpc : s.epoll = .accepting c false w) :
    Owned { s.register c with epoll := .accepting c true w } := by
  have hheld : s.epoll.held? = some c := by rw [hpc]; rfl
  have hne : s.connector ≠ .created c := by
    intro hc
    exact (h.owners.maker_spec c (by rw [hc]; rfl)).2.2 hheld
  have h' := h.setInEpoll (h.owners.worker_spec c hheld).1 true hne
  have hpc' : (s.modify c fun o => { o with inEpoll := true }).epoll = .accepting c false w := hpc
  have howners' := h'.owners
  rw [hpc'] at howners'
  refine h'.epollMove nofun ?_ howners'
  intro d hd hmem
  apply (h'.created d hd).2
  rwa [hpc']

theorem lifecycleStep_owned {label : LifecycleLabel} (h : Owned s) (hkept : OwnershipKept s label)
    (hstep : lifecycleStep s label = some t) : Owned t := by
  have howners := h.owners
  cases label with
  | epollWait batch =>
    simp only [lifecycleStep] at hstep
    split at hstep
    · next hpc =>
      split_ifs at hstep with hb
      cases hstep
      exact h.wait hpc hb.1 hb.2
    · cases hstep
  | keep =>
    simp only [lifecycleStep] at hstep
    split at hstep
    · next sweep c todo hpc =>
      cases hstep
      rw [touch_of_live (howners.todo_live c (by rw [hpc]; exact List.mem_cons_self))]
      exact h.next hpc
    · cases hstep
  | close =>
    simp only [lifecycleStep] at hstep
    split at hstep
    · next sweep c todo hpc =>
      cases hstep
      rw [touch_of_live (howners.todo_live c (by rw [hpc]; exact List.mem_cons_self))]
      exact h.close hpc hkept
    · cases hstep
  | closeRemove =>
    simp only [lifecycleStep] at hstep
    split at hstep
    · next c w hpc hwalk =>
      cases hstep
      rw [touch_of_live (howners.table_live c (h.closing c w hpc).1)]
      exact h.closeRemove hpc hwalk
    · cases hstep
  | closeFree =>
    simp only [lifecycleStep] at hstep
    split at hstep
    · next c w hpc =>
      cases hstep
      exact h.epollFree (by rw [hpc]; rfl) (by rw [hpc]; rfl)
    · cases hstep
  | accept addr =>
    simp only [lifecycleStep] at hstep
    split at hstep
    · next todo hpc =>
      split_ifs at hstep with hfresh
      cases hstep
      exact h.accept hfresh (by rw [hpc]; rfl) (by rw [hpc]; rfl)
    · cases hstep
  | acceptRegister ok =>
    simp only [lifecycleStep] at hstep
    split at hstep
    · next c w hpc =>
      have hheld : s.epoll.held? = some c := by rw [hpc]; rfl
      rw [touch_of_live (howners.worker_spec c hheld).1] at hstep
      cases ok with
      | true =>
        cases hstep
        exact h.acceptRegister hpc
      | false =>
        cases hstep
        exact h.epollFree hheld (by rw [hpc]; rfl)
    · cases hstep
  | acceptAdd =>
    simp only [lifecycleStep] at hstep
    split at hstep
    · next c w hpc hwalk =>
      cases hstep
      exact h.acceptAdd (by rw [hpc]; rfl) (by rw [hpc]; rfl) hwalk
    · cases hstep
  | sweep =>
    simp only [lifecycleStep] at hstep
    split at hstep
    · next hpc hwalk =>
      cases hstep
      exact h.sweep hpc
    · cases hstep
  | endSweep =>
    simp only [lifecycleStep] at hstep
    split at hstep
    · next hpc =>
      cases hstep
      rw [hpc] at howners
      exact h.epollMove nofun (fun _ _ => List.not_mem_nil) howners
    · cases hstep
  | connectorNew addr =>
    simp only [lifecycleStep] at hstep
    split at hstep
    · next hpc =>
      split_ifs at hstep with hfresh
      cases hstep
      exact h.connectorNew hfresh hpc
    · cases hstep
  | connectorRegister ok =>
    simp only [lifecycleStep] at hstep
    split at hstep
    · next c hpc =>
      have hconn : s.connector.conn? = some c := by rw [hpc]; rfl
      have hlive := (howners.maker_spec c hconn).1
      rw [touch_of_live hlive] at hstep
      cases ok with
      | true =>
        cases hstep
        have h' : Owned { s with connector := .registered c } := h.connectorMove hconn.symm nofun
        exact h'.setInEpoll hlive true nofun
      | false =>
        cases hstep
        exact h.connectorFree hconn (h.created c hpc).2
    · cases hstep
  | connectorVersion ok =>
    simp only [lifecycleStep] at hstep
    split at hstep
    · next c hpc =>
      have hconn : s.connector.conn? = some c := by rw [hpc]; rfl
      cases hstep
      rw [touch_of_live (howners.maker_spec c hconn).1]
      cases ok with
      | true => exact h.connectorMove hconn.symm nofun
      | false => exact h.connectorMove hconn.symm nofun
    · cases hstep
  | connectorUnregister =>
    simp only [lifecycleStep] at hstep
    split at hstep
    · next c hpc =>
      have hconn : s.connector.conn? = some c := by rw [hpc]; rfl
      cases hstep
      have h' : Owned { s with connector := .unregistered c } := h.connectorMove hconn.symm nofun
      exact h'.setInEpoll (howners.maker_spec c hconn).1 false nofun
    · cases hstep
  | connectorFree =>
    simp only [lifecycleStep] at hstep
    split at hstep
    · next c hpc =>
      have hconn : s.connector.conn? = some c := by rw [hpc]; rfl
      cases hstep
      exact h.connectorFree hconn (hkept c hconn)
    · cases hstep
  | connectorAdd =>
    simp only [lifecycleStep] at hstep
    split at hstep
    · next c hpc hwalk =>
      cases hstep
      exact h.connectorAdd (by rw [hpc]; rfl) hwalk
    · cases hstep
  | walk =>
    simp only [lifecycleStep] at hstep
    split at hstep
    · cases hstep
      refine h.setWalking fun l hl d hd => ?_
      exact Option.some.inj hl ▸ hd
    · cases hstep
  | walkOne =>
    simp only [lifecycleStep] at hstep
    split at hstep
    · next c rest hwalk =>
      cases hstep
      have hmem := h.walking _ hwalk
      rw [touch_of_live (howners.table_live c (hmem c List.mem_cons_self))]
      refine h.setWalking fun l hl d hd => ?_
      exact hmem d (List.mem_cons_of_mem _ (Option.some.inj hl ▸ hd))
    · cases hstep
  | endWalk =>
    simp only [lifecycleStep] at hstep
    split at hstep
    · cases hstep
      exact h.setWalking nofun
    · cases hstep
  | evict addr generation =>
    simp only [lifecycleStep] at hstep
    split at hstep
    · cases hstep
      exact h.evictIfCurrent addr generation
    · cases hstep

end Steps

/-- An eviction flags at most a registered connection with the address and the generation it is given. -/
theorem evictIfCurrent_flags (s : Lifecycle) (addr generation : ℕ) (c : ConnId)
    (hflag : ((s.evictIfCurrent addr generation).objs c).pendingEviction = true) :
    (s.objs c).pendingEviction = true ∨
      c ∈ s.registry ∧ (s.objs c).addr = addr ∧ (s.objs c).generation = generation := by
  unfold Lifecycle.evictIfCurrent at hflag
  cases hfind : s.registry.find? fun d => (s.objs d).addr == addr with
  | none =>
    rw [hfind] at hflag
    exact .inl hflag
  | some d =>
    have hobjs : (s.touch d).objs = s.objs := by
      unfold Lifecycle.touch Lifecycle.fault
      split_ifs <;> rfl
    rw [hfind] at hflag
    simp only at hflag
    split_ifs at hflag with hgen
    · by_cases hc : c = d
      · subst hc
        rw [hobjs] at hgen
        exact .inr ⟨List.mem_of_find?_eq_some hfind, by simpa using List.find?_some hfind, hgen⟩
      · rw [objs_modify_of_ne _ hc, hobjs] at hflag
        exact .inl hflag
    · rw [hobjs] at hflag
      exact .inl hflag

/-- Nothing was used, freed or registered after it was freed; the registry has each live connection once,
except those that the connector or the network thread has not yet added or has already removed, and no
freed one; and an eviction flags only a registered connection with the right address and generation. -/
structure Lifecycle.Safe (s : Lifecycle) : Prop where
  noFaults : s.faults = []
  registered_once : ∀ c, s.Live c → s.connector.conn? ≠ some c → s.epoll.held? ≠ some c → s.registry.count c = 1
  none_freed : ∀ c ∈ s.registry, s.Live c ∧ s.registry.count c = 1
  evicts_current : ∀ addr generation t, lifecycleStep s (.evict addr generation) = some t →
    ∀ c, (t.objs c).pendingEviction = true → (s.objs c).pendingEviction = true ∨
      c ∈ s.registry ∧ (s.objs c).addr = addr ∧ (s.objs c).generation = generation

/-- In every run in which the network thread never closes a connection that the connector is still setting
up, and the connector never frees one of which the network thread has an event before it, the lifecycle is
safe. -/
theorem lifecycle_safe (labels : List LifecycleLabel) (s : Lifecycle)
    (hrun : Transition.run lifecycleStep .init labels = some s)
    (hkept : Transition.Along lifecycleStep OwnershipKept .init labels) : s.Safe := by
  have h : Owned s := Transition.run_invariant_along (fun _ _ _ hi hk hs => lifecycleStep_owned hi hk hs)
    owned_init hkept hrun
  have hcount : ∀ c ∈ s.registry, s.registry.count c = 1 := fun c hc => List.count_eq_one_of_mem h.owners.nodup hc
  refine ⟨h.noFaults, ?_, fun c hc => ⟨h.owners.table_live c hc, hcount c hc⟩, ?_⟩
  · intro c hlive hconn hheld
    rcases h.owners.covered c hlive with hr | hm | hw
    · exact hcount c hr
    · exact absurd hm hconn
    · exact absurd hw hheld
  · intro addr generation t hstep c hflag
    simp only [lifecycleStep] at hstep
    split at hstep
    · cases hstep
      exact evictIfCurrent_flags s addr generation c hflag
    · cases hstep

/-- An outbound connection that is set up, and then closed by the other side. -/
def connectThenClose : List LifecycleLabel :=
  [.connectorNew 0, .connectorRegister true, .connectorVersion true, .connectorAdd, .epollWait [0], .close,
    .closeRemove, .closeFree]

theorem connectThenClose_safe :
    ∃ s, Transition.run lifecycleStep .init connectThenClose = some s ∧ s.Safe := by
  have hrun : (Transition.run lifecycleStep .init connectThenClose).isSome = true := by decide
  have hkept : Transition.Along lifecycleStep OwnershipKept .init connectThenClose := by decide
  obtain ⟨s, hs⟩ := Option.isSome_iff_exists.mp hrun
  exact ⟨s, hs, lifecycle_safe connectThenClose s hs hkept⟩

/-- The other side closes the connection before the connector has sent the version: the network thread
frees it, and the connector writes to it. -/
def closeBeforeVersion : List LifecycleLabel :=
  [.connectorNew 0, .connectorRegister true, .epollWait [0], .close, .closeRemove, .closeFree, .connectorVersion true]

theorem closeBeforeVersion_faults :
    ¬ ∀ labels s, Transition.run lifecycleStep .init labels = some s → s.Safe := by
  intro h
  have hfaults : (Transition.run lifecycleStep .init closeBeforeVersion).map Lifecycle.faults =
      some [.useAfterFree 0] := by decide
  obtain ⟨s, hs, hf⟩ := Option.map_eq_some_iff.mp hfaults
  have hsafe := (h closeBeforeVersion s hs).noFaults
  rw [hf] at hsafe
  contradiction

end Bitmessage
