import Bitmessage.Infra.Dandelion
import Bitmessage.Infra.PoolAdmission

/-! How the hashes of objects reach the peers. Three paths queue them: a broadcast, which asks
the propagation state for each connection and each hash; the big inventory, a list of the
pool for a peer that has just completed its handshake, sent in chunks; and the sweep that
broadcasts the hashes whose time on the stem is over. They run in several threads. A
broadcast and the building of a big inventory hold the lock of the registry throughout,
the propagation state has a lock of its own that is taken for one operation at a time, and
the clock goes on between the steps. A step may use a time that was read before it. -/

namespace Bitmessage

/-- `BM_BIG_INV_CHUNK_SIZE`. -/
def bigInvChunkSize : ℕ := 1000

/-- `BM_BIG_INV_CHUNK_INTERVAL_SECONDS`. -/
def bigInvChunkIntervalSeconds : ℤ := 1

/-- `enum bm_fd_type`. -/
inductive FdType
  | listenSocket
  | serverSocket
  | clientSocket
  deriving DecidableEq

/-- The part of `struct bm_fd_data` that the propagation reads: `dandelion` is the bit
`BM_SERVICE_NODE_DANDELION` of the services, `pendingInv` the rest of a big inventory. -/
structure PeerConn where
  generation : ℕ
  type : FdType
  peer : PeerAddress
  dandelion : Bool
  pendingEviction : Bool
  pendingVerackReplyAt : ℤ
  pendingInv : List Bytes
  pendingInvLastChunkTime : ℤ

/-- A packet with hashes that is handed to `bm_network_send`. -/
inductive Announcement
  | inv (hashes : List Bytes)
  | dinv (hashes : List Bytes)
  deriving DecidableEq

/-- `bm_peer_registry_broadcast_inv` under the lock: the connections that it is done with and those
to come, the first of them being worked on, and for that one the hashes to decide and the two
lists of `queue_inv_for_conn`. -/
structure InvBroadcast where
  hashes : List Bytes
  except : Option ℕ
  passed : List ℕ
  todo : List ℕ
  undecided : List Bytes
  fluff : List Bytes
  stem : List Bytes

/-- `send_big_inv` under the lock: the hashes to look at and those to send. -/
structure BigInv where
  conn : ℕ
  unchecked : List Bytes
  plain : List Bytes

/-- Who holds the lock of the registry for more than one step. -/
inductive RegistryLock
  | free
  | broadcast (b : InvBroadcast)
  | bigInv (v : BigInv)

def RegistryLock.broadcast? : RegistryLock → Option InvBroadcast
  | broadcast b => some b
  | free | bigInv _ => none

def RegistryLock.bigInv? : RegistryLock → Option BigInv
  | bigInv v => some v
  | free | broadcast _ => none

/-- `peer_connector_thread` in its loop: it chooses a stem, or announces the hashes of a sweep one
by one, each after a look into the pool. -/
inductive ConnectorState
  | idle
  | picking
  | picked (stem : Option PeerAddress)
  | refluffing (hashes : List Bytes)
  | waiting (hash : Bytes) (rest : List Bytes)
  | announcing (rest : List Bytes)
  deriving DecidableEq

/-- A thread with an object of its own, as `bm_object_sync_broadcast_thread` and the callbacks of
the proof of work have it: looked up in the pool, then inserted, then announced. -/
inductive OwnObject
  | made (row : PoolObject)
  | looked (row : PoolObject) (alreadyKnown : Bool)
  | inserted (row : PoolObject) (alreadyKnown : Bool)

/-- The state that the threads share, and where they are. -/
structure Propagation where
  clock : ℤ
  dandelion : Dandelion
  pool : ObjectPool
  conns : List PeerConn
  nextGeneration : ℕ
  lock : RegistryLock
  connector : ConnectorState
  own : List OwnObject

/-- What happens next. -/
inductive PropagationEvent
  | tick (now : ℤ)
  /-- `bm_peer_registry_add`, `bm_peer_registry_remove` -/
  | add (type : FdType) (peer : PeerAddress)
  | remove (conn : ℕ)
  /-- `version` and `verack` of a peer -/
  | services (conn : ℕ) (dandelion : Bool)
  | verack (conn : ℕ) (replyAt : ℤ)
  /-- an object from the network is stored, old ones are deleted -/
  | insert (row : PoolObject)
  | gc (now : ℤ)
  /-- a hash in an `inv` or `dinv` -/
  | note (hash : Bytes) (isDinv : Bool) (now : ℤ) (delay : ℕ)
  /-- an object of this node -/
  | make (row : PoolObject)
  | look (i : ℕ)
  | store (i : ℕ)
  | announce (i : ℕ)
  /-- `bm_peer_registry_broadcast_inv` called by anybody else -/
  | broadcast (hashes : List Bytes) (except : Option ℕ)
  | decide (now : ℤ) (delay : ℕ)
  | queue (invOk dinvOk : Bool)
  | endBroadcast
  /-- `bm_dandelion_maybe_reshuffle` -/
  | reshuffle (now : ℤ)
  | pick (conn : Option ℕ)
  | setStem
  /-- `bm_dandelion_expire_and_refluff` -/
  | expire (now : ℤ)
  | checkRefluff
  | refluff
  | endRefluff
  /-- `flush_verack_reply_one` and `idle_sweep_one` -/
  | beginBigInv (conn : ℕ) (now listedAt : ℤ)
  | checkBigInv
  | queueBigInv (now : ℤ) (ok : Bool)
  | sweepBigInv (conn : ℕ) (now : ℤ) (ok : Bool)

/-- `bm_object_store_list_hashes_by_stream`. -/
def objectStoreListHashesByStream (pool : ObjectPool) (stream now : ℤ) : List Bytes :=
  (pool.rows.filter fun row => decide (row.stream = stream ∧ now < row.expiresTime)).map PoolObject.hash

/-- A connection that a broadcast turns to. -/
def PeerConn.announced (except : Option ℕ) (conn : PeerConn) : Bool :=
  decide (except ≠ some conn.generation ∧ conn.type ≠ .listenSocket)

/-- A candidate of `bm_peer_registry_pick_random_dandelion_peer`. -/
def PeerConn.eligible (conn : PeerConn) : Bool := decide (conn.type = .clientSocket) && conn.dandelion

namespace Propagation

variable (s : Propagation)

def conn? (c : ℕ) : Option PeerConn := s.conns.find? fun p => decide (p.generation = c)

/-- A change of one connection. -/
def setConn (c : ℕ) (f : PeerConn → PeerConn) : Propagation :=
  { s with conns := s.conns.map fun p => if p.generation = c then f p else p }

/-- The time was read before. -/
def Past (now : ℤ) : Prop := 0 < now ∧ now ≤ s.clock

instance (now : ℤ) : Decidable (s.Past now) := inferInstanceAs (Decidable (_ ∧ _))

/-- `bm_peer_registry_broadcast_inv` takes the lock. -/
def startBroadcast (hashes : List Bytes) (except : Option ℕ) : Propagation :=
  if hashes = [] then s
  else
    { s with lock := .broadcast {
        hashes := hashes
        except := except
        passed := []
        todo := (s.conns.filter (PeerConn.announced except)).map PeerConn.generation
        undecided := hashes
        fluff := []
        stem := [] } }

end Propagation

/-- The decision for one hash enters one of the two lists. -/
def InvBroadcast.decided (b : InvBroadcast) (hash : Bytes) (rest : List Bytes) : PropagationMode → InvBroadcast
  | .fluff => { b with undecided := rest, fluff := b.fluff ++ [hash] }
  | .stem => { b with undecided := rest, stem := b.stem ++ [hash] }
  | .skip => { b with undecided := rest }

/-- On to the next connection. -/
def InvBroadcast.next (b : InvBroadcast) (c : ℕ) (rest : List ℕ) : InvBroadcast :=
  { b with passed := b.passed ++ [c], todo := rest, undecided := b.hashes, fluff := [], stem := [] }

/-- The packets of `queue_inv_for_conn`; the `dinv` is not tried after a failed `inv`. -/
def InvBroadcast.packets (b : InvBroadcast) (invOk dinvOk : Bool) : List Announcement :=
  (if b.fluff ≠ [] ∧ invOk = true then [.inv b.fluff] else []) ++
    if b.stem ≠ [] ∧ (b.fluff = [] ∨ invOk = true) ∧ dinvOk = true then [.dinv b.stem] else []

/-- A packet could not be queued: `bm_network_send` has marked the connection. -/
def InvBroadcast.failed (b : InvBroadcast) (invOk dinvOk : Bool) : Bool :=
  decide (b.fluff ≠ [] ∧ invOk = false) || decide (b.stem ≠ [] ∧ (b.fluff = [] ∨ invOk = true) ∧ dinvOk = false)

/-- `send_inv_chunk` for the hashes that remain. -/
def sendInvChunk (hashes : List Bytes) (now : ℤ) (ok : Bool) (conn : PeerConn) : PeerConn :=
  if ok then { conn with pendingInv := hashes.drop bigInvChunkSize, pendingInvLastChunkTime := now }
  else { conn with pendingInv := [], pendingInvLastChunkTime := now, pendingEviction := true }

/-- The packet of `send_inv_chunk`, if it is queued. -/
def invChunk (hashes : List Bytes) (ok : Bool) : List Announcement :=
  if ok then [.inv (hashes.take bigInvChunkSize)] else []

/-- The connection after the reply to its `verack`. -/
def BigInv.finish (v : BigInv) (now : ℤ) (ok : Bool) (conn : PeerConn) : PeerConn :=
  { (if v.plain = [] then conn else sendInvChunk v.plain now ok conn) with pendingVerackReplyAt := 0 }

/-- `bm_peer_registry_remove`: the last connection takes the place of the one removed. -/
def registryRemove (conns : List PeerConn) (c : ℕ) : List PeerConn :=
  match conns.findIdx? fun p => decide (p.generation = c), conns.getLast? with
  | some i, some last => (conns.set i last).dropLast
  | _, _ => conns

/-- The broadcast that ends under `announcing` is the one of the sweep. -/
def ConnectorState.released : ConnectorState → ConnectorState
  | .announcing rest => .refluffing rest
  | connector => connector

/-- The steps under the lock of the registry, for a broadcast. -/
def broadcastStep (s : Propagation) (b : InvBroadcast) : PropagationEvent → Option Propagation
  | .decide now delay =>
    match b.todo, b.undecided with
    | c :: _, hash :: rest =>
      if s.Past now then
        let (dandelion, mode) := dandelionDecide s.dandelion hash ((s.conn? c).map PeerConn.peer) now delay
        some { s with dandelion := dandelion, lock := .broadcast (b.decided hash rest mode) }
      else none
    | _, _ => none
  | .queue invOk dinvOk =>
    match b.todo, b.undecided with
    | c :: rest, [] =>
      some { s.setConn c (fun p => { p with pendingEviction := p.pendingEviction || b.failed invOk dinvOk }) with
        lock := .broadcast (b.next c rest) }
    | _, _ => none
  | .endBroadcast =>
    if b.todo = [] then some { s with lock := .free, connector := s.connector.released } else none
  | _ => none

/-- The steps under the lock of the registry, for a big inventory. -/
def bigInvStep (s : Propagation) (v : BigInv) : PropagationEvent → Option Propagation
  | .checkBigInv =>
    match v.unchecked with
    | hash :: rest =>
      let plain := if dandelionIsStemming s.dandelion hash then v.plain else v.plain ++ [hash]
      some { s with lock := .bigInv { v with unchecked := rest, plain := plain } }
    | [] => none
  | .queueBigInv now ok =>
    if v.unchecked = [] ∧ s.Past now then some { s.setConn v.conn (v.finish now ok) with lock := .free } else none
  | _ => none

/-- The steps that take the lock of the registry and need it to be free. -/
def freeStep (s : Propagation) : PropagationEvent → Option Propagation
  | .add type peer =>
    some { s with
      conns := s.conns ++ [⟨s.nextGeneration, type, peer, false, false, 0, [], 0⟩]
      nextGeneration := s.nextGeneration + 1 }
  | .remove c => some { s with conns := registryRemove s.conns c }
  | .announce i =>
    match s.own[i]? with
    | some (.inserted row alreadyKnown) =>
      let s := { s with own := s.own.eraseIdx i }
      some (if alreadyKnown then s else s.startBroadcast [row.hash] none)
    | _ => none
  | .broadcast hashes except => some (s.startBroadcast hashes except)
  | .pick choice =>
    match s.connector, choice with
    | .picking, none =>
      if s.conns.any PeerConn.eligible then none else some { s with connector := .picked none }
    | .picking, some c =>
      match s.conn? c with
      | some p => if p.eligible then some { s with connector := .picked (some p.peer) } else none
      | none => none
    | _, _ => none
  | .refluff =>
    match s.connector with
    | .waiting hash rest => some ({ s with connector := .announcing rest }.startBroadcast [hash] none)
    | _ => none
  | .beginBigInv c now listedAt =>
    match s.conn? c with
    | some p =>
      if p.pendingVerackReplyAt ≠ 0 ∧ p.pendingVerackReplyAt ≤ now ∧ s.Past now ∧ s.Past listedAt then
        some { s with lock := .bigInv ⟨c, objectStoreListHashesByStream s.pool 1 listedAt, []⟩ }
      else none
    | none => none
  | _ => none

def lockedStep (s : Propagation) (e : PropagationEvent) : Option Propagation :=
  match s.lock with
  | .free => freeStep s e
  | .broadcast b => broadcastStep s b e
  | .bigInv v => bigInvStep s v e

/-- One step. The steps that do not need the lock of the registry come first. -/
def propagationStep (s : Propagation) (e : PropagationEvent) : Option Propagation :=
  match e with
  | .tick now => if s.clock ≤ now then some { s with clock := now } else none
  | .services c dandelion => some (s.setConn c fun p => { p with dandelion := dandelion })
  | .verack c replyAt => some (s.setConn c fun p => { p with pendingVerackReplyAt := replyAt })
  | .insert row => some { s with pool := objectStoreInsert s.pool row }
  | .gc now => some { s with pool := (objectStoreDeleteExpired s.pool (now - objectGcGracePeriod)).1 }
  | .note hash isDinv now delay =>
    if s.Past now then some { s with dandelion := dandelionNoteSource s.dandelion hash isDinv now delay } else none
  | .make row => some { s with own := s.own ++ [.made row] }
  | .look i =>
    match s.own[i]? with
    | some (.made row) => some { s with own := s.own.set i (.looked row (objectStoreHas s.pool row.hash)) }
    | _ => none
  | .store i =>
    match s.own[i]? with
    | some (.looked row alreadyKnown) =>
      some { s with pool := objectStoreInsert s.pool row, own := s.own.set i (.inserted row alreadyKnown) }
    | _ => none
  | .reshuffle now =>
    match s.connector with
    | .idle =>
      if s.Past now then
        if reshuffleDue s.dandelion now then
          some { s with dandelion := { s.dandelion with epochStarted := now }, connector := .picking }
        else some s
      else none
    | _ => none
  | .setStem =>
    match s.connector with
    | .picked stem => some { s with dandelion := { s.dandelion with stem := stem }, connector := .idle }
    | _ => none
  | .expire now =>
    match s.connector with
    | .idle =>
      if s.Past now then
        some { s with
          dandelion := dandelionExpire s.dandelion now
          connector := .refluffing (expiredHashes s.dandelion now) }
      else none
    | _ => none
  | .checkRefluff =>
    match s.connector with
    | .refluffing (hash :: rest) =>
      some { s with connector := if objectStoreHas s.pool hash then .waiting hash rest else .refluffing rest }
    | _ => none
  | .endRefluff =>
    match s.connector with
    | .refluffing [] => some { s with connector := .idle }
    | _ => none
  | .sweepBigInv c now ok =>
    match s.lock, s.conn? c with
    | .bigInv _, _ | _, none => none
    | _, some p =>
      if p.pendingEviction = false ∧ p.pendingInv ≠ [] ∧
          bigInvChunkIntervalSeconds ≤ now - p.pendingInvLastChunkTime ∧ s.Past now then
        some (s.setConn c (sendInvChunk p.pendingInv now ok))
      else none
  | e => lockedStep s e

/-- The packets that a step queues, with their connections. -/
def queuedBy (s : Propagation) : PropagationEvent → List (ℕ × Announcement)
  | .queue invOk dinvOk =>
    match s.lock with
    | .broadcast b => (b.todo.head?.toList).flatMap fun c => (b.packets invOk dinvOk).map fun a => (c, a)
    | _ => []
  | .queueBigInv _ ok =>
    match s.lock with
    | .bigInv v => if v.plain = [] then [] else (invChunk v.plain ok).map fun a => (v.conn, a)
    | _ => []
  | .sweepBigInv c _ ok => (s.conn? c).toList.flatMap fun p => (invChunk p.pendingInv ok).map fun a => (c, a)
  | _ => []

/-! ### Connections -/

section

variable {s : Propagation} {c c' : ℕ} {f : PeerConn → PeerConn}

theorem conn?_eq_some {p : PeerConn} (h : s.conn? c = some p) : p ∈ s.conns ∧ p.generation = c :=
  ⟨List.mem_of_find?_eq_some h, by simpa using List.find?_some h⟩

theorem mem_setConn {q : PeerConn} (h : q ∈ (s.setConn c f).conns) : ∃ p ∈ s.conns, q = p ∨ q = f p := by
  obtain ⟨p, hp, rfl⟩ := List.mem_map.mp h
  refine ⟨p, hp, ?_⟩
  split_ifs
  · exact .inr rfl
  · exact .inl rfl

/-- A change of a connection that keeps its generation is seen under the same number. -/
theorem conn?_setConn (hf : ∀ p, (f p).generation = p.generation) :
    (s.setConn c f).conn? c' = (s.conn? c').map fun p => if p.generation = c then f p else p := by
  unfold Propagation.conn? Propagation.setConn
  induction s.conns with
  | nil => rfl
  | cons p ps ih =>
    have hg : (if p.generation = c then f p else p).generation = p.generation := by
      split_ifs
      · exact hf p
      · rfl
    rw [List.map_cons, List.find?_cons, List.find?_cons, hg]
    by_cases hp : p.generation = c'
    · simp [hp]
    · simpa [hp] using ih

theorem mem_registryRemove {conns : List PeerConn} {p : PeerConn} (h : p ∈ registryRemove conns c) : p ∈ conns := by
  unfold registryRemove at h
  split at h
  · next i last hi hlast =>
    rcases List.mem_or_eq_of_mem_set (List.mem_of_mem_dropLast h) with hp | rfl
    · exact hp
    · exact List.mem_of_getLast? hlast
  · exact h

end

/-! ### What a step queues -/

theorem mem_invChunk {hashes : List Bytes} {ok : Bool} {a : Announcement} (h : a ∈ invChunk hashes ok) :
    a = .inv (hashes.take bigInvChunkSize) := by
  unfold invChunk at h
  split_ifs at h
  · exact List.mem_singleton.mp h
  · cases h

theorem mem_packets {b : InvBroadcast} {invOk dinvOk : Bool} {a : Announcement} (h : a ∈ b.packets invOk dinvOk) :
    a = .inv b.fluff ∨ a = .dinv b.stem := by
  rcases List.mem_append.mp h with h | h
  · split_ifs at h
    · exact .inl (List.mem_singleton.mp h)
    · cases h
  · split_ifs at h
    · exact .inr (List.mem_singleton.mp h)
    · cases h

/-- A packet is one of the two of a broadcast, or a chunk of a big inventory. -/
theorem mem_queuedBy {s : Propagation} {e : PropagationEvent} {c : ℕ} {a : Announcement} (h : (c, a) ∈ queuedBy s e) :
    (∃ b ∈ s.lock.broadcast?, b.todo.head? = some c ∧ (a = .inv b.fluff ∨ a = .dinv b.stem)) ∨
      (∃ v ∈ s.lock.bigInv?, a = .inv (v.plain.take bigInvChunkSize)) ∨
      ∃ p, s.conn? c = some p ∧ a = .inv (p.pendingInv.take bigInvChunkSize) := by
  cases e with
  | queue invOk dinvOk =>
    simp only [queuedBy] at h
    split at h
    · next b hlock =>
      obtain ⟨c', hc, h⟩ := List.mem_flatMap.mp h
      obtain ⟨a', ha, he⟩ := List.mem_map.mp h
      cases he
      exact .inl ⟨b, by rw [hlock]; rfl, Option.mem_toList.mp hc, mem_packets ha⟩
    · cases h
  | queueBigInv now ok =>
    simp only [queuedBy] at h
    split at h
    · next v hlock =>
      split_ifs at h
      · cases h
      · obtain ⟨a', ha, he⟩ := List.mem_map.mp h
        cases he
        exact .inr (.inl ⟨v, by rw [hlock]; rfl, mem_invChunk ha⟩)
    · cases h
  | sweepBigInv c' now ok =>
    obtain ⟨p, hp, h⟩ := List.mem_flatMap.mp h
    obtain ⟨a', ha, he⟩ := List.mem_map.mp h
    cases he
    exact .inr (.inr ⟨p, Option.mem_toList.mp hp, mem_invChunk ha⟩)
  | _ => cases h

/-! ### What a step can do -/

/-- The hashes that the sweep has marked and not yet announced. -/
def ConnectorState.hashes : ConnectorState → List Bytes
  | .refluffing hashes => hashes
  | .waiting hash rest => hash :: rest
  | .announcing rest => rest
  | .idle | .picking | .picked _ => []

/-- A change of a connection that the propagation does not see. -/
structure PeerConn.Same (p q : PeerConn) : Prop where
  generation : q.generation = p.generation
  type : q.type = p.type
  peer : q.peer = p.peer
  pendingEviction : q.pendingEviction = p.pendingEviction
  pendingInv : q.pendingInv = p.pendingInv

/-- The steps, sorted by what they do to the lock of the registry, the connections and the entries. -/
inductive PropagationEffect (s : Propagation) : PropagationEvent → Propagation → Prop
  | quiet {e : PropagationEvent} {t : Propagation} (hqueued : queuedBy s e = []) (hlock : t.lock = s.lock)
      (hconns : t.conns = s.conns) (hstem : t.dandelion.stem = s.dandelion.stem)
      (hentries : t.dandelion.entries = s.dandelion.entries)
      (hhashes : ∀ k ∈ s.connector.hashes, k ∈ t.connector.hashes ∨ objectStoreHas s.pool k = false) :
      PropagationEffect s e t
  | touch {e : PropagationEvent} (c : ℕ) (f : PeerConn → PeerConn) (hqueued : queuedBy s e = [])
      (hf : ∀ p : PeerConn, p.Same (f p)) : PropagationEffect s e (s.setConn c f)
  | note (hash : Bytes) (isDinv : Bool) (now : ℤ) (delay : ℕ) (hnow : s.Past now) :
      PropagationEffect s (.note hash isDinv now delay)
        { s with dandelion := dandelionNoteSource s.dandelion hash isDinv now delay }
  | setStem (stem : Option PeerAddress) (hconnector : s.connector = .picked stem) :
      PropagationEffect s .setStem { s with dandelion := { s.dandelion with stem := stem }, connector := .idle }
  | expire (now : ℤ) (hconnector : s.connector = .idle) (hnow : s.Past now) :
      PropagationEffect s (.expire now) { s with
        dandelion := dandelionExpire s.dandelion now
        connector := .refluffing (expiredHashes s.dandelion now) }
  | add (p : PeerConn) {e : PropagationEvent} {t : Propagation} (hqueued : queuedBy s e = []) (hlock : s.lock = .free)
      (hp : p.pendingInv = []) (ht : t = { s with conns := s.conns ++ [p], nextGeneration := t.nextGeneration }) :
      PropagationEffect s e t
  | remove (c : ℕ) (hlock : s.lock = .free) :
      PropagationEffect s (.remove c) { s with conns := registryRemove s.conns c }
  | start {e : PropagationEvent} {u : Propagation} (hashes : List Bytes) (except : Option ℕ) (hqueued : queuedBy s e = [])
      (hlock : s.lock = .free) (hne : hashes ≠ []) (hconns : u.conns = s.conns) (hdandelion : u.dandelion = s.dandelion)
      (hhashes : ∀ k ∈ s.connector.hashes, k ∈ u.connector.hashes ∨ (k ∈ hashes ∧ except = none)) :
      PropagationEffect s e (u.startBroadcast hashes except)
  | decide (b : InvBroadcast) (c : ℕ) (todo : List ℕ) (hash : Bytes) (rest : List Bytes) (now : ℤ) (delay : ℕ)
      (hlock : s.lock = .broadcast b) (htodo : b.todo = c :: todo) (hundecided : b.undecided = hash :: rest)
      (hnow : s.Past now) :
      PropagationEffect s (.decide now delay) { s with
        dandelion := (dandelionDecide s.dandelion hash ((s.conn? c).map PeerConn.peer) now delay).1
        lock := .broadcast (b.decided hash rest
          (dandelionDecide s.dandelion hash ((s.conn? c).map PeerConn.peer) now delay).2) }
  | queue (b : InvBroadcast) (c : ℕ) (rest : List ℕ) (invOk dinvOk : Bool) (hlock : s.lock = .broadcast b)
      (htodo : b.todo = c :: rest) (hundecided : b.undecided = []) :
      PropagationEffect s (.queue invOk dinvOk)
        { s.setConn c (fun p => { p with pendingEviction := p.pendingEviction || b.failed invOk dinvOk }) with
          lock := .broadcast (b.next c rest) }
  | endBroadcast (b : InvBroadcast) (hlock : s.lock = .broadcast b) (htodo : b.todo = []) :
      PropagationEffect s .endBroadcast { s with lock := .free, connector := s.connector.released }
  | beginBigInv {e : PropagationEvent} (v : BigInv) (hqueued : queuedBy s e = []) (hlock : s.lock = .free)
      (hplain : v.plain = []) : PropagationEffect s e { s with lock := .bigInv v }
  | checkBigInv (v : BigInv) (hash : Bytes) (rest : List Bytes) (hlock : s.lock = .bigInv v)
      (hunchecked : v.unchecked = hash :: rest) :
      PropagationEffect s .checkBigInv { s with lock := .bigInv { v with
        unchecked := rest
        plain := if dandelionIsStemming s.dandelion hash then v.plain else v.plain ++ [hash] } }
  | queueBigInv (v : BigInv) (now : ℤ) (ok : Bool) (hlock : s.lock = .bigInv v) :
      PropagationEffect s (.queueBigInv now ok) { s.setConn v.conn (v.finish now ok) with lock := .free }
  | sweepBigInv (c : ℕ) (p : PeerConn) (now : ℤ) (ok : Bool) (hp : s.conn? c = some p) :
      PropagationEffect s (.sweepBigInv c now ok) (s.setConn c (sendInvChunk p.pendingInv now ok))

theorem quiet_refl (s : Propagation) {e : PropagationEvent} (hqueued : queuedBy s e = []) : PropagationEffect s e s :=
  .quiet hqueued rfl rfl rfl rfl fun _ hk => .inl hk

theorem freeStep_effect {s t : Propagation} {e : PropagationEvent} (hlock : s.lock = .free)
    (h : freeStep s e = some t) : PropagationEffect s e t := by
  cases e with
  | add type peer =>
    cases h
    exact .add _ rfl hlock rfl rfl
  | remove c =>
    cases h
    exact .remove c hlock
  | announce i =>
    simp only [freeStep] at h
    split at h
    · next row alreadyKnown _ =>
      cases h
      split_ifs
      · exact .quiet rfl rfl rfl rfl rfl fun _ hk => .inl hk
      · exact .start [row.hash] none rfl hlock (by simp) rfl rfl fun _ hk => .inl hk
    · cases h
  | broadcast hashes except =>
    cases h
    by_cases hne : hashes = []
    · rw [Propagation.startBroadcast, if_pos hne]
      exact quiet_refl s rfl
    · exact .start hashes except rfl hlock hne rfl rfl fun _ hk => .inl hk
  | pick choice =>
    simp only [freeStep] at h
    split at h
    · next hconnector =>
      split_ifs at h
      cases h
      exact .quiet rfl rfl rfl rfl rfl fun k hk => by rw [hconnector] at hk; cases hk
    · next c hconnector =>
      split at h
      · split_ifs at h
        cases h
        exact .quiet rfl rfl rfl rfl rfl fun k hk => by rw [hconnector] at hk; cases hk
      · cases h
    · cases h
  | refluff =>
    simp only [freeStep] at h
    split at h
    · next hash rest hconnector =>
      cases h
      refine .start [hash] none rfl hlock (by simp) rfl rfl fun k hk => ?_
      rw [hconnector] at hk
      rcases List.mem_cons.mp hk with rfl | hk
      · exact .inr ⟨List.mem_singleton_self _, rfl⟩
      · exact .inl hk
    · cases h
  | beginBigInv c now listedAt =>
    simp only [freeStep] at h
    split at h
    · split_ifs at h
      cases h
      exact .beginBigInv _ rfl hlock rfl
    · cases h
  | _ => cases h

theorem broadcastStep_effect {s t : Propagation} {b : InvBroadcast} {e : PropagationEvent}
    (hlock : s.lock = .broadcast b) (h : broadcastStep s b e = some t) : PropagationEffect s e t := by
  cases e with
  | decide now delay =>
    simp only [broadcastStep] at h
    split at h
    · next c todo hash rest htodo hundecided =>
      split_ifs at h with hnow
      cases h
      exact .decide b c todo hash rest now delay hlock htodo hundecided hnow
    · cases h
  | queue invOk dinvOk =>
    simp only [broadcastStep] at h
    split at h
    · next c rest htodo hundecided =>
      cases h
      exact .queue b c rest invOk dinvOk hlock htodo hundecided
    · cases h
  | endBroadcast =>
    simp only [broadcastStep] at h
    split_ifs at h with htodo
    cases h
    exact .endBroadcast b hlock htodo
  | _ => cases h

theorem bigInvStep_effect {s t : Propagation} {v : BigInv} {e : PropagationEvent} (hlock : s.lock = .bigInv v)
    (h : bigInvStep s v e = some t) : PropagationEffect s e t := by
  cases e with
  | checkBigInv =>
    simp only [bigInvStep] at h
    split at h
    · next hash rest hunchecked =>
      cases h
      exact .checkBigInv v hash rest hlock hunchecked
    · cases h
  | queueBigInv now ok =>
    simp only [bigInvStep] at h
    split_ifs at h
    cases h
    exact .queueBigInv v now ok hlock
  | _ => cases h

theorem lockedStep_effect {s t : Propagation} {e : PropagationEvent} (h : lockedStep s e = some t) :
    PropagationEffect s e t := by
  unfold lockedStep at h
  split at h
  · next hlock => exact freeStep_effect hlock h
  · next b hlock => exact broadcastStep_effect hlock h
  · next v hlock => exact bigInvStep_effect hlock h

/-- Every step has one of the effects. -/
theorem propagationStep_effect {s t : Propagation} {e : PropagationEvent} (h : propagationStep s e = some t) :
    PropagationEffect s e t := by
  cases e with
  | tick now =>
    simp only [propagationStep] at h
    split_ifs at h
    cases h
    exact .quiet rfl rfl rfl rfl rfl fun _ hk => .inl hk
  | services c dandelion =>
    cases h
    exact .touch c _ rfl fun p => ⟨rfl, rfl, rfl, rfl, rfl⟩
  | verack c replyAt =>
    cases h
    exact .touch c _ rfl fun p => ⟨rfl, rfl, rfl, rfl, rfl⟩
  | insert row =>
    cases h
    exact .quiet rfl rfl rfl rfl rfl fun _ hk => .inl hk
  | gc now =>
    cases h
    exact .quiet rfl rfl rfl rfl rfl fun _ hk => .inl hk
  | note hash isDinv now delay =>
    simp only [propagationStep] at h
    split_ifs at h with hnow
    cases h
    exact .note hash isDinv now delay hnow
  | make row =>
    cases h
    exact .quiet rfl rfl rfl rfl rfl fun _ hk => .inl hk
  | look i =>
    simp only [propagationStep] at h
    split at h
    · cases h
      exact .quiet rfl rfl rfl rfl rfl fun _ hk => .inl hk
    · cases h
  | store i =>
    simp only [propagationStep] at h
    split at h
    · cases h
      exact .quiet rfl rfl rfl rfl rfl fun _ hk => .inl hk
    · cases h
  | reshuffle now =>
    simp only [propagationStep] at h
    split at h
    · next hconnector =>
      split_ifs at h
      · cases h
        exact .quiet rfl rfl rfl rfl rfl fun k hk => by rw [hconnector] at hk; cases hk
      · cases h
        exact quiet_refl s rfl
    · cases h
  | setStem =>
    simp only [propagationStep] at h
    split at h
    · next stem hconnector =>
      cases h
      exact .setStem stem hconnector
    · cases h
  | expire now =>
    simp only [propagationStep] at h
    split at h
    · next hconnector =>
      split_ifs at h with hnow
      cases h
      exact .expire now hconnector hnow
    · cases h
  | checkRefluff =>
    simp only [propagationStep] at h
    split at h
    · next hash rest hconnector =>
      cases h
      refine .quiet rfl rfl rfl rfl rfl fun k hk => ?_
      rw [hconnector] at hk
      rcases hhas : objectStoreHas s.pool hash with _ | _
      · rcases List.mem_cons.mp hk with rfl | hk
        · exact .inr hhas
        · exact .inl (by simpa [ConnectorState.hashes] using hk)
      · exact .inl (by simpa [ConnectorState.hashes] using hk)
    · cases h
  | endRefluff =>
    simp only [propagationStep] at h
    split at h
    · next hconnector =>
      cases h
      exact .quiet rfl rfl rfl rfl rfl fun k hk => by rw [hconnector] at hk; cases hk
    · cases h
  | sweepBigInv c now ok =>
    simp only [propagationStep] at h
    split at h
    · cases h
    · cases h
    · next p hp _ =>
      split_ifs at h
      cases h
      exact .sweepBigInv c p now ok hp
  | add | remove | announce | broadcast | decide | queue | endBroadcast | pick | refluff | beginBigInv | checkBigInv
  | queueBigInv => exact lockedStep_effect h

end Bitmessage
