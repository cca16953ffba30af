import Bitmessage.Infra.Dandelion
import Bitmessage.Infra.Propagation
import Bitmessage.Infra.Protocol
import Bitmessage.Infra.SendQueue

/-! The handshake of the connections and everything that queues a packet to one of them. The
network thread accepts connections, dispatches the messages of the peers and sweeps; the peer
connector makes outbound connections and sends its version before it adds them to the
registry; a broadcast of any thread walks the registry under its lock, and so does the sweep
that sends the delayed replies to `verack`. The steps of the threads are interleaved freely.

The pool, the decisions of the propagation, the peers that are shared and the results of
`bm_network_send` are outside: the labels tell them. Every packet that enters a send queue is
recorded with the state of the handshake at that time. -/

namespace Bitmessage

/-- `BM_MAX_INVENTORY_ITEMS`. -/
def maxInventoryItems : ℕ := 50000

/-- `BM_MIN_PROTOCOL_VERSION`. -/
def minProtocolVersion : ℕ := 3

/-- `BM_MAX_TIME_OFFSET_SECONDS`. -/
def maxTimeOffsetSeconds : ℤ := 3600

/-- `BM_VERACK_REPLY_DELAY_SECONDS`. -/
def verackReplyDelaySeconds : ℤ := 5

/-- `BM_HANDSHAKE_TIMEOUT_SECONDS`. -/
def handshakeTimeoutSeconds : ℤ := 20

/-- `BM_IDLE_PING_TIMEOUT_SECONDS`. -/
def idlePingTimeoutSeconds : ℤ := 300

inductive NetPacket where
  | version
  | verack
  | ping
  | pong
  | error (text : String)
  | addr (addresses : List AddressInfo)
  | inv (hashes : List Bytes)
  | dinv (hashes : List Bytes)
  | getdata (hashes : List Bytes)
  | object (hash : Bytes)

/-- The packets that answer a `version`. -/
def NetPacket.repliesVersion : NetPacket → Bool
  | .version | .verack | .error _ => true
  | _ => false

/-- `inv`, `dinv` and `addr`. -/
def NetPacket.announces : NetPacket → Bool
  | .inv _ | .dinv _ | .addr _ => true
  | _ => false

/-- The packet is in the queue, even if the flush after it has failed. -/
def SendResult.queues : SendResult → Bool
  | .flushed | .flushFailed => true
  | _ => false

/-- `bm_network_send` has set `pending_eviction`. -/
def SendResult.evicts : SendResult → Bool
  | .flushFailed | .overLimit => true
  | _ => false

/-- `bm_network_send` returned zero. -/
def SendResult.ok : SendResult → Bool
  | .flushed => true
  | _ => false

/-- A packet in the queue, with the state of the handshake when it was queued. -/
structure QueuedPacket where
  packet : NetPacket
  versionReceived : Bool
  handshakeComplete : Bool

/-- The part of `struct bm_fd_data` that the handshake and the packets concern. Whether a `version` was
received, the packets queued and the number of replies to `verack` are the history. -/
structure HandshakeConn where
  type : FdType
  live : Bool
  inRegistry : Bool
  handshakeComplete : Bool
  shouldDisconnect : Bool
  pendingEviction : Bool
  lastActivity : ℤ
  pendingVerackReplyAt : ℤ
  pendingInv : List Bytes
  pendingInvLastChunkTime : ℤ
  uploadPending : List Bytes
  versionReceived : Bool
  log : List QueuedPacket
  replies : ℕ

/-- What becomes of a hash in `bm_object_sync_refill_uploads`: it is not in the pool, there is no memory
for the packet, or the packet is sent. -/
inductive UploadResult where
  | notFound
  | noPacket
  | send (result : SendResult)

/-- A message of the peer. -/
inductive PeerMessage where
  | version (ver : VersionMessage)
  | verack
  | ping
  | pong
  | addr
  /-- `inv` or `dinv`; the payload may be malformed -/
  | inventory (items : Option (List Bytes))
  | getdata (items : Option (List Bytes))
  | object
  | error
  | other

/-- What the handlers find while they handle a message. -/
structure Surroundings where
  now : ℤ
  /-- `bm_object_store_has` -/
  has : Bytes → Bool
  result : SendResult
  /-- the memory for `upload_pending` -/
  memory : Bool
  uploads : List UploadResult

namespace HandshakeConn

/-- `bm_fd_data_new`. -/
def new (type : FdType) (inRegistry : Bool) (now : ℤ) : HandshakeConn where
  type := type
  live := true
  inRegistry := inRegistry
  handshakeComplete := false
  shouldDisconnect := false
  pendingEviction := false
  lastActivity := now
  pendingVerackReplyAt := 0
  pendingInv := []
  pendingInvLastChunkTime := 0
  uploadPending := []
  versionReceived := false
  log := []
  replies := 0

variable (conn : HandshakeConn)

/-- `bm_network_send`. -/
def networkSend (packet : NetPacket) (result : SendResult) : HandshakeConn :=
  { conn with
    log := if result.queues then conn.log ++ [⟨packet, conn.versionReceived, conn.handshakeComplete⟩] else conn.log
    pendingEviction := conn.pendingEviction || result.evicts }

/-- `send_inv_chunk`. -/
def sendInvChunk (now : ℤ) (result : SendResult) : HandshakeConn :=
  { conn.networkSend (.inv (conn.pendingInv.take bigInvChunkSize)) result with
    pendingInvLastChunkTime := now
    pendingInv := if result.ok then conn.pendingInv.drop bigInvChunkSize else [] }

/-- `bm_network_begin_big_inv`. -/
def beginBigInv (hashes : List Bytes) (now : ℤ) (result : SendResult) : HandshakeConn :=
  { conn with pendingInv := hashes }.sendInvChunk now result

/-- `send_big_inv`: the hashes of the pool that are not on a stem. -/
def sendBigInv (hashes : List Bytes) (stemming : Bytes → Bool) (now : ℤ) (result : SendResult) : HandshakeConn :=
  let plain := hashes.filter fun h => !stemming h
  if plain = [] then conn else conn.beginBigInv plain now result

/-- `send_addr_reply`: the peers that may be shared. -/
def sendAddrReply (addresses : List AddressInfo) (result : SendResult) : HandshakeConn :=
  match addresses with
  | [] => conn
  | _ => conn.networkSend (.addr addresses) result

/-- `send_verack_reply`. -/
def sendVerackReply (addresses : List AddressInfo) (hashes : List Bytes) (stemming : Bytes → Bool) (now : ℤ)
    (addrResult invResult : SendResult) : HandshakeConn :=
  { (conn.sendAddrReply addresses addrResult).sendBigInv hashes stemming now invResult with replies := conn.replies + 1 }

/-- `flush_verack_reply_one`. -/
def flushVerackReplyOne (flushNow : ℤ) (addresses : List AddressInfo) (hashes : List Bytes) (stemming : Bytes → Bool)
    (now : ℤ) (addrResult invResult : SendResult) : HandshakeConn :=
  if conn.pendingVerackReplyAt ≠ 0 ∧ conn.pendingVerackReplyAt ≤ flushNow then
    { conn.sendVerackReply addresses hashes stemming now addrResult invResult with pendingVerackReplyAt := 0 }
  else conn

/-- `bm_object_sync_refill_uploads`. The loop ends with the results, when the send queue is full enough. -/
def refillUploads (conn : HandshakeConn) : List UploadResult → HandshakeConn
  | [] => conn
  | r :: rs =>
    match conn.uploadPending with
    | [] => conn
    | hash :: rest =>
      if conn.pendingEviction then conn
      else
        match r with
        | .notFound | .noPacket => refillUploads { conn with uploadPending := rest } rs
        | .send result =>
          if result.ok then refillUploads ({ conn with uploadPending := rest }.networkSend (.object hash) result) rs
          else { conn.networkSend (.object hash) result with uploadPending := [] }

/-- `handle_inv`. -/
def handleInv (items : List Bytes) (env : Surroundings) : HandshakeConn :=
  if maxInventoryItems < items.length then conn
  else
    match items.filter fun h => !env.has h with
    | [] => conn
    | missing => conn.networkSend (.getdata missing) env.result

/-- `handle_getdata`. -/
def handleGetdata (items : List Bytes) (env : Surroundings) : HandshakeConn :=
  if maxInventoryItems < items.length then conn
  else
    let accepted := if env.memory then items.take (maxInventoryItems - conn.uploadPending.length) else []
    { conn with uploadPending := conn.uploadPending ++ accepted }.refillUploads env.uploads

/-- `version` in `bm_object_sync_dispatch`, up to the reply of an own version. -/
def handleVersion (ver : VersionMessage) (env : Surroundings) : HandshakeConn :=
  let conn := { conn with versionReceived := true }
  let timeOffset := toInt64 ver.timestamp - env.now
  if ver.version < minProtocolVersion then
    { conn.networkSend (.error "Your is using an old protocol. Closing connection.") env.result with
      shouldDisconnect := true }
  else if maxTimeOffsetSeconds < timeOffset then
    { conn.networkSend (.error "Your time is too far in the future compared to mine. Closing connection.") env.result
      with shouldDisconnect := true }
  else if timeOffset < -maxTimeOffsetSeconds then
    { conn.networkSend (.error "Your time is too far in the past compared to mine. Closing connection.") env.result
      with shouldDisconnect := true }
  else conn.networkSend .verack env.result

/-- `verack` in `bm_object_sync_dispatch`. -/
def handleVerack : HandshakeConn :=
  { conn with
    handshakeComplete := true
    pendingVerackReplyAt := conn.lastActivity + verackReplyDelaySeconds }

/-- `bm_object_sync_dispatch`, as far as this connection is concerned. -/
def dispatch (env : Surroundings) : PeerMessage → HandshakeConn
  | .version ver => conn.handleVersion ver env
  | .verack => conn.handleVerack
  | .ping => conn.networkSend .pong env.result
  | .inventory (some items) => conn.handleInv items env
  | .getdata (some items) => conn.handleGetdata items env
  | .inventory none | .getdata none | .pong | .addr | .object | .error | .other => conn

/-- The packets of `queue_inv_for_conn`; the `dinv` is not tried after a failed `inv`. -/
def queueInvForConn (hashes : List Bytes) (mode : Bytes → PropagationMode) (invResult dinvResult : SendResult) :
    HandshakeConn :=
  let fluff := hashes.filter fun h => decide (mode h = .fluff)
  let stem := hashes.filter fun h => decide (mode h = .stem)
  let conn' := if fluff = [] then conn else conn.networkSend (.inv fluff) invResult
  if stem ≠ [] ∧ (fluff = [] ∨ invResult.ok = true) then conn'.networkSend (.dinv stem) dinvResult else conn'

/-- `idle_sweep_one` for a connection that is not to be evicted and whose sending has not stalled; `none` when
it is closed. -/
def idleSweepOne (now : ℤ) (queueEmpty : Bool) (chunkResult : SendResult) (uploads : List UploadResult)
    (pingResult : SendResult) : Option HandshakeConn :=
  let chunked :=
    if conn.pendingInv ≠ [] ∧ bigInvChunkIntervalSeconds ≤ now - conn.pendingInvLastChunkTime ∧ queueEmpty = true then
      conn.sendInvChunk now chunkResult
    else conn
  let refilled := chunked.refillUploads uploads
  let idle := now - refilled.lastActivity
  if refilled.handshakeComplete then
    if idlePingTimeoutSeconds < idle then
      let pinged := refilled.networkSend .ping pingResult
      some (if pingResult.ok then { pinged with lastActivity := now } else pinged)
    else some refilled
  else if handshakeTimeoutSeconds < idle then none
  else some refilled

end HandshakeConn

/-- Who walks the registry under its lock, and the connections to come. -/
inductive RegistryWalk where
  /-- `bm_peer_registry_broadcast_inv` -/
  | broadcast (hashes : List Bytes) (todo : List ℕ)
  /-- `bm_object_sync_flush_pending_verack_replies` -/
  | flush (now : ℤ) (todo : List ℕ)

/-- The process: the connections in the order in which they were made, the walk over the registry, the
inbound connection whose `version` the network thread is answering, and the connection that the
peer connector is setting up, with a mark when its version is sent. `userAgent` tells whether
`ctx->user_agent` is set. -/
structure HandshakeSys where
  userAgent : Bool
  conns : List HandshakeConn
  walk : Option RegistryWalk
  answering : Option ℕ
  connecting : Option (ℕ × Bool)

inductive HandshakeLabel where
  /-- `bm_network_handle_accept` -/
  | accept (now : ℤ)
  /-- `bm_peer_connector_connect_initial`: the connection is registered with `epoll`, its version is sent,
  and it is added to the registry -/
  | connect (now : ℤ)
  | connectVersion (result : SendResult)
  | connectAdd
  /-- the network thread reads a message and dispatches it -/
  | receive (conn : ℕ) (msg : PeerMessage) (env : Surroundings)
  | postVersion (result : SendResult)
  /-- `EPOLLOUT` -/
  | writable (conn : ℕ) (uploads : List UploadResult)
  /-- `idle_sweep_one` -/
  | sweep (conn : ℕ) (now : ℤ) (queueEmpty : Bool) (chunkResult : SendResult) (uploads : List UploadResult)
      (pingResult : SendResult)
  /-- `close_connection` -/
  | close (conn : ℕ)
  /-- `bm_peer_registry_evict_if_current` -/
  | evict (conn : ℕ)
  | beginBroadcast (hashes : List Bytes) (except : Option ℕ)
  | announce (mode : Bytes → PropagationMode) (invResult dinvResult : SendResult)
  | beginFlush (now : ℤ)
  | flushOne (addresses : List AddressInfo) (hashes : List Bytes) (stemming : Bytes → Bool) (now : ℤ)
      (addrResult invResult : SendResult)
  | endWalk

namespace HandshakeSys

def init (userAgent : Bool) : HandshakeSys where
  userAgent := userAgent
  conns := []
  walk := none
  answering := none
  connecting := none

variable (s : HandshakeSys)

/-- The connections in the registry. -/
def registry : List ℕ :=
  (List.range s.conns.length).filter fun c => (s.conns[c]?.map fun p => p.live && p.inRegistry).getD false

/-- The connections that a broadcast turns to. -/
def broadcastTargets (except : Option ℕ) : List ℕ :=
  s.registry.filter fun c =>
    decide (except ≠ some c) && (s.conns[c]?.map fun p => decide (p.type ≠ .listenSocket)).getD false

def update (c : ℕ) (f : HandshakeConn → HandshakeConn) : HandshakeSys := { s with conns := s.conns.modify c f }

def setWalk (walk : Option RegistryWalk) : HandshakeSys := { s with walk := walk }

def setAnswering (answering : Option ℕ) : HandshakeSys := { s with answering := answering }

def setConnecting (connecting : Option (ℕ × Bool)) : HandshakeSys := { s with connecting := connecting }

/-- A new connection. -/
def add (conn : HandshakeConn) : HandshakeSys := { s with conns := s.conns ++ [conn] }

/-- The network thread is between two messages or connections. -/
def networkIdle : Bool :=
  s.answering.isNone && match s.walk with
    | some (.flush _ _) => false
    | _ => true

/-- A connection that the network thread knows. -/
def known? (c : ℕ) : Option HandshakeConn := s.conns[c]?.filter fun p => p.live

/-- The inbound connection whose `version` was accepted gets a version in return. -/
def answers (conn : HandshakeConn) (msg : PeerMessage) : Bool :=
  match msg with
  | .version _ => !conn.shouldDisconnect && decide (conn.type = .serverSocket) && s.userAgent
  | _ => false

def close (c : ℕ) : HandshakeSys := s.update c fun p => { p with live := false, inRegistry := false }

/-- One step of one of the threads. -/
def step (s : HandshakeSys) : HandshakeLabel → Option HandshakeSys
  | .accept now =>
    if s.networkIdle ∧ s.walk.isNone then some (s.add (.new .serverSocket true now)) else none
  | .connect now =>
    if s.connecting.isNone then
      some ((s.add (.new .clientSocket false now)).setConnecting (some (s.conns.length, false)))
    else none
  | .connectVersion result =>
    match s.connecting with
    | some (c, false) =>
      if result.ok then some ((s.update c fun p => p.networkSend .version result).setConnecting (some (c, true)))
      else some ((s.update c fun p => { p.networkSend .version result with live := false }).setConnecting none)
    | _ => none
  | .connectAdd =>
    match s.connecting, s.walk with
    | some (c, true), none => some ((s.update c fun p => { p with inRegistry := true }).setConnecting none)
    | _, _ => none
  | .receive c msg env =>
    match s.known? c with
    | some conn =>
      if s.networkIdle ∧ conn.shouldDisconnect = false then
        let conn' := { conn with lastActivity := env.now }.dispatch env msg
        some ((s.update c fun _ => conn').setAnswering (if s.answers conn' msg then some c else none))
      else none
    | none => none
  | .postVersion result =>
    match s.answering with
    | some c => some ((s.update c fun p => p.networkSend .version result).setAnswering none)
    | none => none
  | .writable c uploads =>
    match s.known? c with
    | some _ => if s.networkIdle then some (s.update c fun p => p.refillUploads uploads) else none
    | none => none
  | .sweep c now queueEmpty chunkResult uploads pingResult =>
    match s.known? c with
    | some conn =>
      if s.networkIdle ∧ conn.pendingEviction = false then
        match conn.idleSweepOne now queueEmpty chunkResult uploads pingResult with
        | some conn' => some (s.update c fun _ => conn')
        | none => if s.walk.isNone then some (s.close c) else none
      else none
    | none => none
  | .close c =>
    match s.known? c, s.walk with
    | some _, none => if s.networkIdle then some (s.close c) else none
    | _, _ => none
  | .evict c =>
    match s.known? c, s.walk with
    | some _, none => some (s.update c fun p => { p with pendingEviction := true })
    | _, _ => none
  | .beginBroadcast hashes except =>
    if s.walk.isNone ∧ hashes ≠ [] then some (s.setWalk (some (.broadcast hashes (s.broadcastTargets except)))) else none
  | .announce mode invResult dinvResult =>
    match s.walk with
    | some (.broadcast hashes (c :: todo)) =>
      some ((s.update c fun p => p.queueInvForConn hashes mode invResult dinvResult).setWalk
        (some (.broadcast hashes todo)))
    | _ => none
  | .beginFlush now =>
    if s.walk.isNone ∧ s.networkIdle then some (s.setWalk (some (.flush now s.registry))) else none
  | .flushOne addresses hashes stemming now addrResult invResult =>
    match s.walk with
    | some (.flush flushNow (c :: todo)) =>
      some ((s.update c fun p =>
        p.flushVerackReplyOne flushNow addresses hashes stemming now addrResult invResult).setWalk
          (some (.flush flushNow todo)))
    | _ => none
  | .endWalk =>
    match s.walk with
    | some (.broadcast _ []) | some (.flush _ []) => some (s.setWalk none)
    | _ => none

end HandshakeSys

end Bitmessage
