import Bitmessage.Infra.Handshake
import Bitmessage.Lib.Transition

/-! What the handshake promises about the packets of a connection, and when it does. The
registry holds a connection from the moment it is accepted, so a broadcast reaches it before
its handshake; the dispatcher answers every message whatever came before it; and each `verack`
starts the reply again. The promise holds in the runs without these three. -/

namespace Bitmessage

/-- The first packet to an inbound connection answers the version of the peer, hashes and addresses are
announced after the handshake, and the reply to `verack` is started once. -/
structure HandshakeConn.Disciplined (conn : HandshakeConn) : Prop where
  afterVersion : conn.type = .serverSocket → ∀ q ∈ conn.log, q.versionReceived = true
  first : conn.type = .serverSocket → ∀ q ∈ conn.log.head?, q.packet.repliesVersion = true
  announced : ∀ q ∈ conn.log, q.packet.announces = true → q.handshakeComplete = true
  once : conn.replies ≤ 1

/-- If the connection is inbound, something has been queued to it. -/
def HandshakeConn.Answered (conn : HandshakeConn) : Prop := conn.type = .serverSocket → conn.log ≠ []

instance (conn : HandshakeConn) : Decidable conn.Answered :=
  inferInstanceAs (Decidable (_ → _ ≠ []))

/-- Messages that the dispatcher answers, at once or later: `verack`, `ping`, hashes of objects that are not in the
pool, and requests. -/
def PeerMessage.isAnswered (env : Surroundings) : PeerMessage → Bool
  | .verack | .ping => true
  | .inventory (some items) => decide (items.length ≤ maxInventoryItems) && items.any fun h => !env.has h
  | .getdata (some items) => decide (items.length ≤ maxInventoryItems) && !items.isEmpty
  | _ => false

def PeerMessage.isVerack : PeerMessage → Bool
  | .verack => true
  | _ => false

/-- What keeps the discipline: a message is answered only after the version was, no `verack` follows the
reply, and no broadcast has a hash for a connection before its handshake. -/
def HandshakeSys.Guard (s : HandshakeSys) : HandshakeLabel → Prop
  | .receive c msg env => ∀ conn ∈ s.conns[c]?,
      (msg.isAnswered env = true → conn.Answered) ∧ (msg.isVerack = true → conn.replies = 0)
  | .announce mode _ _ =>
    match s.walk with
    | some (.broadcast hashes (c :: _)) => ∀ conn ∈ s.conns[c]?,
        conn.handshakeComplete = true ∨ ∀ h ∈ hashes, mode h = .skip
    | _ => True
  | _ => True

instance HandshakeSys.decidableGuard (s : HandshakeSys) : ∀ l, Decidable (s.Guard l)
  | .receive c msg env => inferInstanceAs (Decidable (∀ conn ∈ s.conns[c]?, _ ∧ _))
  | .announce mode invResult dinvResult =>
    match h : s.walk with
    | some (.broadcast hashes (c :: _)) =>
      decidable_of_iff (∀ conn ∈ s.conns[c]?, conn.handshakeComplete = true ∨ ∀ h ∈ hashes, mode h = .skip)
        (by simp [Guard, h])
    | some (.broadcast _ []) | some (.flush _ _) | none => isTrue (by simp [Guard, h])
  | .accept _ | .connect _ | .connectVersion _ | .connectAdd | .postVersion _ | .writable _ _ | .sweep _ _ _ _ _ _
  | .close _ | .evict _ | .beginBroadcast _ _ | .beginFlush _ | .flushOne _ _ _ _ _ _ | .endWalk => isTrue trivial

namespace HandshakeConn

/-! ### Packets in the log -/

section

variable (conn : HandshakeConn) (packet : NetPacket) (result : SendResult)

theorem mem_networkSend {q : QueuedPacket} (h : q ∈ (conn.networkSend packet result).log) :
    q ∈ conn.log ∨ q = ⟨packet, conn.versionReceived, conn.handshakeComplete⟩ := by
  simp only [networkSend] at h
  split at h
  · simpa using h
  · exact .inl h

theorem head?_networkSend {q : QueuedPacket} (h : q ∈ (conn.networkSend packet result).log.head?) :
    q ∈ conn.log.head? ∨ (conn.log = [] ∧ q = ⟨packet, conn.versionReceived, conn.handshakeComplete⟩) := by
  simp only [networkSend] at h
  split at h
  · cases hlog : conn.log with
    | nil =>
      rw [hlog] at h
      exact .inr ⟨rfl, (Option.mem_some.mp h).symm⟩
    | cons q' log =>
      rw [hlog] at h
      exact .inl h
  · exact .inl h

end

/-! ### The invariant of a connection -/

/-- What is announced or sent later waits for the handshake, and nothing waits before the version was
answered. -/
structure Good (conn : HandshakeConn) : Prop extends conn.Disciplined where
  version : conn.type = .serverSocket → conn.log ≠ [] → conn.versionReceived = true
  complete : conn.handshakeComplete = true → conn.Answered
  inv : conn.pendingInv ≠ [] → conn.handshakeComplete = true
  due : conn.pendingVerackReplyAt ≠ 0 → conn.handshakeComplete = true ∧ conn.replies = 0
  uploads : conn.uploadPending ≠ [] → conn.Answered

theorem good_new (type : FdType) (inRegistry : Bool) (now : ℤ) : Good (new type inRegistry now) := by
  constructor
  · constructor <;> simp [new]
  all_goals simp [new]

section

variable {conn : HandshakeConn}

theorem Answered.networkSend (h : conn.Answered) (packet : NetPacket) (result : SendResult) :
    (conn.networkSend packet result).Answered := by
  intro htype
  simp only [HandshakeConn.networkSend]
  split
  · simp
  · exact h htype

/-- A packet is queued after the version, and an announcement after the handshake. -/
theorem Good.networkSend (h : conn.Good) (packet : NetPacket) (result : SendResult)
    (hversion : conn.type = .serverSocket → conn.versionReceived = true)
    (hfirst : conn.type = .serverSocket → conn.log = [] → packet.repliesVersion = true)
    (hannounces : packet.announces = true → conn.handshakeComplete = true) :
    (conn.networkSend packet result).Good where
  afterVersion htype q hq := by
    rcases mem_networkSend conn packet result hq with hq | rfl
    · exact h.afterVersion htype q hq
    · exact hversion htype
  first htype q hq := by
    rcases head?_networkSend conn packet result hq with hq | ⟨hlog, rfl⟩
    · exact h.first htype q hq
    · exact hfirst htype hlog
  announced q hq hq' := by
    rcases mem_networkSend conn packet result hq with hq | rfl
    · exact h.announced q hq hq'
    · exact hannounces hq'
  once := h.once
  version htype _ := hversion htype
  complete hcomplete := (h.complete hcomplete).networkSend packet result
  inv := h.inv
  due := h.due
  uploads hup := (h.uploads hup).networkSend packet result

/-- After the first answer every packet may follow that is no announcement. -/
theorem Good.send_answered (h : conn.Good) (hans : conn.Answered) {packet : NetPacket} (result : SendResult)
    (hannounces : packet.announces = true → conn.handshakeComplete = true) :
    (conn.networkSend packet result).Good :=
  h.networkSend packet result (fun htype => h.version htype (hans htype))
    (fun htype hlog => absurd hlog (hans htype)) hannounces

/-- After the handshake every packet may follow. -/
theorem Good.send_complete (h : conn.Good) (hcomplete : conn.handshakeComplete = true) (packet : NetPacket)
    (result : SendResult) : (conn.networkSend packet result).Good :=
  h.send_answered (h.complete hcomplete) result fun _ => hcomplete

/-- Nothing that matters to the promise is changed, and nothing more is waiting. -/
theorem Good.congr {conn' : HandshakeConn} (h : conn.Good) (htype : conn'.type = conn.type)
    (hlog : conn'.log = conn.log) (hversion : conn'.versionReceived = conn.versionReceived)
    (hcomplete : conn'.handshakeComplete = conn.handshakeComplete) (hreplies : conn'.replies = conn.replies)
    (hinv : conn'.pendingInv ≠ [] → conn.pendingInv ≠ [])
    (hdue : conn'.pendingVerackReplyAt ≠ 0 → conn.pendingVerackReplyAt ≠ 0)
    (hup : conn'.uploadPending ≠ [] → conn.uploadPending ≠ []) : conn'.Good where
  afterVersion := by
    rw [htype, hlog]
    exact h.afterVersion
  first := by
    rw [htype, hlog]
    exact h.first
  announced := by
    rw [hlog]
    exact h.announced
  once := by
    rw [hreplies]
    exact h.once
  version := by
    rw [htype, hlog, hversion]
    exact h.version
  complete hc := by
    rw [hcomplete] at hc
    rw [Answered, htype, hlog]
    exact h.complete hc
  inv hne := by
    rw [hcomplete]
    exact h.inv (hinv hne)
  due hne := by
    rw [hcomplete, hreplies]
    exact h.due (hdue hne)
  uploads hne := by
    rw [Answered, htype, hlog]
    exact h.uploads (hup hne)

/-- The rest of a big inventory may wait after the handshake. -/
theorem Good.setPendingInv (h : conn.Good) (hcomplete : conn.handshakeComplete = true) (hashes : List Bytes) (time : ℤ) :
    Good { conn with pendingInv := hashes, pendingInvLastChunkTime := time } where
  toDisciplined := ⟨h.afterVersion, h.first, h.announced, h.once⟩
  version := h.version
  complete := h.complete
  inv _ := hcomplete
  due := h.due
  uploads := h.uploads

theorem Good.sendInvChunk (h : conn.Good) (hcomplete : conn.handshakeComplete = true) (now : ℤ) (result : SendResult) :
    (conn.sendInvChunk now result).Good :=
  (h.send_complete hcomplete _ result).setPendingInv hcomplete _ now

/-- What a reply, a chunk or an upload keeps. -/
structure Kept (conn conn' : HandshakeConn) : Prop where
  type : conn'.type = conn.type
  versionReceived : conn'.versionReceived = conn.versionReceived
  handshakeComplete : conn'.handshakeComplete = conn.handshakeComplete
  replies : conn'.replies = conn.replies
  pendingVerackReplyAt : conn'.pendingVerackReplyAt = conn.pendingVerackReplyAt

theorem kept_sendBigInv (conn : HandshakeConn) (hashes : List Bytes) (stemming : Bytes → Bool) (now : ℤ)
    (result : SendResult) : Kept conn (conn.sendBigInv hashes stemming now result) := by
  unfold sendBigInv
  dsimp only
  split <;> exact ⟨rfl, rfl, rfl, rfl, rfl⟩

theorem kept_sendAddrReply (conn : HandshakeConn) (addresses : List AddressInfo) (result : SendResult) :
    Kept conn (conn.sendAddrReply addresses result) := by
  unfold sendAddrReply
  split <;> exact ⟨rfl, rfl, rfl, rfl, rfl⟩

theorem Good.sendBigInv (h : conn.Good) (hcomplete : conn.handshakeComplete = true) (hashes : List Bytes)
    (stemming : Bytes → Bool) (now : ℤ) (result : SendResult) : (conn.sendBigInv hashes stemming now result).Good := by
  unfold HandshakeConn.sendBigInv
  dsimp only
  split
  · exact h
  · have hpending := h.setPendingInv hcomplete (hashes.filter fun x => !stemming x) conn.pendingInvLastChunkTime
    exact hpending.sendInvChunk hcomplete now result

theorem Good.sendAddrReply (h : conn.Good) (hcomplete : conn.handshakeComplete = true) (addresses : List AddressInfo)
    (result : SendResult) : (conn.sendAddrReply addresses result).Good := by
  unfold HandshakeConn.sendAddrReply
  split
  · exact h
  · exact h.send_complete hcomplete _ result

/-- The reply is counted, and no longer due. -/
theorem Good.replied (h : conn.Good) {n : ℕ} (hn : n ≤ 1) :
    Good { conn with replies := n, pendingVerackReplyAt := 0 } where
  toDisciplined := ⟨h.afterVersion, h.first, h.announced, hn⟩
  version := h.version
  complete := h.complete
  inv := h.inv
  due hne := absurd rfl hne
  uploads := h.uploads

theorem Good.flushVerackReplyOne (h : conn.Good) (flushNow : ℤ) (addresses : List AddressInfo) (hashes : List Bytes)
    (stemming : Bytes → Bool) (now : ℤ) (addrResult invResult : SendResult) :
    (conn.flushVerackReplyOne flushNow addresses hashes stemming now addrResult invResult).Good := by
  unfold HandshakeConn.flushVerackReplyOne
  split
  · next hdue =>
    obtain ⟨hcomplete, hreplies⟩ := h.due hdue.1
    have haddr := h.sendAddrReply hcomplete addresses addrResult
    have hkept := kept_sendAddrReply conn addresses addrResult
    have hbig := haddr.sendBigInv (hkept.handshakeComplete.trans hcomplete) hashes stemming now invResult
    have hone : conn.replies + 1 ≤ 1 := by omega
    exact hbig.replied hone
  · exact h

theorem Good.refillUploads (h : conn.Good) (uploads : List UploadResult) : (conn.refillUploads uploads).Good := by
  induction uploads generalizing conn with
  | nil => exact h
  | cons r rs ih =>
    unfold HandshakeConn.refillUploads
    split
    · exact h
    · next hash rest hpending =>
      have hans : conn.Answered := h.uploads (by simp [hpending])
      have hrest : Good { conn with uploadPending := rest } :=
        h.congr rfl rfl rfl rfl rfl id id fun _ => by simp [hpending]
      split
      · exact h
      · split
        · exact ih hrest
        · exact ih hrest
        · next result =>
          split
          · exact ih (hrest.send_answered hans result (by rintro ⟨⟩))
          · have hsent : (conn.networkSend (.object hash) result).Good :=
              h.send_answered hans result (by rintro ⟨⟩)
            exact hsent.congr rfl rfl rfl rfl rfl id id fun hne => absurd rfl hne

theorem Good.handleInv (h : conn.Good) {items : List Bytes} {env : Surroundings}
    (hans : PeerMessage.isAnswered env (.inventory (some items)) = true → conn.Answered) :
    (conn.handleInv items env).Good := by
  unfold HandshakeConn.handleInv
  split
  · exact h
  · next hlen =>
    split
    · exact h
    · next missing hmissing =>
      refine h.send_answered (hans ?_) env.result (by rintro ⟨⟩)
      obtain ⟨x, hx⟩ := List.exists_mem_of_ne_nil _ hmissing
      obtain ⟨hmem, hhas⟩ := List.mem_filter.mp hx
      simp only [PeerMessage.isAnswered, Bool.and_eq_true, decide_eq_true_eq, List.any_eq_true]
      exact ⟨by omega, x, hmem, hhas⟩

theorem Good.handleGetdata (h : conn.Good) {items : List Bytes} {env : Surroundings}
    (hans : PeerMessage.isAnswered env (.getdata (some items)) = true → conn.Answered) :
    (conn.handleGetdata items env).Good := by
  unfold HandshakeConn.handleGetdata
  split
  · exact h
  · next hlen =>
    refine Good.refillUploads ?_ env.uploads
    by_cases hitems : items = []
    · exact h.congr rfl rfl rfl rfl rfl id id (by simp [hitems])
    · have hanswered : conn.Answered := by
        refine hans ?_
        simp only [PeerMessage.isAnswered, Bool.and_eq_true, decide_eq_true_eq]
        exact ⟨by omega, by simpa using hitems⟩
      exact ⟨⟨h.afterVersion, h.first, h.announced, h.once⟩, h.version, h.complete, h.inv, h.due, fun _ => hanswered⟩

/-- A `version` may always be answered. -/
theorem Good.handleVersion (h : conn.Good) (ver : VersionMessage) (env : Surroundings) :
    (conn.handleVersion ver env).Good := by
  have hreceived : Good { conn with versionReceived := true } :=
    ⟨⟨h.afterVersion, h.first, h.announced, h.once⟩, fun _ _ => rfl, h.complete, h.inv, h.due, h.uploads⟩
  have hreply : ∀ packet : NetPacket, packet.repliesVersion = true → packet.announces = false →
      Good ({ conn with versionReceived := true }.networkSend packet env.result) := by
    intro packet hreplies hannounces
    refine hreceived.networkSend packet env.result (fun _ => rfl) (fun _ _ => hreplies) ?_
    rw [hannounces]
    rintro ⟨⟩
  unfold HandshakeConn.handleVersion
  dsimp only
  split
  · exact (hreply _ rfl rfl).congr rfl rfl rfl rfl rfl id id id
  · split
    · exact (hreply _ rfl rfl).congr rfl rfl rfl rfl rfl id id id
    · split
      · exact (hreply _ rfl rfl).congr rfl rfl rfl rfl rfl id id id
      · exact hreply _ rfl rfl

/-- The first `verack` completes the handshake, and the reply becomes due. -/
theorem Good.handleVerack (h : conn.Good) (hans : conn.Answered) (hreplies : conn.replies = 0) :
    conn.handleVerack.Good where
  toDisciplined := ⟨h.afterVersion, h.first, fun q hq hq' => h.announced q hq hq', h.once⟩
  version := h.version
  complete _ := hans
  inv _ := rfl
  due _ := ⟨rfl, hreplies⟩
  uploads := h.uploads

theorem Good.dispatch (h : conn.Good) {msg : PeerMessage} {env : Surroundings}
    (hans : msg.isAnswered env = true → conn.Answered) (hverack : msg.isVerack = true → conn.replies = 0) :
    (conn.dispatch env msg).Good := by
  cases msg with
  | version ver => exact h.handleVersion ver env
  | verack => exact h.handleVerack (hans rfl) (hverack rfl)
  | ping => exact h.send_answered (hans rfl) env.result (by rintro ⟨⟩)
  | inventory items =>
    cases items with
    | none => exact h
    | some items => exact h.handleInv hans
  | getdata items =>
    cases items with
    | none => exact h
    | some items => exact h.handleGetdata hans
  | _ => exact h

/-- A broadcast may announce after the handshake, and a broadcast that skips the connection any time. -/
theorem Good.queueInvForConn (h : conn.Good) {hashes : List Bytes} {mode : Bytes → PropagationMode}
    (hmode : conn.handshakeComplete = true ∨ ∀ x ∈ hashes, mode x = .skip) (invResult dinvResult : SendResult) :
    (conn.queueInvForConn hashes mode invResult dinvResult).Good := by
  rcases hmode with hcomplete | hskip
  · unfold HandshakeConn.queueInvForConn
    dsimp only
    have hinv : Good (if hashes.filter (fun x => decide (mode x = .fluff)) = [] then conn
        else conn.networkSend (.inv (hashes.filter fun x => decide (mode x = .fluff))) invResult) := by
      split
      · exact h
      · exact h.send_complete hcomplete _ invResult
    split
    · refine hinv.send_complete ?_ _ dinvResult
      split
      · exact hcomplete
      · exact hcomplete
    · exact hinv
  · have hfluff : hashes.filter (fun x => decide (mode x = .fluff)) = [] := by
      simp only [List.filter_eq_nil_iff, decide_eq_true_eq]
      intro x hx
      simp [hskip x hx]
    have hstem : hashes.filter (fun x => decide (mode x = .stem)) = [] := by
      simp only [List.filter_eq_nil_iff, decide_eq_true_eq]
      intro x hx
      simp [hskip x hx]
    simpa [HandshakeConn.queueInvForConn, hfluff, hstem] using h

theorem kept_refillUploads (conn : HandshakeConn) (uploads : List UploadResult) :
    Kept conn (conn.refillUploads uploads) := by
  induction uploads generalizing conn with
  | nil => exact ⟨rfl, rfl, rfl, rfl, rfl⟩
  | cons r rs ih =>
    unfold refillUploads
    split
    · exact ⟨rfl, rfl, rfl, rfl, rfl⟩
    · next hash rest hpending =>
      have hrest := ih { conn with uploadPending := rest }
      split
      · exact ⟨rfl, rfl, rfl, rfl, rfl⟩
      · split
        · exact ⟨hrest.type, hrest.versionReceived, hrest.handshakeComplete, hrest.replies, hrest.pendingVerackReplyAt⟩
        · exact ⟨hrest.type, hrest.versionReceived, hrest.handshakeComplete, hrest.replies, hrest.pendingVerackReplyAt⟩
        · next result =>
          have hsent := ih ({ conn with uploadPending := rest }.networkSend (.object hash) result)
          split
          · exact ⟨hsent.type, hsent.versionReceived, hsent.handshakeComplete, hsent.replies,
              hsent.pendingVerackReplyAt⟩
          · exact ⟨rfl, rfl, rfl, rfl, rfl⟩

/-- What every change of a connection keeps. -/
structure Later (conn conn' : HandshakeConn) : Prop where
  type : conn'.type = conn.type
  versionReceived : conn.versionReceived = true → conn'.versionReceived = true

theorem Kept.later {conn' : HandshakeConn} (h : Kept conn conn') : Later conn conn' :=
  ⟨h.type, fun hversion => h.versionReceived.trans hversion⟩

theorem later_queueInvForConn (conn : HandshakeConn) (hashes : List Bytes) (mode : Bytes → PropagationMode)
    (invResult dinvResult : SendResult) : Later conn (conn.queueInvForConn hashes mode invResult dinvResult) := by
  unfold queueInvForConn
  dsimp only
  split <;> split <;> exact ⟨rfl, id⟩

theorem later_flushVerackReplyOne (conn : HandshakeConn) (flushNow : ℤ) (addresses : List AddressInfo)
    (hashes : List Bytes) (stemming : Bytes → Bool) (now : ℤ) (addrResult invResult : SendResult) :
    Later conn (conn.flushVerackReplyOne flushNow addresses hashes stemming now addrResult invResult) := by
  have haddr := kept_sendAddrReply conn addresses addrResult
  have hbig := kept_sendBigInv (conn.sendAddrReply addresses addrResult) hashes stemming now invResult
  unfold flushVerackReplyOne
  split
  · exact ⟨hbig.type.trans haddr.type, fun h => hbig.versionReceived.trans (haddr.versionReceived.trans h)⟩
  · exact ⟨rfl, id⟩

theorem handleVersion_type (conn : HandshakeConn) (ver : VersionMessage) (env : Surroundings) :
    (conn.handleVersion ver env).type = conn.type ∧ (conn.handleVersion ver env).versionReceived = true := by
  unfold handleVersion
  dsimp only
  split
  · exact ⟨rfl, rfl⟩
  · split
    · exact ⟨rfl, rfl⟩
    · split <;> exact ⟨rfl, rfl⟩

theorem later_handleGetdata (conn : HandshakeConn) (items : List Bytes) (env : Surroundings) :
    Later conn (conn.handleGetdata items env) := by
  unfold handleGetdata
  split
  · exact ⟨rfl, id⟩
  · have hkept := kept_refillUploads { conn with uploadPending := conn.uploadPending ++
      (if env.memory then items.take (maxInventoryItems - conn.uploadPending.length) else []) } env.uploads
    exact ⟨hkept.type, fun h => hkept.versionReceived.trans h⟩

theorem later_dispatch (conn : HandshakeConn) (env : Surroundings) (msg : PeerMessage) :
    Later conn (conn.dispatch env msg) := by
  cases msg with
  | version ver =>
    have hversion := handleVersion_type conn ver env
    exact ⟨hversion.1, fun _ => hversion.2⟩
  | inventory items =>
    cases items with
    | none => exact ⟨rfl, id⟩
    | some items =>
      simp only [dispatch, handleInv]
      split
      · exact ⟨rfl, id⟩
      · split <;> exact ⟨rfl, id⟩
  | getdata items =>
    cases items with
    | none => exact ⟨rfl, id⟩
    | some items => exact later_handleGetdata conn items env
  | _ => exact ⟨rfl, id⟩

/-- The sweep sends a chunk and a `ping` after the handshake only. -/
theorem Good.idleSweepOne (h : conn.Good) {now : ℤ} {queueEmpty : Bool} {chunkResult : SendResult}
    {uploads : List UploadResult} {pingResult : SendResult} {conn' : HandshakeConn}
    (hsweep : conn.idleSweepOne now queueEmpty chunkResult uploads pingResult = some conn') :
    conn'.Good ∧ Later conn conn' := by
  unfold HandshakeConn.idleSweepOne at hsweep
  dsimp only at hsweep
  generalize hchunked : (if conn.pendingInv ≠ [] ∧ bigInvChunkIntervalSeconds ≤ now - conn.pendingInvLastChunkTime ∧
    queueEmpty = true then conn.sendInvChunk now chunkResult else conn) = chunked at hsweep
  have hgood : chunked.Good ∧ Kept conn chunked := by
    rw [← hchunked]
    split
    · next hpending => exact ⟨h.sendInvChunk (h.inv hpending.1) now chunkResult, ⟨rfl, rfl, rfl, rfl, rfl⟩⟩
    · exact ⟨h, ⟨rfl, rfl, rfl, rfl, rfl⟩⟩
  have hrefilled := hgood.1.refillUploads uploads
  have hkept := kept_refillUploads chunked uploads
  have hlater : Later conn (chunked.refillUploads uploads) :=
    ⟨hkept.type.trans hgood.2.type, fun hv => hkept.versionReceived.trans (hgood.2.versionReceived.trans hv)⟩
  split at hsweep
  · next hcomplete =>
    split at hsweep
    · have hpinged := hrefilled.send_complete hcomplete .ping pingResult
      cases hsweep
      split
      · exact ⟨hpinged.congr rfl rfl rfl rfl rfl id id id, ⟨hlater.type, hlater.versionReceived⟩⟩
      · exact ⟨hpinged, ⟨hlater.type, hlater.versionReceived⟩⟩
    · cases hsweep
      exact ⟨hrefilled, hlater⟩
  · split at hsweep
    · cases hsweep
    · cases hsweep
      exact ⟨hrefilled, hlater⟩

end

end HandshakeConn

/-! ### Runs -/

namespace HandshakeSys

/-- Every connection is good, the one that is being answered has sent its version, and the one that is being set
up is outbound. -/
structure Inv (s : HandshakeSys) : Prop where
  good : ∀ (c : ℕ) conn, s.conns[c]? = some conn → conn.Good
  answering : ∀ c, s.answering = some c → ∃ conn, s.conns[c]? = some conn ∧ conn.versionReceived = true
  connecting : ∀ c sent, s.connecting = some (c, sent) → ∃ conn, s.conns[c]? = some conn ∧ conn.type = .clientSocket

theorem inv_init (userAgent : Bool) : Inv (init userAgent) := by
  constructor <;> simp [init]

section

variable {s : HandshakeSys} {c : ℕ} {conn conn' : HandshakeConn}

theorem getElem?_add (h : s.conns[c]? = some conn) : (s.add conn').conns[c]? = some conn := by
  rw [add, List.getElem?_append_left (List.getElem?_eq_some_iff.mp h).1, h]

theorem Inv.add (h : Inv s) (hconn : conn.Good) : Inv (s.add conn) := by
  constructor
  · intro j p hp
    rcases lt_trichotomy j s.conns.length with hlt | rfl | hgt
    · exact h.good j p (by rwa [HandshakeSys.add, List.getElem?_append_left hlt] at hp)
    · simp only [HandshakeSys.add, List.getElem?_concat_length, Option.some.injEq] at hp
      rwa [← hp]
    · rw [HandshakeSys.add, List.getElem?_eq_none (by simp; omega)] at hp
      cases hp
  · intro j hj
    obtain ⟨p, hp, hversion⟩ := h.answering j hj
    exact ⟨p, getElem?_add hp, hversion⟩
  · intro j sent hj
    obtain ⟨p, hp, htype⟩ := h.connecting j sent hj
    exact ⟨p, getElem?_add hp, htype⟩

/-- What was said of a connection can be said after a change of one. -/
theorem exists_update {P : HandshakeConn → Prop} {f : HandshakeConn → HandshakeConn} {j : ℕ}
    (h : ∃ conn, s.conns[j]? = some conn ∧ P conn) (hf : ∀ conn, s.conns[c]? = some conn → P conn → P (f conn)) :
    ∃ conn, (s.update c f).conns[j]? = some conn ∧ P conn := by
  obtain ⟨p, hp, hP⟩ := h
  by_cases hcj : c = j
  · subst hcj
    exact ⟨f p, by simp [update, hp], hf p hp hP⟩
  · exact ⟨p, by simp [update, hcj, hp], hP⟩

/-- One connection changes. -/
theorem Inv.update (h : Inv s) {f : HandshakeConn → HandshakeConn}
    (hf : ∀ conn, s.conns[c]? = some conn → (f conn).Good ∧ conn.Later (f conn)) : Inv (s.update c f) where
  good j p hp := by
    rw [HandshakeSys.update, List.getElem?_modify] at hp
    obtain ⟨q, hq, rfl⟩ := Option.map_eq_some_iff.mp hp
    split
    · next hcj => exact (hf q (hcj ▸ hq)).1
    · exact h.good j q hq
  answering j hj := exists_update (h.answering j hj) fun p hp hversion => (hf p hp).2.versionReceived hversion
  connecting j sent hj := exists_update (h.connecting j sent hj) fun p hp htype => (hf p hp).2.type.trans htype

theorem Inv.close (h : Inv s) (c : ℕ) : Inv (s.close c) :=
  h.update fun conn hconn => ⟨(h.good c conn hconn).congr rfl rfl rfl rfl rfl id id id, ⟨rfl, id⟩⟩

theorem getElem?_of_known? (h : s.known? c = some conn) : s.conns[c]? = some conn :=
  (Option.filter_eq_some_iff.mp h).1

theorem versionReceived_of_answers {msg : PeerMessage} {env : Surroundings}
    (h : s.answers (conn.dispatch env msg) msg = true) : (conn.dispatch env msg).versionReceived = true := by
  cases msg with
  | version ver => exact (conn.handleVersion_type ver env).2
  | _ => cases h

/-- A message is dispatched, and the connection may be the one to be answered. -/
theorem Inv.receive (h : Inv s) {msg : PeerMessage} {env : Surroundings} (hconn : s.conns[c]? = some conn')
    (hgood : (conn.dispatch env msg).Good) (hlater : conn'.Later (conn.dispatch env msg)) :
    Inv ((s.update c fun _ => conn.dispatch env msg).setAnswering
      (if s.answers (conn.dispatch env msg) msg then some c else none)) := by
  have hupdate := h.update (c := c) (f := fun _ => conn.dispatch env msg) fun p hp => by
    cases hconn.symm.trans hp
    exact ⟨hgood, hlater⟩
  refine ⟨hupdate.good, fun j hj => ?_, hupdate.connecting⟩
  simp only [setAnswering] at hj
  split at hj
  · next hanswers =>
    cases hj
    exact ⟨_, by simp [HandshakeSys.update, setAnswering, hconn], versionReceived_of_answers hanswers⟩
  · cases hj

/-- The connector sends its version to an outbound connection. -/
theorem Inv.connectVersion (h : Inv s) {sent : Bool} (hconnecting : s.connecting = some (c, sent)) (result : SendResult)
    (hconn : s.conns[c]? = some conn) : (conn.networkSend .version result).Good := by
  obtain ⟨p, hp, htype⟩ := h.connecting c sent hconnecting
  cases hp.symm.trans hconn
  refine (h.good c conn hconn).networkSend .version result (fun hserver => ?_) (fun hserver => ?_) (by rintro ⟨⟩)
  · rw [htype] at hserver
    cases hserver
  · rw [htype] at hserver
    cases hserver

/-- A step that meets the condition keeps the invariant. -/
theorem inv_step (s : HandshakeSys) (l : HandshakeLabel) (t : HandshakeSys) (h : Inv s) (hguard : s.Guard l)
    (hstep : s.step l = some t) : Inv t := by
  cases l with
  | accept now =>
    simp only [step] at hstep
    split at hstep
    · cases hstep
      exact h.add (HandshakeConn.good_new _ _ _)
    · cases hstep
  | connect now =>
    simp only [step] at hstep
    split at hstep
    · cases hstep
      have hadd := h.add (HandshakeConn.good_new .clientSocket false now)
      refine ⟨hadd.good, hadd.answering, ?_⟩
      rintro _ _ ⟨⟩
      exact ⟨_, List.getElem?_concat_length, rfl⟩
    · cases hstep
  | connectVersion result =>
    simp only [step] at hstep
    split at hstep
    · next c hconnecting =>
      split at hstep
      · cases hstep
        have hupdate := h.update (c := c) (f := fun p => p.networkSend .version result) fun conn hconn =>
          ⟨h.connectVersion hconnecting result hconn, ⟨rfl, id⟩⟩
        refine ⟨hupdate.good, hupdate.answering, ?_⟩
        rintro _ _ ⟨⟩
        exact hupdate.connecting c false hconnecting
      · cases hstep
        have hupdate := h.update (c := c) (f := fun p => { p.networkSend .version result with live := false })
          fun conn hconn =>
            ⟨(h.connectVersion hconnecting result hconn).congr rfl rfl rfl rfl rfl id id id, ⟨rfl, id⟩⟩
        exact ⟨hupdate.good, hupdate.answering, by rintro _ _ ⟨⟩⟩
    · cases hstep
  | connectAdd =>
    simp only [step] at hstep
    split at hstep
    · next c _ _ =>
      cases hstep
      have hupdate := h.update (c := c) (f := fun p => { p with inRegistry := true }) fun conn hconn =>
        ⟨(h.good _ conn hconn).congr rfl rfl rfl rfl rfl id id id, ⟨rfl, id⟩⟩
      exact ⟨hupdate.good, hupdate.answering, by rintro _ _ ⟨⟩⟩
    · cases hstep
  | receive c msg env =>
    simp only [step] at hstep
    split at hstep
    · next conn hknown =>
      have hconn := getElem?_of_known? hknown
      obtain ⟨hans, hverack⟩ := hguard conn hconn
      split at hstep
      · cases hstep
        have hactive : HandshakeConn.Good { conn with lastActivity := env.now } :=
          (h.good c conn hconn).congr rfl rfl rfl rfl rfl id id id
        have hlater := HandshakeConn.later_dispatch { conn with lastActivity := env.now } env msg
        exact h.receive hconn (hactive.dispatch hans hverack) ⟨hlater.type, hlater.versionReceived⟩
      · cases hstep
    · cases hstep
  | postVersion result =>
    simp only [step] at hstep
    split at hstep
    · next c hans =>
      cases hstep
      obtain ⟨conn, hconn, hversion⟩ := h.answering c hans
      have hupdate := h.update (c := c) (f := fun p => p.networkSend .version result) fun conn' hconn' => by
        cases hconn.symm.trans hconn'
        exact ⟨(h.good c conn hconn).networkSend .version result (fun _ => hversion) (fun _ _ => rfl) (by rintro ⟨⟩),
          ⟨rfl, id⟩⟩
      exact ⟨hupdate.good, by rintro _ ⟨⟩, hupdate.connecting⟩
    · cases hstep
  | writable c uploads =>
    simp only [step] at hstep
    split at hstep
    · split at hstep
      · cases hstep
        exact h.update fun conn hconn =>
          ⟨(h.good c conn hconn).refillUploads uploads, (HandshakeConn.kept_refillUploads conn uploads).later⟩
      · cases hstep
    · cases hstep
  | sweep c now queueEmpty chunkResult uploads pingResult =>
    simp only [step] at hstep
    split at hstep
    · next conn hknown =>
      have hconn := getElem?_of_known? hknown
      split at hstep
      · split at hstep
        · next conn' hsweep =>
          cases hstep
          refine h.update fun conn'' hconn'' => ?_
          cases hconn.symm.trans hconn''
          exact (h.good c conn hconn).idleSweepOne hsweep
        · split at hstep
          · cases hstep
            exact h.close c
          · cases hstep
      · cases hstep
    · cases hstep
  | close c =>
    simp only [step] at hstep
    split at hstep
    · split at hstep
      · cases hstep
        exact h.close c
      · cases hstep
    · cases hstep
  | evict c =>
    simp only [step] at hstep
    split at hstep
    · cases hstep
      exact h.update fun conn hconn => ⟨(h.good c conn hconn).congr rfl rfl rfl rfl rfl id id id, ⟨rfl, id⟩⟩
    · cases hstep
  | beginBroadcast hashes except =>
    simp only [step] at hstep
    split at hstep
    · cases hstep
      exact ⟨h.good, h.answering, h.connecting⟩
    · cases hstep
  | announce mode invResult dinvResult =>
    simp only [step] at hstep
    split at hstep
    · next hashes c todo hwalk =>
      cases hstep
      simp only [Guard, hwalk] at hguard
      have hupdate := h.update (c := c) (f := fun p => p.queueInvForConn hashes mode invResult dinvResult)
        fun conn hconn => ⟨(h.good c conn hconn).queueInvForConn (hguard conn hconn) invResult dinvResult,
          conn.later_queueInvForConn hashes mode invResult dinvResult⟩
      exact ⟨hupdate.good, hupdate.answering, hupdate.connecting⟩
    · cases hstep
  | beginFlush now =>
    simp only [step] at hstep
    split at hstep
    · cases hstep
      exact ⟨h.good, h.answering, h.connecting⟩
    · cases hstep
  | flushOne addresses hashes stemming now addrResult invResult =>
    simp only [step] at hstep
    split at hstep
    · next flushNow c todo hwalk =>
      cases hstep
      have hupdate := h.update (c := c)
        (f := fun p => p.flushVerackReplyOne flushNow addresses hashes stemming now addrResult invResult)
        fun conn hconn =>
          ⟨(h.good c conn hconn).flushVerackReplyOne flushNow addresses hashes stemming now addrResult invResult,
            conn.later_flushVerackReplyOne flushNow addresses hashes stemming now addrResult invResult⟩
      exact ⟨hupdate.good, hupdate.answering, hupdate.connecting⟩
    · cases hstep
  | endWalk =>
    simp only [step] at hstep
    split at hstep
    · cases hstep
      exact ⟨h.good, h.answering, h.connecting⟩
    · cases hstep
      exact ⟨h.good, h.answering, h.connecting⟩
    · cases hstep

end

/-- In a run whose steps all meet the condition every connection keeps the discipline of the handshake, in every
state that is passed. -/
theorem handshake_disciplined {userAgent : Bool} {ls : List HandshakeLabel}
    (h : Transition.Along step Guard (init userAgent) ls) :
    Transition.Always step (fun s => ∀ conn ∈ s.conns, conn.Disciplined) (init userAgent) ls := by
  refine (Transition.always_of_along inv_step (inv_init userAgent) h).imp fun s hs conn hconn => ?_
  obtain ⟨c, hc⟩ := List.getElem?_of_mem hconn
  exact (hs.good c conn hc).toDisciplined

/-- A version of the protocol in use, sent at the time 100. -/
def someVersion : VersionMessage := ⟨3, 1, 100, [], [], 0, [], [1]⟩

/-- Nothing unusual happens while a message is handled. -/
def calm (now : ℤ) : Surroundings := ⟨now, fun _ => false, .flushed, true, []⟩

def someHash : Bytes := List.replicate 32 7

/-- An inbound peer that does as it should; afterwards an object is broadcast. -/
def politePeer : List HandshakeLabel :=
  [.accept 100, .receive 0 (.version someVersion) (calm 100), .postVersion .flushed, .receive 0 .verack (calm 101),
    .beginFlush 106, .flushOne [] [someHash] (fun _ => false) 106 .flushed .flushed, .endWalk,
    .beginBroadcast [someHash] none, .announce (fun _ => .fluff) .flushed .flushed, .endWalk]

theorem politePeer_disciplined :
    (∃ s, Transition.run step (init true) politePeer = some s ∧ s.conns.map HandshakeConn.replies = [1]) ∧
      Transition.Always step (fun s => ∀ conn ∈ s.conns, conn.Disciplined) (init true) politePeer :=
  ⟨⟨_, rfl, rfl⟩, handshake_disciplined (by decide)⟩

/-- A broadcast reaches a connection that has just been accepted. -/
def earlyBroadcast : List HandshakeLabel :=
  [.accept 100, .beginBroadcast [someHash] none, .announce (fun _ => .fluff) .flushed .flushed]

/-- The peer sends `ping` before its version. -/
def earlyPing : List HandshakeLabel := [.accept 100, .receive 0 .ping (calm 100)]

/-- The peer sends `verack` again after the reply. -/
def secondVerack : List HandshakeLabel :=
  politePeer ++ [.receive 0 .verack (calm 110), .beginFlush 115,
    .flushOne [] [someHash] (fun _ => false) 115 .flushed .flushed, .endWalk]

/-- An inventory before the version and the handshake, an answer before the version, and a second reply. -/
theorem handshake_undisciplined :
    (∃ s conn, Transition.run step (init true) earlyBroadcast = some s ∧ conn ∈ s.conns ∧
      conn.type = .serverSocket ∧ conn.log = [⟨.inv [someHash], false, false⟩] ∧ ¬ conn.Disciplined) ∧
    (∃ s conn, Transition.run step (init true) earlyPing = some s ∧ conn ∈ s.conns ∧
      conn.type = .serverSocket ∧ conn.log = [⟨.pong, false, false⟩] ∧ ¬ conn.Disciplined) ∧
    ∃ s conn, Transition.run step (init true) secondVerack = some s ∧ conn ∈ s.conns ∧ conn.replies = 2 ∧
      ¬ conn.Disciplined := by
  refine ⟨⟨_, _, rfl, List.mem_singleton_self _, rfl, rfl, fun h => ?_⟩,
    ⟨_, _, rfl, List.mem_singleton_self _, rfl, rfl, fun h => ?_⟩,
    ⟨_, _, rfl, List.mem_singleton_self _, rfl, fun h => ?_⟩⟩
  · cases h.afterVersion rfl _ (List.mem_singleton_self _)
  · cases h.afterVersion rfl _ (List.mem_singleton_self _)
  · exact absurd h.once (by decide)

end HandshakeSys

end Bitmessage
