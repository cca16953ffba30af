import Bitmessage.Lib.LinkedQueue
import Bitmessage.Lib.Transition
import Bitmessage.Common.Bytes

/-! The send queue of a connection. Calls of `bm_network_send`, `bm_network_flush` and
`bm_network_epoll_register` are serialised by `send_lock`; between two `send` system calls of
one flush nothing else happens to the queue, but each of them is a step of its own, so that
the invariants hold in the middle of a flush as well. The order in which the threads get the
lock is the order of the labels. -/

namespace Bitmessage

open LinkedQueue

/-- `BM_SEND_QUEUE_HARD_LIMIT_BYTES`. -/
def sendQueueHardLimitBytes : ℕ := 16 * 1024 * 1024

/-- `struct bm_send_chunk`; its `len` is the length of the data. -/
structure SendChunk where
  data : Bytes
  off : ℕ

/-- The bytes of a chunk that the kernel has not taken. -/
def SendChunk.unsent (c : SendChunk) : Bytes := c.data.drop c.off

/-- What a call returned when it released the lock. -/
inductive SendResult where
  /-- `0`, or after a flush -/
  | flushed
  | flushFailed
  | overLimit
  | noMemory
  | empty
  | registered
  | registerFailed
  deriving DecidableEq

/-- The call that holds `send_lock` and is in the loop of `flush_locked`. -/
structure Flushing where
  /-- the call is `bm_network_send` -/
  sending : Bool
  now : ℤ

/-- The sending part of `struct bm_fd_data` and of the world: the bytes the socket has taken, the
packets that were queued, the interest of `epoll` in `EPOLLOUT`, who holds the lock, what the last
call returned, and how many flushes have failed. -/
structure SendConn where
  queue : Raw SendChunk
  sendQueuedBytes : ℕ
  bytesSent : ℕ
  lastWriteProgress : ℤ
  epollRegistered : Bool
  sendOutArmed : Bool
  pendingEviction : Bool
  wire : Bytes
  accepted : List Bytes
  epollOut : Bool
  lock : Option Flushing
  result : Option SendResult
  failures : ℕ

/-- A connection as `bm_fd_data_new` makes it. -/
def SendConn.new : SendConn where
  queue := Raw.empty
  sendQueuedBytes := 0
  bytesSent := 0
  lastWriteProgress := 0
  epollRegistered := false
  sendOutArmed := false
  pendingEviction := false
  wire := []
  accepted := []
  epollOut := false
  lock := none
  result := none
  failures := 0

/-- What happens next: a call takes the lock, or `send` returns in a flush. -/
inductive WriteLabel where
  /-- `bm_network_send`; `memory` tells whether `malloc` succeeds -/
  | send (data : Bytes) (now : ℤ) (memory : Bool)
  | flush (now : ℤ)
  | epollRegister
  | sent (n : ℕ)
  | interrupted
  | wouldBlock
  /-- `send` returned zero or another error -/
  | failed
  /-- the loop finds an empty queue -/
  | drained

/-- `update_out_interest_locked`. -/
def updateOutInterest (conn : SendConn) : SendConn :=
  let want := conn.queue.head.isSome
  if !conn.epollRegistered || want == conn.sendOutArmed then conn
  else { conn with epollOut := want, sendOutArmed := want }

/-- Release the lock. -/
def SendConn.unlock (conn : SendConn) (result : SendResult) : SendConn :=
  { conn with lock := none, result := some result }

/-- `bm_network_send` up to the flush. -/
def enqueueSend (conn : SendConn) (data : Bytes) (now : ℤ) (memory : Bool) : SendConn :=
  if data.length = 0 then { conn with result := some .empty }
  else if sendQueueHardLimitBytes < addW conn.sendQueuedBytes data.length then
    { conn with pendingEviction := true, result := some .overLimit }
  else if !memory then { conn with result := some .noMemory }
  else
    { conn with
      queue := conn.queue.enqueue ⟨data, 0⟩
      lastWriteProgress := if conn.queue.tail = none then now else conn.lastWriteProgress
      sendQueuedBytes := addW conn.sendQueuedBytes data.length
      accepted := conn.accepted ++ [data]
      lock := some ⟨true, now⟩ }

/-- `send` has taken `n` bytes of the chunk at the head. -/
def advanceHead (conn : SendConn) (call : Flushing) (c : SendChunk) (n : ℕ) : SendConn :=
  let queue := conn.queue.setFront { c with off := addW c.off n }
  { conn with
    queue := if addW c.off n = c.data.length then (queue.dequeue.map Prod.snd).getD queue else queue
    sendQueuedBytes := subW conn.sendQueuedBytes n
    bytesSent := addW conn.bytesSent n
    lastWriteProgress := call.now
    wire := conn.wire ++ c.unsent.take n }

/-- `bm_network_epoll_register`; a second registration is refused by `epoll`. -/
def epollRegister (conn : SendConn) : SendConn :=
  if conn.epollRegistered then { conn with result := some .registerFailed }
  else
    let wantOut := conn.queue.head.isSome
    { conn with epollRegistered := true, epollOut := wantOut, sendOutArmed := wantOut, result := some .registered }

/-- One step of the loop of `flush_locked`; the kernel takes no more than it is given. -/
def flushStep (conn : SendConn) (call : Flushing) : WriteLabel → Option SendConn
  | .drained =>
    match conn.queue.front with
    | none => some ((updateOutInterest conn).unlock .flushed)
    | some _ => none
  | .sent n =>
    match conn.queue.front with
    | some c => if 0 < n ∧ n ≤ subW c.data.length c.off then some (advanceHead conn call c n) else none
    | none => none
  | .interrupted => if conn.queue.front.isSome then some conn else none
  | .wouldBlock => if conn.queue.front.isSome then some ((updateOutInterest conn).unlock .flushed) else none
  | .failed =>
    if conn.queue.front.isSome then
      some { conn.unlock .flushFailed with
        pendingEviction := conn.pendingEviction || call.sending
        failures := conn.failures + 1 }
    else none
  | .send .. | .flush _ | .epollRegister => none

/-- The calls of all threads on one connection. No buffer is larger than `PTRDIFF_MAX`. -/
def writeStep (conn : SendConn) (label : WriteLabel) : Option SendConn :=
  match conn.lock with
  | some call => flushStep conn call label
  | none =>
    match label with
    | .send data now memory => if data.length < 2 ^ 63 then some (enqueueSend conn data now memory) else none
    | .flush now => some { conn with lock := some ⟨false, now⟩ }
    | .epollRegister => some (epollRegister conn)
    | .sent _ | .interrupted | .wouldBlock | .failed | .drained => none

/-! ### Invariants -/

/-- The bytes of the chunks that are still to be sent. -/
def unsentBytes (l : List (ℕ × SendChunk)) : Bytes := l.flatMap fun c => c.2.unsent

/-- The sum of `len - off`. -/
def queuedBytes (l : List (ℕ × SendChunk)) : ℕ := (l.map fun c => c.2.data.length - c.2.off).sum

@[simp] theorem unsentBytes_cons (c : ℕ × SendChunk) (l : List (ℕ × SendChunk)) :
    unsentBytes (c :: l) = c.2.unsent ++ unsentBytes l := rfl

@[simp] theorem queuedBytes_cons (c : ℕ × SendChunk) (l : List (ℕ × SendChunk)) :
    queuedBytes (c :: l) = c.2.data.length - c.2.off + queuedBytes l := by
  rw [queuedBytes, List.map_cons, List.sum_cons]
  rfl

theorem unsentBytes_append (l : List (ℕ × SendChunk)) (c : ℕ × SendChunk) :
    unsentBytes (l ++ [c]) = unsentBytes l ++ c.2.unsent := by
  rw [unsentBytes, List.flatMap_append, List.flatMap_singleton]
  rfl

theorem queuedBytes_append (l : List (ℕ × SendChunk)) (c : ℕ × SendChunk) :
    queuedBytes (l ++ [c]) = queuedBytes l + (c.2.data.length - c.2.off) := by
  rw [queuedBytes, List.map_append, List.sum_append, List.map_singleton, List.sum_singleton]
  rfl

/-- After a flush that did not fail, after the registration, and as long as no flush has failed,
`EPOLLOUT` is asked for exactly when something is queued. -/
def SendConn.OutArmed (conn : SendConn) : Prop :=
  conn.lock = none → conn.epollRegistered = true →
    conn.result = some .flushed ∨ conn.result = some .registered ∨ conn.failures = 0 →
    conn.epollOut = conn.queue.head.isSome

/-- The queue with the chunks `l` is well formed and accounts for every byte of the accepted packets. -/
structure QueueInvariant (conn : SendConn) (l : List (ℕ × SendChunk)) : Prop where
  consistent : conn.queue.Consistent l
  chunk : ∀ c ∈ l, c.2.off < c.2.data.length ∧ c.2.data.length < 2 ^ 63
  stream : conn.accepted.flatten = conn.wire ++ unsentBytes l
  queued : conn.sendQueuedBytes = queuedBytes l
  limit : conn.sendQueuedBytes ≤ sendQueueHardLimitBytes

/-- The flag for `EPOLLOUT` is what `epoll` was told. -/
structure OutInvariant (conn : SendConn) : Prop where
  out : conn.epollOut = conn.sendOutArmed
  armed : conn.OutArmed

theorem queueInvariant_new : QueueInvariant .new [] where
  consistent := ⟨rfl, rfl, List.nodup_nil, nofun, Nat.le_refl _⟩
  chunk := nofun
  stream := rfl
  queued := rfl
  limit := Nat.zero_le _

theorem outInvariant_new : OutInvariant .new := ⟨rfl, fun _ h => nomatch h⟩

theorem queueInvariant_enqueue {conn : SendConn} {l : List (ℕ × SendChunk)} {data : Bytes} {now : ℤ}
    {memory : Bool} (h : QueueInvariant conn l) (hdata : data.length < 2 ^ 63) :
    ∃ l', QueueInvariant (enqueueSend conn data now memory) l' := by
  have hlimit := h.limit
  have hsum : addW conn.sendQueuedBytes data.length = conn.sendQueuedBytes + data.length := by
    apply addW_of_lt
    unfold sendQueueHardLimitBytes at hlimit
    unfold wordSize
    omega
  unfold enqueueSend
  by_cases hempty : data.length = 0
  · rw [if_pos hempty]
    exact ⟨l, h.consistent, h.chunk, h.stream, h.queued, h.limit⟩
  rw [if_neg hempty, hsum]
  by_cases hover : sendQueueHardLimitBytes < conn.sendQueuedBytes + data.length
  · rw [if_pos hover]
    exact ⟨l, h.consistent, h.chunk, h.stream, h.queued, h.limit⟩
  rw [if_neg hover]
  cases memory with
  | false => exact ⟨l, h.consistent, h.chunk, h.stream, h.queued, h.limit⟩
  | true =>
    rw [if_neg (by decide)]
    refine ⟨l ++ [(conn.queue.brk, ⟨data, 0⟩)], h.consistent.enqueue _, ?_, ?_, ?_, Nat.le_of_not_lt hover⟩
    · intro c hc
      rcases List.mem_append.mp hc with hc | hc
      · exact h.chunk c hc
      · rw [List.mem_singleton] at hc
        subst hc
        exact ⟨Nat.pos_of_ne_zero hempty, hdata⟩
    · show (conn.accepted ++ [data]).flatten = conn.wire ++ unsentBytes (l ++ [(conn.queue.brk, ⟨data, 0⟩)])
      rw [List.flatten_append, List.flatten_singleton, h.stream, unsentBytes_append, List.append_assoc]
      rfl
    · show conn.sendQueuedBytes + data.length = queuedBytes (l ++ [(conn.queue.brk, ⟨data, 0⟩)])
      rw [queuedBytes_append, h.queued]
      rfl

/-- The kernel takes bytes of the chunk at the head. -/
theorem queueInvariant_advance {conn : SendConn} {l : List (ℕ × SendChunk)} {call : Flushing} {c : SendChunk}
    {n : ℕ} (h : QueueInvariant conn l) (hfront : conn.queue.front = some c) (hpos : 0 < n)
    (hn : n ≤ subW c.data.length c.off) : ∃ l', QueueInvariant (advanceHead conn call c n) l' := by
  rw [h.consistent.front, Option.map_eq_some_iff] at hfront
  obtain ⟨⟨a, c'⟩, hhead, rfl⟩ := hfront
  obtain ⟨l, rfl⟩ := List.head?_eq_some_iff.mp hhead
  obtain ⟨hoff, hlen⟩ := h.chunk (a, c') List.mem_cons_self
  simp only at hoff hlen hn ⊢
  rw [subW_of_le (by unfold wordSize; omega) hoff.le] at hn
  have hoff' : addW c'.off n = c'.off + n := addW_of_lt (by unfold wordSize; omega)
  have hqueued := h.queued
  simp only [queuedBytes_cons] at hqueued
  have hlimit := h.limit
  have hsub : subW conn.sendQueuedBytes n = conn.sendQueuedBytes - n := by
    apply subW_of_le _ (by omega)
    unfold sendQueueHardLimitBytes at hlimit
    unfold wordSize
    omega
  have hstream := h.stream
  simp only [unsentBytes_cons, SendChunk.unsent] at hstream
  have hset := h.consistent.setFront { c' with off := c'.off + n }
  unfold advanceHead
  simp only [hoff', hsub]
  by_cases hdone : c'.off + n = c'.data.length
  · obtain ⟨q, hq, hcons⟩ := hset.dequeue
    rw [if_pos hdone]
    refine ⟨l, ?_, fun d hd => h.chunk d (List.mem_cons_of_mem _ hd), ?_, ?_, by simp only; omega⟩
    · simp only [hq, Option.map_some, Option.getD_some]
      exact hcons
    · simp only [hstream, SendChunk.unsent]
      rw [List.take_of_length_le (by rw [List.length_drop]; omega), List.append_assoc]
    · simp only
      omega
  · rw [if_neg hdone]
    refine ⟨(a, { c' with off := c'.off + n }) :: l, hset, ?_, ?_, ?_, by simp only; omega⟩
    · intro d hd
      rcases List.mem_cons.mp hd with rfl | hd
      · exact ⟨by simp only; omega, hlen⟩
      · exact h.chunk d (List.mem_cons_of_mem _ hd)
    · simp only [hstream, unsentBytes_cons, SendChunk.unsent]
      rw [List.append_assoc, ← List.append_assoc (List.take n _), ← List.drop_drop, List.take_append_drop]
    · simp only [queuedBytes_cons]
      omega

theorem queueInvariant_congr {conn conn' : SendConn} {l : List (ℕ × SendChunk)} (h : QueueInvariant conn l)
    (hq : conn'.queue = conn.queue) (hb : conn'.sendQueuedBytes = conn.sendQueuedBytes)
    (hw : conn'.wire = conn.wire) (ha : conn'.accepted = conn.accepted) : QueueInvariant conn' l :=
  ⟨hq ▸ h.consistent, h.chunk, by rw [ha, hw, h.stream], hb ▸ h.queued, hb ▸ h.limit⟩

theorem queue_updateOutInterest (conn : SendConn) :
    (updateOutInterest conn).queue = conn.queue ∧
      (updateOutInterest conn).sendQueuedBytes = conn.sendQueuedBytes ∧
      (updateOutInterest conn).wire = conn.wire ∧ (updateOutInterest conn).accepted = conn.accepted := by
  unfold updateOutInterest
  simp only
  split_ifs <;> exact ⟨rfl, rfl, rfl, rfl⟩

/-- Once the interest is updated, it is what the queue asks for. -/
theorem outInvariant_updateOutInterest {conn : SendConn} (h : OutInvariant conn) :
    OutInvariant ((updateOutInterest conn).unlock .flushed) := by
  have hout := h.out
  unfold updateOutInterest SendConn.unlock
  simp only
  split_ifs with hskip
  · refine ⟨hout, fun _ hreg _ => ?_⟩
    simp only at hreg
    rw [hreg, Bool.not_true, Bool.false_or, beq_iff_eq] at hskip
    simp only [hout, hskip]
  · exact ⟨rfl, fun _ _ _ => rfl⟩

/-- A step of the loop in a flush. -/
theorem flushStep_invariant {conn conn' : SendConn} {call : Flushing} {label : WriteLabel}
    (hlock : conn.lock = some call) (hq : ∃ l, QueueInvariant conn l) (ho : OutInvariant conn)
    (h : flushStep conn call label = some conn') : (∃ l, QueueInvariant conn' l) ∧ OutInvariant conn' := by
  obtain ⟨l, hl⟩ := hq
  have hflushed : (∃ l, QueueInvariant ((updateOutInterest conn).unlock .flushed) l) ∧
      OutInvariant ((updateOutInterest conn).unlock .flushed) := by
    obtain ⟨h1, h2, h3, h4⟩ := queue_updateOutInterest conn
    exact ⟨⟨l, queueInvariant_congr hl h1 h2 h3 h4⟩, outInvariant_updateOutInterest ho⟩
  cases label with
  | send data now memory => cases h
  | flush now => cases h
  | epollRegister => cases h
  | drained =>
    cases hfront : conn.queue.front with
    | none =>
      simp only [flushStep, hfront, Option.some.injEq] at h
      exact h ▸ hflushed
    | some c => simp [flushStep, hfront] at h
  | sent n =>
    cases hfront : conn.queue.front with
    | none => simp [flushStep, hfront] at h
    | some c =>
      simp only [flushStep, hfront] at h
      split_ifs at h with hn
      cases h
      refine ⟨queueInvariant_advance hl hfront hn.1 hn.2, ho.out, ?_⟩
      intro hnone
      exact absurd (hlock.symm.trans hnone) (by nofun)
  | interrupted =>
    simp only [flushStep] at h
    split_ifs at h
    cases h
    exact ⟨⟨l, hl⟩, ho⟩
  | wouldBlock =>
    simp only [flushStep] at h
    split_ifs at h
    cases h
    exact hflushed
  | failed =>
    simp only [flushStep] at h
    split_ifs at h
    cases h
    refine ⟨⟨l, queueInvariant_congr hl rfl rfl rfl rfl⟩, ho.out, ?_⟩
    rintro - - (hres | hres | hres)
    · cases hres
    · cases hres
    · exact absurd hres (Nat.succ_ne_zero _)

/-- A call that returns before the flush changes nothing that `epoll` depends on. -/
theorem outArmed_congr {conn conn' : SendConn} (h : conn.OutArmed) (hlock : conn.lock = none)
    (hr : conn'.epollRegistered = conn.epollRegistered) (hf : conn'.failures = conn.failures)
    (ho : conn'.epollOut = conn.epollOut) (hq : conn'.queue = conn.queue)
    (hres : conn'.result ≠ some .flushed ∧ conn'.result ≠ some .registered) : conn'.OutArmed := by
  rintro - hreg (hflushed | hregistered | hzero)
  · exact absurd hflushed hres.1
  · exact absurd hregistered hres.2
  · rw [ho, hq]
    exact h hlock (hr ▸ hreg) (.inr (.inr (hf ▸ hzero)))

theorem outInvariant_enqueue {conn : SendConn} (data : Bytes) (now : ℤ) (memory : Bool)
    (hlock : conn.lock = none) (h : OutInvariant conn) : OutInvariant (enqueueSend conn data now memory) := by
  unfold enqueueSend
  by_cases hempty : data.length = 0
  · rw [if_pos hempty]
    exact ⟨h.out, outArmed_congr h.armed hlock rfl rfl rfl rfl ⟨by nofun, by nofun⟩⟩
  rw [if_neg hempty]
  by_cases hover : sendQueueHardLimitBytes < addW conn.sendQueuedBytes data.length
  · rw [if_pos hover]
    exact ⟨h.out, outArmed_congr h.armed hlock rfl rfl rfl rfl ⟨by nofun, by nofun⟩⟩
  rw [if_neg hover]
  cases memory with
  | false => exact ⟨h.out, outArmed_congr h.armed hlock rfl rfl rfl rfl ⟨by nofun, by nofun⟩⟩
  | true => exact ⟨h.out, by nofun⟩

theorem outInvariant_epollRegister {conn : SendConn} (hlock : conn.lock = none) (h : OutInvariant conn) :
    OutInvariant (epollRegister conn) := by
  unfold epollRegister
  split_ifs with hreg
  · exact ⟨h.out, outArmed_congr h.armed hlock rfl rfl rfl rfl ⟨by nofun, by nofun⟩⟩
  · exact ⟨rfl, fun _ _ _ => rfl⟩

theorem writeStep_invariant {conn conn' : SendConn} {label : WriteLabel}
    (hinv : (∃ l, QueueInvariant conn l) ∧ OutInvariant conn) (h : writeStep conn label = some conn') :
    (∃ l, QueueInvariant conn' l) ∧ OutInvariant conn' := by
  obtain ⟨⟨l, hl⟩, ho⟩ := hinv
  unfold writeStep at h
  cases hlock : conn.lock with
  | some call =>
    rw [hlock] at h
    exact flushStep_invariant hlock ⟨l, hl⟩ ho h
  | none =>
    rw [hlock] at h
    cases label with
    | send data now memory =>
      simp only at h
      split_ifs at h with hdata
      cases h
      exact ⟨queueInvariant_enqueue hl hdata, outInvariant_enqueue data now memory hlock ho⟩
    | flush now =>
      cases h
      exact ⟨⟨l, queueInvariant_congr hl rfl rfl rfl rfl⟩, ho.out, by nofun⟩
    | epollRegister =>
      cases h
      refine ⟨⟨l, ?_⟩, outInvariant_epollRegister hlock ho⟩
      unfold epollRegister
      split_ifs <;> exact queueInvariant_congr hl rfl rfl rfl rfl
    | sent n => cases h
    | interrupted => cases h
    | wouldBlock => cases h
    | failed => cases h
    | drained => cases h

/-- Whatever the threads do and the kernel answers, at every moment, also inside a flush: the socket has
taken a beginning of the accepted packets, in order; what is queued is counted and below the limit; the
tail pointer is that of the last chunk; and between calls `EPOLLOUT` is asked for exactly when something is
queued, provided that the last call flushed without an error or registered the connection, or that no
flush has failed yet. -/
theorem sendQueue_integrity (labels : List WriteLabel) (conn : SendConn)
    (h : Transition.run writeStep .new labels = some conn) :
    conn.wire <+: conn.accepted.flatten ∧
      (∃ l, conn.queue.Consistent l ∧ conn.accepted.flatten = conn.wire ++ unsentBytes l ∧
        conn.sendQueuedBytes = queuedBytes l) ∧
      conn.sendQueuedBytes ≤ sendQueueHardLimitBytes ∧
      (conn.queue.head = none ↔ conn.queue.tail = none) ∧
      conn.OutArmed := by
  have hinv : (∃ l, QueueInvariant conn l) ∧ OutInvariant conn :=
    Transition.run_invariant (fun _ _ _ hi hs => writeStep_invariant hi hs)
      ⟨⟨[], queueInvariant_new⟩, outInvariant_new⟩ h
  obtain ⟨⟨l, hl⟩, ho⟩ := hinv
  refine ⟨⟨_, hl.stream.symm⟩, ⟨l, hl.consistent, hl.stream, hl.queued⟩, hl.limit, ?_, ho.armed⟩
  rw [hl.consistent.head_eq_none, hl.consistent.tail_eq_none]

/-- A packet that leaves in two parts, before and after the registration. -/
def partialWrite : List WriteLabel :=
  [.send [1, 2, 3] 0 true, .sent 2, .wouldBlock, .epollRegister, .flush 1, .sent 1, .drained]

theorem partialWrite_integrity :
    ∃ conn, Transition.run writeStep .new partialWrite = some conn ∧ conn.wire <+: conn.accepted.flatten ∧
      conn.OutArmed := by
  have hrun : (Transition.run writeStep .new partialWrite).isSome = true := by decide
  obtain ⟨conn, hconn⟩ := Option.isSome_iff_exists.mp hrun
  have hint := sendQueue_integrity partialWrite conn hconn
  exact ⟨conn, hconn, hint.1, hint.2.2.2.2⟩

end Bitmessage
