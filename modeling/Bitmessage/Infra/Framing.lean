import Bitmessage.Lib.Lexing
import Bitmessage.Infra.Message

/-! The receiving end of a connection: `bm_network_handle_readable` reads whatever the
kernel has, lets the buffer grow by doubling, and then takes messages off the front of the
buffer, resynchronising where the bytes are none. A readable event is what the `read` calls of
one invocation answer. The state keeps what was taken off, so that each byte can be accounted
for. -/

namespace Bitmessage

open Lexing

/-- `INIT_RECV_BUFFER_SIZE`. -/
def initRecvBufferSize : ℕ := 131072

/-- `MAX_RECV_BUFFER_SIZE`. -/
def maxRecvBufferSize : ℕ := 2 * (messageHeaderSize + maxMessageLength)

/-- What one step of the parse loop removes from the buffer. -/
inductive Frame where
  | message (msg : Message)
  | badChecksum
  | badMagic

/-- The message that is handed to the handler, if any. -/
def Frame.message? : Frame → Option Message
  | .message msg => some msg
  | .badChecksum | .badMagic => none

/-- The receiving part of `struct bm_fd_data`; `length` is that of the buffer. `frames` are the
frames removed so far with their bytes. -/
structure RecvConn where
  recvBuffer : Bytes
  size : ℕ
  frames : List (Frame × Bytes)

/-- The connection as `bm_fd_data_new` makes it. -/
def RecvConn.new : RecvConn := ⟨[], initRecvBufferSize, []⟩

/-- The messages that the handler was called with. -/
def messagesOf (frames : List (Frame × Bytes)) : List Message := frames.filterMap fun f => f.1.message?

def RecvConn.messages (conn : RecvConn) : List Message := messagesOf conn.frames

/-- The bytes of a `read` that is neither the end of the stream nor an error. -/
structure Chunk where
  bytes : Bytes
  nonempty : bytes ≠ []
  length_le : bytes.length ≤ initRecvBufferSize

/-- Why the read loop ends: `EAGAIN`, the end of the stream, or another error. -/
inductive ReadEnd where
  | again
  | eof
  | failed
  deriving DecidableEq

/-- The answers that the `read` calls of one `bm_network_handle_readable` get. -/
structure ReadEvent where
  chunks : List Chunk
  ending : ReadEnd

/-- The bytes that chunks deliver. -/
def bytesOf (chunks : List Chunk) : Bytes := chunks.flatMap Chunk.bytes

def ReadEvent.bytes (e : ReadEvent) : Bytes := bytesOf e.chunks

/-- The result of `bm_network_handle_readable`: `0`, `1` or `-1`. -/
inductive ReadStatus where
  | alive
  | peerClosed
  | dropped
  deriving DecidableEq

/-- `while (need > new_size) new_size *= 2;`; a positive size is doubled fewer than `need` times. -/
def grow : ℕ → ℕ → ℕ → ℕ
  | 0, _, size => size
  | fuel + 1, need, size => if size < need then grow fuel need (size * 2) else size

/-- One `read` that returned bytes; `none` when the buffer would grow too large. -/
def appendChunk (conn : RecvConn) (chunk : Chunk) : Option RecvConn :=
  let need := conn.recvBuffer.length + chunk.bytes.length
  if conn.size < need then
    let newSize := grow need need conn.size
    if maxRecvBufferSize < newSize then none
    else some { conn with recvBuffer := conn.recvBuffer ++ chunk.bytes, size := newSize }
  else some { conn with recvBuffer := conn.recvBuffer ++ chunk.bytes }

/-- The read loop. The handler has no part in it. -/
def readLoop (ending : ReadEnd) : RecvConn → List Chunk → RecvConn × ReadStatus
  | conn, [] =>
    match ending with
    | .again => (conn, .alive)
    | .eof => (conn, .peerClosed)
    | .failed => (conn, .dropped)
  | conn, chunk :: chunks =>
    match appendChunk conn chunk with
    | none => (conn, .dropped)
    | some conn => readLoop ending conn chunks

/-- Move what follows the first `consumed` bytes to the front. -/
def RecvConn.remove (conn : RecvConn) (frame : Frame) (consumed : ℕ) : RecvConn :=
  { conn with
    recvBuffer := conn.recvBuffer.drop consumed
    frames := conn.frames ++ [(frame, conn.recvBuffer.take consumed)] }

section Receive
-- `disconnects ms` tells whether `should_disconnect` is set once the handler has had `ms`
variable (H : Hashes) (magic : Bytes) (disconnects : List Message → Bool)

/-- The parse loop; each round that does not end it removes at least one byte. -/
def parseLoop : ℕ → RecvConn → RecvConn × ReadStatus
  | 0, conn => (conn, .alive)
  | fuel + 1, conn =>
    match parseMessage H magic conn.recvBuffer with
    | .incomplete => (conn, .alive)
    | .badChecksum consumed => parseLoop fuel (conn.remove .badChecksum consumed)
    | .badMagic consumed => parseLoop fuel (conn.remove .badMagic consumed)
    | .messageTooLarge => (conn, .dropped)
    | .ok msg consumed =>
      let conn := conn.remove (.message msg) consumed
      if disconnects conn.messages then (conn, .dropped) else parseLoop fuel conn

/-- `bm_network_handle_readable`. -/
def handleReadable (conn : RecvConn) (e : ReadEvent) : RecvConn × ReadStatus :=
  match readLoop e.ending conn e.chunks with
  | (conn, .alive) => parseLoop H magic disconnects (conn.recvBuffer.length + 1) conn
  | r => r

/-- The events of a connection, up to the first that closes it. -/
def handleEvents : RecvConn → List ReadEvent → RecvConn × ReadStatus
  | conn, [] => (conn, .alive)
  | conn, e :: es =>
    match handleReadable H magic disconnects conn e with
    | (conn, .alive) => handleEvents conn es
    | r => r

/-- The next frame of a buffer. -/
def nextFrame (data : Bytes) : Option (Frame × ℕ) :=
  match parseMessage H magic data with
  | .ok msg consumed => some (.message msg, consumed)
  | .badChecksum consumed => some (.badChecksum, consumed)
  | .badMagic consumed => some (.badMagic, consumed)
  | .incomplete | .messageTooLarge => none

end Receive

/-! ### Frames -/

section Frames
variable (H : Hashes) (magic : Bytes)

theorem nextFrame_of_incomplete {data : Bytes} (h : parseMessage H magic data = .incomplete) :
    nextFrame H magic data = none := by
  rw [nextFrame, h]

theorem parseMessage_of_nextFrame {data : Bytes} {frame : Frame} {n : ℕ}
    (h : nextFrame H magic data = some (frame, n)) :
    parseMessage H magic data ≠ .incomplete ∧ parseMessage H magic data ≠ .messageTooLarge ∧
      n = (parseMessage H magic data).consumed := by
  unfold nextFrame at h
  cases hp : parseMessage H magic data <;> simp_all [ParseResult.consumed]

/-- Frames are found at the front of the buffer and are not revised. -/
theorem incremental_nextFrame : Incremental (nextFrame H magic) where
  append := by
    intro data frame n h more
    have hp := (parseMessage_of_nextFrame H magic h).1
    rw [← h, nextFrame, nextFrame, parseMessage_append H magic hp more]
  le_length := by
    intro data frame n h
    obtain ⟨-, -, rfl⟩ := parseMessage_of_nextFrame H magic h
    exact consumed_parseMessage_le H magic

theorem nextFrame_pos {data : Bytes} {frame : Frame} {n : ℕ} (h : nextFrame H magic data = some (frame, n)) :
    0 < n := by
  obtain ⟨hi, hl, rfl⟩ := parseMessage_of_nextFrame H magic h
  exact consumed_parseMessage_pos H magic hi hl

end Frames

/-! ### The parse loop -/

theorem messages_remove (conn : RecvConn) (frame : Frame) (n : ℕ) :
    (conn.remove frame n).messages = conn.messages ++ frame.message?.toList := by
  unfold RecvConn.messages messagesOf RecvConn.remove
  rw [List.filterMap_append]
  cases h : frame.message? <;> simp [h]

section Loop
variable (H : Hashes) (magic : Bytes) (disconnects : List Message → Bool)

/-- What the parse loop leaves behind: frames were cut off the buffer, the handler did not ask for
a disconnect on the way, and the loop ended because the next message is not complete, because
it is too large, or because of the handler. -/
structure Parsed (conn : RecvConn) (fs : List (Frame × Bytes)) (r : RecvConn × ReadStatus) : Prop where
  lexes : Lexes (nextFrame H magic) conn.recvBuffer fs r.1.recvBuffer
  frames : r.1.frames = conn.frames ++ fs
  size : r.1.size = conn.size
  quiet : ∀ k, conn.messages.length < k → k < r.1.messages.length → disconnects (r.1.messages.take k) = false
  ending : (r.2 = .alive ∧ parseMessage H magic r.1.recvBuffer = .incomplete ∧
      (conn.messages.length < r.1.messages.length → disconnects r.1.messages = false)) ∨
    (r.2 = .dropped ∧ parseMessage H magic r.1.recvBuffer = .messageTooLarge) ∨
    (r.2 = .dropped ∧ conn.messages.length < r.1.messages.length ∧ disconnects r.1.messages = true)

variable {H magic disconnects}

theorem Parsed.messages {conn : RecvConn} {fs : List (Frame × Bytes)} {r : RecvConn × ReadStatus}
    (h : Parsed H magic disconnects conn fs r) : r.1.messages = conn.messages ++ messagesOf fs := by
  unfold RecvConn.messages
  rw [h.frames, messagesOf, List.filterMap_append]
  rfl

/-- A round that skips bytes. -/
theorem Parsed.skip {conn : RecvConn} {frame : Frame} {n : ℕ} {fs : List (Frame × Bytes)}
    {r : RecvConn × ReadStatus} (hn : nextFrame H magic conn.recvBuffer = some (frame, n))
    (hf : frame.message? = none) (h : Parsed H magic disconnects (conn.remove frame n) fs r) :
    Parsed H magic disconnects conn ((frame, conn.recvBuffer.take n) :: fs) r := by
  have hm : (conn.remove frame n).messages = conn.messages := by
    rw [messages_remove, hf, Option.toList_none, List.append_nil]
  refine ⟨.cons hn h.lexes, ?_, h.size, ?_, ?_⟩
  · rw [h.frames, RecvConn.remove, List.append_assoc, List.singleton_append]
  · exact hm ▸ h.quiet
  · exact hm ▸ h.ending

/-- A round that hands over a message to a handler that keeps the connection. -/
theorem Parsed.dispatch {conn : RecvConn} {msg : Message} {n : ℕ} {fs : List (Frame × Bytes)}
    {r : RecvConn × ReadStatus} (hn : nextFrame H magic conn.recvBuffer = some (.message msg, n))
    (hd : disconnects (conn.messages ++ [msg]) = false)
    (h : Parsed H magic disconnects (conn.remove (.message msg) n) fs r) :
    Parsed H magic disconnects conn ((.message msg, conn.recvBuffer.take n) :: fs) r := by
  have hm : (conn.remove (.message msg) n).messages = conn.messages ++ [msg] := messages_remove _ _ _
  have hmessages := h.messages
  have hquiet := h.quiet
  have hending := h.ending
  rw [hm] at hmessages
  rw [hm, List.length_append, List.length_singleton] at hquiet hending
  have hlen : r.1.messages.length = conn.messages.length + 1 + (messagesOf fs).length := by
    rw [hmessages, List.length_append, List.length_append, List.length_singleton]
  refine ⟨.cons hn h.lexes, ?_, h.size, ?_, ?_⟩
  · rw [h.frames, RecvConn.remove, List.append_assoc, List.singleton_append]
  · intro k hlo hhi
    rcases Nat.lt_or_ge (conn.messages.length + 1) k with hk | hk
    · exact hquiet k hk hhi
    · have hlast : k = (conn.messages ++ [msg]).length := by simp; omega
      rw [hmessages, hlast, List.take_left, hd]
  · rcases hending with ⟨ha, hi, hq⟩ | ⟨ha, hl⟩ | ⟨ha, hlt, hq⟩
    · refine .inl ⟨ha, hi, fun _ => ?_⟩
      by_cases hlt : conn.messages.length + 1 < r.1.messages.length
      · exact hq hlt
      · have hnil : messagesOf fs = [] := List.eq_nil_of_length_eq_zero (by omega)
        rw [hmessages, hnil, List.append_nil, hd]
    · exact .inr (.inl ⟨ha, hl⟩)
    · exact .inr (.inr ⟨ha, by omega, hq⟩)

theorem parsed_parseLoop (fuel : ℕ) (conn : RecvConn) (hfuel : conn.recvBuffer.length < fuel) :
    ∃ fs, Parsed H magic disconnects conn fs (parseLoop H magic disconnects fuel conn) := by
  induction fuel generalizing conn with
  | zero => exact absurd hfuel (Nat.not_lt_zero _)
  | succ fuel ih =>
    have hround {frame : Frame} {n : ℕ} (hn : nextFrame H magic conn.recvBuffer = some (frame, n)) :
        (conn.remove frame n).recvBuffer.length < fuel := by
      have hpos := nextFrame_pos H magic hn
      have hle := (incremental_nextFrame H magic).le_length hn
      show (conn.recvBuffer.drop n).length < fuel
      rw [List.length_drop]
      omega
    have hstop : ∀ k, conn.messages.length < k → k < conn.messages.length →
        disconnects (conn.messages.take k) = false := fun k hlo hhi => by omega
    rw [parseLoop]
    cases hp : parseMessage H magic conn.recvBuffer with
    | incomplete =>
      exact ⟨[], .nil _, (List.append_nil _).symm, rfl, hstop, .inl ⟨rfl, hp, fun h => absurd h (Nat.lt_irrefl _)⟩⟩
    | messageTooLarge => exact ⟨[], .nil _, (List.append_nil _).symm, rfl, hstop, .inr (.inl ⟨rfl, hp⟩)⟩
    | badChecksum n =>
      have hn : nextFrame H magic conn.recvBuffer = some (.badChecksum, n) := by rw [nextFrame, hp]
      obtain ⟨fs, hfs⟩ := ih _ (hround hn)
      exact ⟨_, hfs.skip hn rfl⟩
    | badMagic n =>
      have hn : nextFrame H magic conn.recvBuffer = some (.badMagic, n) := by rw [nextFrame, hp]
      obtain ⟨fs, hfs⟩ := ih _ (hround hn)
      exact ⟨_, hfs.skip hn rfl⟩
    | ok msg n =>
      have hn : nextFrame H magic conn.recvBuffer = some (.message msg, n) := by rw [nextFrame, hp]
      have hm : (conn.remove (.message msg) n).messages = conn.messages ++ [msg] := messages_remove _ _ _
      by_cases hd : disconnects (conn.remove (.message msg) n).messages = true
      · refine ⟨[(.message msg, conn.recvBuffer.take n)], ?_⟩
        simp only [if_pos hd]
        refine ⟨.cons hn (.nil _), rfl, rfl, ?_, .inr (.inr ⟨rfl, ?_, hd⟩)⟩
        · intro k hlo hhi
          rw [hm, List.length_append, List.length_singleton] at hhi
          omega
        · rw [hm, List.length_append, List.length_singleton]
          omega
      · obtain ⟨fs, hfs⟩ := ih _ (hround hn)
        simp only [if_neg hd]
        rw [hm, Bool.not_eq_true] at hd
        exact ⟨_, hfs.dispatch hn hd⟩

/-! ### Runs -/

theorem appendChunk_eq_some {conn c : RecvConn} {chunk : Chunk} (h : appendChunk conn chunk = some c) :
    c.recvBuffer = conn.recvBuffer ++ chunk.bytes ∧ c.frames = conn.frames := by
  unfold appendChunk at h
  simp only at h
  split_ifs at h
  · cases h; exact ⟨rfl, rfl⟩
  · cases h; exact ⟨rfl, rfl⟩

theorem readLoop_alive {ending : ReadEnd} {conn c : RecvConn} {chunks : List Chunk}
    (h : readLoop ending conn chunks = (c, .alive)) :
    c.recvBuffer = conn.recvBuffer ++ bytesOf chunks ∧ c.frames = conn.frames := by
  induction chunks generalizing conn with
  | nil =>
    cases ending with
    | again => cases h; exact ⟨(List.append_nil _).symm, rfl⟩
    | eof => cases h
    | failed => cases h
  | cons chunk chunks ih =>
    rw [readLoop] at h
    cases ha : appendChunk conn chunk with
    | none => rw [ha] at h; cases h
    | some d =>
      rw [ha] at h
      obtain ⟨hb, hf⟩ := appendChunk_eq_some ha
      obtain ⟨hb', hf'⟩ := ih h
      refine ⟨?_, hf'.trans hf⟩
      rw [hb', hb, List.append_assoc]
      rfl

theorem handleReadable_alive {conn c : RecvConn} {e : ReadEvent}
    (h : handleReadable H magic disconnects conn e = (c, .alive)) :
    ∃ fs, Lexes (nextFrame H magic) (conn.recvBuffer ++ e.bytes) fs c.recvBuffer ∧
      c.frames = conn.frames ++ fs ∧ parseMessage H magic c.recvBuffer = .incomplete := by
  unfold handleReadable at h
  rcases hr : readLoop e.ending conn e.chunks with ⟨d, status⟩
  rw [hr] at h
  cases status with
  | peerClosed => cases h
  | dropped => cases h
  | alive =>
    obtain ⟨hb, hf⟩ := readLoop_alive hr
    obtain ⟨fs, hfs⟩ : ∃ fs, Parsed H magic disconnects d fs
        (parseLoop H magic disconnects (d.recvBuffer.length + 1) d) :=
      parsed_parseLoop _ d (Nat.lt_succ_self _)
    simp only at h
    rw [h] at hfs
    refine ⟨fs, ?_, ?_, ?_⟩
    · rw [ReadEvent.bytes, ← hb]
      exact hfs.lexes
    · rw [hfs.frames, hf]
    · rcases hfs.ending with ⟨-, hi, -⟩ | ⟨hd, -⟩ | ⟨hd, -⟩
      · exact hi
      · contradiction
      · contradiction

/-- A run that keeps the connection has cut the whole stream as far as it goes. -/
theorem handleEvents_alive {conn c : RecvConn} {es : List ReadEvent}
    (h : handleEvents H magic disconnects conn es = (c, .alive))
    (hconn : parseMessage H magic conn.recvBuffer = .incomplete) :
    ∃ fs, Lexes (nextFrame H magic) (conn.recvBuffer ++ es.flatMap ReadEvent.bytes) fs c.recvBuffer ∧
      c.frames = conn.frames ++ fs ∧ parseMessage H magic c.recvBuffer = .incomplete := by
  induction es generalizing conn with
  | nil =>
    cases h
    refine ⟨[], ?_, (List.append_nil _).symm, hconn⟩
    rw [List.flatMap_nil, List.append_nil]
    exact .nil _
  | cons e es ih =>
    rw [handleEvents] at h
    rcases hr : handleReadable H magic disconnects conn e with ⟨d, status⟩
    rw [hr] at h
    cases status with
    | peerClosed => cases h
    | dropped => cases h
    | alive =>
      obtain ⟨fs, hl, hf, hi⟩ := handleReadable_alive hr
      obtain ⟨gs, hl', hf', hi'⟩ := ih h hi
      refine ⟨fs ++ gs, ?_, ?_, hi'⟩
      · rw [List.flatMap_cons, ← List.append_assoc]
        exact (hl.append (incremental_nextFrame H magic) _).trans hl'
      · rw [hf', hf, List.append_assoc]

end Loop

/-- However a stream is cut into reads and readable events, as long as the connection stays, the same
frames are taken off it, hence the handler gets the same messages in the same order, and the same bytes
stay in the buffer. Every byte is in one frame or still in the buffer, and each frame is a message, a
message with a wrong checksum, or a byte where no message starts. -/
theorem framing_chunk_independent (H : Hashes) (magic : Bytes) (disconnects : List Message → Bool)
    (es es' : List ReadEvent) (c c' : RecvConn)
    (hstream : es.flatMap ReadEvent.bytes = es'.flatMap ReadEvent.bytes)
    (h : handleEvents H magic disconnects .new es = (c, .alive))
    (h' : handleEvents H magic disconnects .new es' = (c', .alive)) :
    c.messages = c'.messages ∧ c.recvBuffer = c'.recvBuffer ∧ c.frames = c'.frames ∧
      c.frames.flatMap Prod.snd ++ c.recvBuffer = es.flatMap ReadEvent.bytes ∧
      ∀ frame bytes, (frame, bytes) ∈ c.frames →
        ∃ following, nextFrame H magic (bytes ++ following) = some (frame, bytes.length) := by
  have hnew : parseMessage H magic RecvConn.new.recvBuffer = .incomplete := rfl
  obtain ⟨fs, hl, hf, hi⟩ := handleEvents_alive h hnew
  obtain ⟨fs', hl', hf', hi'⟩ := handleEvents_alive h' hnew
  rw [← hstream] at hl'
  obtain ⟨rfl, hrest⟩ := hl.unique hl' (nextFrame_of_incomplete H magic hi) (nextFrame_of_incomplete H magic hi')
  have hframes : c.frames = c'.frames := hf.trans hf'.symm
  refine ⟨?_, hrest, hframes, ?_, ?_⟩
  · rw [RecvConn.messages, RecvConn.messages, hframes]
  · rw [hf]
    exact hl.flatMap_append
  · intro frame bytes hmem
    rw [hf] at hmem
    exact hl.next_of_mem (incremental_nextFrame H magic) hmem

/-- A stray byte and a packet, cut inside the header. -/
def noisyVerack : List Chunk :=
  let bytes : Bytes := 0 :: verackPacket.bytes emptyStringHashes false
  [⟨bytes.take 11, by decide, by decide⟩, ⟨bytes.drop 11, by decide, by decide⟩]

/-- Two events and one event. -/
theorem noisyVerack_chunk_independent :
    (handleEvents emptyStringHashes (magicBytes false) (fun _ => false) .new
        (noisyVerack.map fun chunk => ⟨[chunk], .again⟩)).1.messages =
      (handleEvents emptyStringHashes (magicBytes false) (fun _ => false) .new [⟨noisyVerack, .again⟩]).1.messages := by
  have halive : (handleEvents emptyStringHashes (magicBytes false) (fun _ => false) .new
      (noisyVerack.map fun chunk => ⟨[chunk], .again⟩)).2 = .alive := by decide
  have halive' : (handleEvents emptyStringHashes (magicBytes false) (fun _ => false) .new
      [⟨noisyVerack, .again⟩]).2 = .alive := by decide
  exact (framing_chunk_independent emptyStringHashes (magicBytes false) (fun _ => false) _ _ _ _ rfl
    (Prod.ext rfl halive) (Prod.ext rfl halive')).1

end Bitmessage
